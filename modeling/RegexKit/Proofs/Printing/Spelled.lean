import RegexKit.Proofs.Printing.Beginnings

/-! Trees in the spelling that they are printed in. Only the members of classes are respelled; the
text of a tree begins in the same way, the printer adds the same parentheses, and the groups and
references are the same. -/

namespace RegexKit.Node

open RegexKit.Token

mutual

/-- A tree with the members of its classes in the spelling that they are printed in. -/
def asSpelled : Node → Node
  | regExp b flags => regExp (asSpelled b) flags
  | alternative es => alternative (asSpelledAll es)
  | disjunction bs => disjunction (asSpelledAll bs)
  | group kind e => group kind (asSpelled e)
  | charClass negated ms => charClass negated (spelled ms)
  | repetition e min max greedy => repetition (asSpelled e) min max greedy
  | n => n

def asSpelledAll : List Node → List Node
  | [] => []
  | n :: ns => asSpelled n :: asSpelledAll ns

end

theorem asSpelledAll_eq (ns : List Node) : asSpelledAll ns = ns.map asSpelled := by
  induction ns with
  | nil => rfl
  | cons n ns ih => simp [asSpelledAll, ih]

/-- The tree that the text of a tree is read as, octal escapes in classes included. -/
def readBack (n : Node) : Node := n.asSpelled.asRead

/-- A tree without octal escapes in classes is printed in its own spelling. -/
theorem asSpelled_of_built {n : Node} (hn : n.Built) : n.asSpelled = n := by
  have hall : ∀ {ns : List Node}, (∀ n ∈ ns, n.asSpelled = n) → asSpelledAll ns = ns := fun h => by
    rw [asSpelledAll_eq, List.map_congr_left h, List.map_id']
  induction n with
  | regExp _ _ _ | classRange _ _ => cases hn
  | alternative es ih => rw [asSpelled, hall fun e he => ih e he (builtAll_iff.1 hn e he)]
  | disjunction bs ih => rw [asSpelled, hall fun b hb => ih b hb (builtAll_iff.1 hn.2 b hb)]
  | group _ _ ih => rw [asSpelled, ih hn]
  | charClass _ ms _ => rw [asSpelled, spelled_of_built hn]
  | repetition _ _ _ _ ih => rw [asSpelled, ih hn.1]
  | backreference _ _ | assertion _ | char _ => rfl

@[simp] theorem isChoice_asSpelled (n : Node) : n.asSpelled.isChoice = n.isChoice := by
  cases n <;> rfl

@[simp] theorem isAtom_asSpelled (n : Node) : n.asSpelled.isAtom = n.isAtom := by
  cases n <;> rfl

/-- The spelling of classes leaves what ends in an open escape. -/
theorem endsOpen_asSpelled (n : Node) :
    n.asSpelled.printsNothing = n.printsNothing ∧ n.asSpelled.endsOpen = n.endsOpen := by
  induction n with
  | alternative es ih =>
    have hall : allPrintNothing (asSpelledAll es) = allPrintNothing es ∧
        lastEndsOpen (asSpelledAll es) = lastEndsOpen es := by
      induction es with
      | nil => exact ⟨rfl, rfl⟩
      | cons e es ihes =>
        obtain ⟨hnothing, hopen⟩ := ih e List.mem_cons_self
        obtain ⟨hnothings, hopens⟩ := ihes fun k hk => ih k (List.mem_cons_of_mem _ hk)
        simp only [asSpelledAll, allPrintNothing, lastEndsOpen, hnothing, hopen, hnothings, hopens,
          and_self]
    exact hall
  | _ => exact ⟨rfl, rfl⟩

/-! ### The same beginnings -/

/-- Two nodes whose texts begin in the same way. -/
def SameHead (n n' : Node) : Prop := n'.text.head? = n.text.head?

theorem SameHead.piece {n : Node} (h : SameHead n n.asSpelled) :
    (piece n.asSpelled n.asSpelled.text).text.head? = (piece n n.text).text.head? := by
  rw [Node.piece, Node.piece, isChoice_asSpelled]
  cases n.isChoice with
  | true => rfl
  | false => exact h

/-- The first characters of parts decide whether a digit follows. -/
theorem digitFollows_of_sameHead {es : List Node} (hes : ∀ e ∈ es, SameHead e e.asSpelled) :
    digitFollows (asSpelledAll es) = digitFollows es := by
  induction es with
  | nil => rfl
  | cons e es ih =>
    have hhead := (hes e List.mem_cons_self).piece
    have hnil : (piece e.asSpelled e.asSpelled.text).text = [] ↔ (piece e e.text).text = [] := by
      rw [← List.head?_eq_none_iff, ← List.head?_eq_none_iff, hhead]
    rw [asSpelledAll, digitFollows_cons, digitFollows_cons, hhead,
      ih fun k hk => hes k (List.mem_cons_of_mem _ hk)]
    simp only [hnil]

theorem isWrapped_of_sameHead {e : Node} {es : List Node}
    (hes : ∀ e ∈ es, SameHead e e.asSpelled) :
    isWrapped e.asSpelled (asSpelledAll es) = isWrapped e es := by
  rw [isWrapped, isWrapped, isChoice_asSpelled, (endsOpen_asSpelled e).2,
    digitFollows_of_sameHead hes]

/-- A text begins in the same way however its classes are spelled. -/
theorem sameHead_asSpelled (n : Node) : SameHead n n.asSpelled := by
  induction n with
  | regExp b flags ih => exact ih
  | alternative es ih =>
    rw [SameHead, asSpelled]
    induction es with
    | nil => rfl
    | cons e es ihes =>
      have hrest : ∀ k ∈ es, SameHead k k.asSpelled := fun k hk => ih k (List.mem_cons_of_mem _ hk)
      have he : e.asSpelled.text.head? = e.text.head? := ih e List.mem_cons_self
      rw [asSpelledAll, text_alternative_cons, text_alternative_cons, isWrapped_of_sameHead hrest,
        List.head?_append, List.head?_append, ihes hrest]
      cases isWrapped e es with
      | true => rfl
      | false => simp only [he, Bool.false_eq_true, if_false]
  | disjunction bs ih =>
    cases bs with
    | nil => rfl
    | cons b bs =>
      have hb : b.asSpelled.text.head? = b.text.head? := ih b List.mem_cons_self
      rw [SameHead, asSpelled, asSpelledAll, text_disjunction_cons, text_disjunction_cons,
        List.head?_append, List.head?_append, hb]
      cases bs <;> rfl
  | group kind e _ =>
    have hopening : kind.opening ≠ [] := by
      cases kind with
      | capturing _ name => cases name <;> simp [GroupKind.opening]
      | _ => simp [GroupKind.opening]
    have htext : ∀ k : Node, (group kind k).text.head? = kind.opening.head? := fun k => by
      have hgroup : (group kind k).text = kind.opening ++ (k.text ++ [')']) :=
        List.append_assoc _ _ _
      rw [hgroup, List.head?_append_of_ne_nil _ hopening]
    rw [SameHead, asSpelled, htext, htext]
  | charClass negated ms _ => cases negated <;> rfl
  | repetition e min max greedy ih =>
    have htext : ∀ k : Node, (repetition k min max greedy).text =
        (if k.isAtom then k.text else wrap k.text) ++ quantifierText min max greedy := fun _ => rfl
    have he : e.asSpelled.text.head? = e.text.head? := ih
    rw [SameHead, asSpelled, htext, htext, isAtom_asSpelled, List.head?_append, List.head?_append]
    cases e.isAtom with
    | true => simp only [he, if_true]
    | false => rfl
  | backreference _ _ | assertion _ | char _ | classRange _ _ => rfl

/-- The printer adds the same parentheses however classes are spelled. -/
theorem isWrapped_asSpelled (e : Node) (es : List Node) :
    isWrapped e.asSpelled (asSpelledAll es) = isWrapped e es :=
  isWrapped_of_sameHead fun k _ => sameHead_asSpelled k

theorem text_asSpelled_eq_nil {n : Node} : n.asSpelled.text = [] ↔ n.text = [] := by
  rw [← List.head?_eq_none_iff, ← List.head?_eq_none_iff, sameHead_asSpelled n]

/-! ### Groups and references -/

theorem Collects.asSpelled {α : Type} {f : Node → List α} (hf : Collects f) (n : Node) :
    f n.asSpelled = f n := by
  have hlist : ∀ {ns : List Node}, (∀ n ∈ ns, f n.asSpelled = f n) →
      (asSpelledAll ns).flatMap f = ns.flatMap f := fun h => by
    rw [asSpelledAll_eq, List.flatMap_map]
    exact List.flatMap_congr h
  induction n with
  | regExp b flags ih => rw [Node.asSpelled, hf.regExp, hf.regExp, ih]
  | alternative es ih => rw [Node.asSpelled, hf.alternative, hf.alternative, hlist ih]
  | disjunction bs ih => rw [Node.asSpelled, hf.disjunction, hf.disjunction, hlist ih]
  | group kind e ih => exact hf.group kind ih
  | repetition e min max greedy ih => rw [Node.asSpelled, hf.repetition, hf.repetition, ih]
  | charClass negated ms _ =>
    have hmember : ∀ (respells : Bool) (m : Node),
        f (if respells then respellMember m else m) = f m := fun respells m => by
      cases respells with
      | false => rfl
      | true =>
        cases m with
        | char c => exact (hf.char _).trans (hf.char _).symm
        | classRange low high => exact (hf.classRange _ _).trans (hf.classRange _ _).symm
        | _ => rfl
    rw [Node.asSpelled, hf.charClass, hf.charClass]
    clear * - hmember
    induction ms with
    | nil => rfl
    | cons m ms ih => rw [spelled, List.flatMap_cons, List.flatMap_cons, hmember, ih]
  | backreference _ _ | assertion _ | char _ | classRange _ _ => rfl

theorem captures_asSpelled (n : Node) : n.asSpelled.captures = n.captures :=
  collects_captures.asSpelled n

theorem references_asSpelled (n : Node) : n.asSpelled.references = n.references :=
  collects_references.asSpelled n

theorem captures_readBack (n : Node) : n.readBack.captures = n.captures :=
  (captures_asRead _).trans (captures_asSpelled n)

theorem references_readBack (n : Node) : n.readBack.references = n.references :=
  (references_asRead _).trans (references_asSpelled n)

end RegexKit.Node
