import RegexKit.Proofs.Optimizer.Readable
import RegexKit.Proofs.Printing.RoundTrip

/-! The tree that a text shows. The reader of a printed tree sees no sequences and no choices of
one, and marks a literal exactly where it must be escaped. That tree prints as the given one; it
is the tree that the text is read as but for the parentheses that the printer adds around escapes
before digits. -/

namespace RegexKit

namespace Node

open Token (reread)
open RegexKit.Parser (collapse)

mutual

/-- The tree that the text of a tree shows: a sequence or a choice of one is that one, and
literals are marked as the reader marks them. -/
def shown : Node → Node
  | regExp b flags => regExp (shown b) flags
  | alternative es => collapse .alternative (shownAll es)
  | disjunction bs => collapse .disjunction (shownAll bs)
  | group kind e => group kind (shown e)
  | backreference target number => backreference target number
  | assertion kind => assertion kind
  | char c => char (reread false c)
  | charClass negated ms => charClass negated (ms.map rereadMember)
  | classRange low high => classRange low high
  | repetition e min max greedy => repetition (shown e) min max greedy

def shownAll : List Node → List Node
  | [] => []
  | n :: ns => shown n :: shownAll ns

end

theorem shownAll_eq (ns : List Node) : shownAll ns = ns.map shown := by
  induction ns with
  | nil => rfl
  | cons n ns ih => rw [shownAll, List.map_cons, ih]

theorem shown_alternative_one (e : Node) : (alternative [e]).shown = e.shown := rfl

theorem shown_disjunction_one (b : Node) : (disjunction [b]).shown = b.shown := rfl

theorem shown_alternative {es : List Node} (h : es.length ≠ 1) :
    (alternative es).shown = alternative (es.map shown) := by
  rw [shown, shownAll_eq, Parser.collapse_of_length_ne_one (by rwa [List.length_map])]

theorem shown_disjunction {bs : List Node} (h : bs.length ≠ 1) :
    (disjunction bs).shown = disjunction (bs.map shown) := by
  rw [shown, shownAll_eq, Parser.collapse_of_length_ne_one (by rwa [List.length_map])]

/-! ### Groups -/

/-- The tree that a text shows has the capturing groups of the tree. -/
theorem captures_shown (n : Node) : n.shown.captures = n.captures := by
  have hlist : ∀ ns : List Node, (∀ n ∈ ns, n.shown.captures = n.captures) →
      (ns.map shown).flatMap captures = ns.flatMap captures := fun ns h => by
    rw [List.flatMap_map]
    exact List.flatMap_congr h
  induction n with
  | regExp b _ ih => exact ih
  | alternative es ih =>
    rw [shown, shownAll_eq, collapse_eq_flatMap collects_captures.alternative, hlist es ih,
      collects_captures.alternative]
  | disjunction bs ih =>
    rw [shown, shownAll_eq, collapse_eq_flatMap collects_captures.disjunction, hlist bs ih,
      collects_captures.disjunction]
  | group kind e ih => exact collects_captures.group kind ih
  | charClass negated ms _ => exact captures_asRead (charClass negated ms)
  | repetition e _ _ _ ih => exact ih
  | backreference _ _ | assertion _ | char _ | classRange _ _ => rfl

end Node

namespace Optimizer

open Node (mayStand shown rereadMember BuiltMember InClass)

variable {parent : Option NodeType} {n e : Node} {es bs : List Node}

/-! ### Trees that fit -/

theorem builtMember_rereadMember {m : Node} (hm : m.BuiltMember) :
    (rereadMember m).BuiltMember := by
  have hchar : ∀ c, InClass c → InClass (Token.reread true c) := fun c hc =>
    ⟨hc.1.reread, by rw [Token.kind_reread]; exact hc.2⟩
  cases m with
  | char c => exact hchar c hm
  | classRange low high =>
    obtain ⟨hlow, hhigh, hord⟩ := hm
    exact ⟨hchar low hlow, hchar high hhigh, by simpa using hord⟩
  | _ => cases hm

/-- A branch of a choice may stand where the choice does. -/
theorem Fits.of_choice (h : Fits (some .disjunction) n)
    (hstands : mayStand parent (.disjunction bs) = true) : Fits parent n where
  built := h.built
  tidy := h.tidy
  stands := by
    unfold mayStand at hstands ⊢
    split at hstands
    · simp [Node.isChoice] at hstands
    · cases hstands
    · cases hstands
    · rfl

/-- What a text shows fits where the tree does. -/
theorem Fits.shown (h : Fits parent n) : Fits parent n.shown := by
  induction n generalizing parent with
  | regExp _ _ _ | classRange _ _ => cases h.built
  | alternative es ih =>
    obtain ⟨hes, hstands⟩ := fits_alternative.1 h
    by_cases hone : es.length = 1
    · obtain ⟨e, rfl⟩ := List.length_eq_one_iff.1 hone
      have he := ih e List.mem_cons_self (hes e List.mem_cons_self)
      exact he.of_sequence hstands
    · rw [Node.shown_alternative hone, fits_alternative]
      refine ⟨fun k hk => ?_, hstands⟩
      obtain ⟨e, he, rfl⟩ := List.mem_map.1 hk
      exact ih e he (hes e he)
  | disjunction bs ih =>
    obtain ⟨hne, hbs, hstands⟩ := fits_disjunction.1 h
    by_cases hone : bs.length = 1
    · obtain ⟨b, rfl⟩ := List.length_eq_one_iff.1 hone
      have hb := ih b List.mem_cons_self (hbs b List.mem_cons_self)
      exact hb.of_choice hstands
    · rw [Node.shown_disjunction hone, fits_disjunction]
      refine ⟨by simpa using hne, fun k hk => ?_, hstands⟩
      obtain ⟨b, hb, rfl⟩ := List.mem_map.1 hk
      exact ih b hb (hbs b hb)
  | group kind e ih =>
    obtain ⟨he, hstands⟩ := fits_group.1 h
    exact fits_group.2 ⟨ih he, hstands⟩
  | charClass negated ms _ =>
    obtain ⟨hms, hstands⟩ := fits_charClass.1 h
    refine fits_charClass.2 ⟨fun k hk => ?_, hstands⟩
    obtain ⟨m, hm, rfl⟩ := List.mem_map.1 hk
    exact builtMember_rereadMember (hms m hm)
  | repetition e min max greedy ih =>
    obtain ⟨he, hbounds, hstands⟩ := fits_repetition.1 h
    exact fits_repetition.2 ⟨ih he, hbounds, hstands⟩
  | char c =>
    have hc : Token.Lexical false c := h.built
    exact ⟨hc.reread, rfl, h.stands⟩
  | backreference _ _ | assertion _ => exact h

/-! ### The text -/

/-- An item of a sequence is neither a sequence nor a choice. -/
theorem Fits.item (h : Fits (some .alternative) e) :
    e.isSequence = false ∧ e.isChoice = false := by
  have hstands := h.stands
  simp only [mayStand, Bool.and_eq_true, Bool.not_eq_true'] at hstands
  exact hstands

/-- An item shows a part that takes in a digit after it when the item does. -/
theorem piece_shown (h : Fits (some .alternative) e) (htext : e.shown.text = e.text) :
    Node.piece e.shown e.shown.text = Node.piece e e.text := by
  obtain ⟨hsequence, hchoice⟩ := h.item
  have hsame : e.shown.isChoice = e.isChoice ∧ e.shown.endsOpen = e.endsOpen := by
    cases e with
    | alternative _ => cases hsequence
    | disjunction _ => cases hchoice
    | char c =>
      refine ⟨rfl, ?_⟩
      rw [Node.shown, Node.endsOpen, Node.endsOpen, Token.kind_reread]
    | _ => exact ⟨rfl, rfl⟩
  rw [Node.piece, Node.piece, hsame.1, hsame.2, htext]

theorem isWrapped_nil (h : Fits (some .alternative) e) : Node.isWrapped e [] = false := by
  rw [Node.isWrapped, h.item.2]
  simp [Node.digitFollows, Node.startWithDigit]

theorem text_alternative_one (h : Fits (some .alternative) e) :
    (Node.alternative [e]).text = e.text := by
  rw [Node.text_alternative_cons, isWrapped_nil h, if_neg Bool.false_ne_true,
    Node.text_alternative_nil, List.append_nil]

/-- The tree that a text shows prints as the tree. -/
theorem Fits.text_shown (h : Fits parent n) : n.shown.text = n.text := by
  induction n generalizing parent with
  | regExp _ _ _ | classRange _ _ => cases h.built
  | alternative es ih =>
    obtain ⟨hes, -⟩ := fits_alternative.1 h
    have htext : ∀ e ∈ es, e.shown.text = e.text := fun e he => ih e he (hes e he)
    by_cases hone : es.length = 1
    · obtain ⟨e, rfl⟩ := List.length_eq_one_iff.1 hone
      rw [Node.shown_alternative_one, text_alternative_one (hes e List.mem_cons_self)]
      exact htext e List.mem_cons_self
    · have hpieces : (es.map Node.shown).map (fun e => Node.piece e e.text) =
          es.map fun e => Node.piece e e.text := by
        rw [List.map_map]
        exact List.map_congr_left fun e he => piece_shown (hes e he) (htext e he)
      have hzip : ∀ ns : List Node, List.zipWith Node.piece ns (Node.texts ns) =
          ns.map fun n => Node.piece n n.text := fun ns => by
        rw [Node.texts_eq, List.zipWith_map_right, List.zipWith_self]
      rw [Node.shown_alternative hone, Node.text, Node.text, hzip, hzip, hpieces]
  | disjunction bs ih =>
    obtain ⟨-, hbs, -⟩ := fits_disjunction.1 h
    have htext : ∀ b ∈ bs, b.shown.text = b.text := fun b hb => ih b hb (hbs b hb)
    by_cases hone : bs.length = 1
    · obtain ⟨b, rfl⟩ := List.length_eq_one_iff.1 hone
      rw [Node.shown_disjunction_one, Node.text_disjunction_cons, if_pos rfl, List.append_nil]
      exact htext b List.mem_cons_self
    · have htexts : (bs.map Node.shown).map Node.text = bs.map Node.text := by
        rw [List.map_map]
        exact List.map_congr_left htext
      rw [Node.shown_disjunction hone, Node.text, Node.text, Node.texts_eq, Node.texts_eq, htexts]
  | group kind e ih =>
    rw [Node.shown, Node.text, Node.text, ih (fits_group.1 h).1]
  | charClass negated ms _ =>
    rw [Node.shown, Node.text_rereadMember]
  | repetition e min max greedy ih =>
    obtain ⟨he, -, -⟩ := fits_repetition.1 h
    have hatom : e.shown.isAtom = e.isAtom := by
      have hrepeat : e.isRepeatable = true := he.stands
      cases e <;> first | rfl | cases hrepeat
    rw [Node.shown, Node.text, Node.text, hatom, ih he]
  | char c => rw [Node.shown, Node.text, Node.text, Token.text_reread]
  | backreference _ _ | assertion _ => rfl

/-! ### The tree that is read -/

theorem asRead_alternative_one (h : Fits (some .alternative) e) :
    (Node.alternative [e]).asRead = e.asRead := by
  rw [Node.asRead_of_not_choice rfl, Node.readBranches, List.flatten_singleton,
    Node.readParts_cons h.stands, isWrapped_nil h, if_neg Bool.false_ne_true]
  rfl

theorem asRead_disjunction_of_fits (h : ∀ b ∈ bs, Fits (some .disjunction) b) :
    (Node.disjunction bs).asRead = Parser.collapse .disjunction (bs.map Node.asRead) := by
  have hchoice : ∀ b ∈ bs, b.isChoice = false := fun b hb => by
    have hstands := (h b hb).stands
    simpa [mayStand] using hstands
  rw [Node.asRead, Node.assemble, Node.readBranches, Node.map_readChoices hchoice]

/-- The tree that a text shows and the tree that it is read as are built alike, but that some
parts of sequences are read in parentheses. -/
theorem Fits.induction_asRead {motive : Option NodeType → Node → Node → Prop}
    (same : ∀ parent n, motive parent n n)
    (alternative : ∀ parent (es : List Node), (∀ e ∈ es, Fits (some .alternative) e) →
      (∀ e ∈ es, motive (some .alternative) e.shown e.asRead) →
      motive parent (.alternative (es.map Node.shown)) (.alternative (Node.readParts es)))
    (disjunction : ∀ parent (bs : List Node),
      (∀ b ∈ bs, motive (some .disjunction) b.shown b.asRead) →
      motive parent (.disjunction (bs.map Node.shown)) (.disjunction (bs.map Node.asRead)))
    (group : ∀ parent kind (e : Node), motive (some .group) e.shown e.asRead →
      motive parent (.group kind e.shown) (.group kind e.asRead))
    (repetition : ∀ parent (e : Node) min max greedy, motive (some .repetition) e.shown e.asRead →
      motive parent (.repetition e.shown min max greedy) (.repetition e.asRead min max greedy))
    (h : Fits parent n) : motive parent n.shown n.asRead := by
  induction n generalizing parent with
  | regExp _ _ _ | classRange _ _ => cases h.built
  | alternative es ih =>
    obtain ⟨hes, hstands⟩ := fits_alternative.1 h
    by_cases hone : es.length = 1
    · obtain ⟨e, rfl⟩ := List.length_eq_one_iff.1 hone
      have he := hes e List.mem_cons_self
      rw [Node.shown_alternative_one, asRead_alternative_one he]
      exact ih e List.mem_cons_self (he.of_sequence hstands)
    · rw [Node.shown_alternative hone,
        Node.asRead_alternative_of_length_ne_one (fun e he => (hes e he).stands) hone]
      exact alternative parent es hes fun e he => ih e he (hes e he)
  | disjunction bs ih =>
    obtain ⟨-, hbs, hstands⟩ := fits_disjunction.1 h
    rw [asRead_disjunction_of_fits hbs]
    by_cases hone : bs.length = 1
    · obtain ⟨b, rfl⟩ := List.length_eq_one_iff.1 hone
      exact ih b List.mem_cons_self ((hbs b List.mem_cons_self).of_choice hstands)
    · rw [Node.shown_disjunction hone,
        Parser.collapse_of_length_ne_one (by rwa [List.length_map])]
      exact disjunction parent bs fun b hb => ih b hb (hbs b hb)
  | group kind e ih => exact group parent kind e (ih (fits_group.1 h).1)
  | repetition e min max greedy ih =>
    obtain ⟨he, -, -⟩ := fits_repetition.1 h
    have hatom : e.isAtom = true := Node.isAtom_of_isRepeatable he.stands
    rw [Node.asRead_repetition, if_pos hatom]
    exact repetition parent e min max greedy (ih he)
  | charClass negated ms _ => exact same parent _
  | char c => exact same parent _
  | backreference _ _ | assertion _ => exact same parent _

/-! ### Parts in parentheses -/

/-- The parts that are put in parentheses: octal escapes and references by number. -/
inductive IsOpen : Node → Prop
  | char (c : PatternChar) : IsOpen (.char c)
  | backreference (m number : Nat) : IsOpen (.backreference (.number m) number)

/-- A part is put in parentheses when it takes in digits and one follows. -/
theorem Fits.of_isWrapped (h : Fits (some .alternative) e) (hwrap : Node.isWrapped e es = true) :
    IsOpen e ∧ Node.digitFollows es = true := by
  obtain ⟨hsequence, hchoice⟩ := h.item
  rw [Node.isWrapped, hchoice, Bool.false_or, Bool.and_eq_true] at hwrap
  refine ⟨?_, hwrap.2⟩
  cases e with
  | char c => exact .char c
  | backreference target number =>
    cases target with
    | number m => exact .backreference m number
    | name t => cases hwrap.1
  | alternative _ => cases hsequence
  | disjunction _ => cases hchoice
  | _ => cases hwrap.1

/-- A part of a sequence as it is read. -/
def readPart (e : Node) (es : List Node) : Node :=
  if Node.isWrapped e es then .group .nonCapturing e.asRead else e.asRead

theorem readParts_cons (h : Fits (some .alternative) e) :
    Node.readParts (e :: es) = readPart e es :: Node.readParts es :=
  Node.readParts_cons h.stands

theorem forall_mem_readParts {P : Node → Prop} (hes : ∀ e ∈ es, Fits (some .alternative) e)
    (hread : ∀ e ∈ es, P e.asRead)
    (hgroup : ∀ e ∈ es, IsOpen e → P (.group .nonCapturing e.asRead)) :
    ∀ c ∈ Node.readParts es, P c := by
  induction es with
  | nil => exact nofun
  | cons e es ih =>
    have he := hes e List.mem_cons_self
    rw [readParts_cons he, List.forall_mem_cons]
    refine ⟨?_, ih (fun k hk => hes k (List.mem_cons_of_mem _ hk))
      (fun k hk => hread k (List.mem_cons_of_mem _ hk))
      fun k hk => hgroup k (List.mem_cons_of_mem _ hk)⟩
    rw [readPart]
    split
    · rename_i hwrap
      exact hgroup e List.mem_cons_self (he.of_isWrapped hwrap).1
    · exact hread e List.mem_cons_self

/-- What is read fits where the tree does. -/
theorem Fits.asRead (h : Fits parent n) : Fits parent n.asRead := by
  refine Fits.induction_asRead (motive := fun parent x y => Fits parent x → Fits parent y)
    (fun _ _ hx => hx) ?_ ?_ ?_ ?_ h h.shown
  · intro parent es hes ih hx
    obtain ⟨hshown, hstands⟩ := fits_alternative.1 hx
    have hshown := List.forall_mem_map.1 hshown
    refine fits_alternative.2 ⟨?_, hstands⟩
    have hread : ∀ e ∈ es, Fits (some .alternative) e.asRead := fun e he => ih e he (hshown e he)
    exact forall_mem_readParts hes hread fun e he _ =>
      fits_group.2 ⟨⟨(hread e he).built, (hread e he).tidy, rfl⟩, rfl⟩
  · intro parent bs ih hx
    obtain ⟨hne, hshown, hstands⟩ := fits_disjunction.1 hx
    have hshown := List.forall_mem_map.1 hshown
    exact fits_disjunction.2
      ⟨by simpa using hne, List.forall_mem_map.2 fun b hb => ih b hb (hshown b hb), hstands⟩
  · intro parent kind e ih hx
    obtain ⟨he, hstands⟩ := fits_group.1 hx
    exact fits_group.2 ⟨ih he, hstands⟩
  · intro parent e min max greedy ih hx
    obtain ⟨he, hbounds, hstands⟩ := fits_repetition.1 hx
    exact fits_repetition.2 ⟨ih he, hbounds, hstands⟩

/-! ### Classes in order -/

namespace ClassRanges

variable {ms : List Node}

theorem interval?_rereadMember (m : Node) : interval? (rereadMember m) = interval? m := by
  cases m <;> simp [rereadMember, interval?]

/-- A member read back spells the same code points, with the marks of the reader. -/
theorem spellings_rereadMember (m : Node) :
    spellings (rereadMember m) = (spellings m).map (Prod.map id (Token.reread true)) := by
  have hinterval := interval?_rereadMember m
  cases m with
  | char c =>
    rw [rereadMember] at hinterval ⊢
    simp only [spellings, hinterval]
    cases interval? (.char c) <;> rfl
  | classRange low high =>
    rw [rereadMember] at hinterval ⊢
    simp only [spellings, hinterval]
    cases interval? (.classRange low high) <;> rfl
  | _ => rfl

theorem lookup_map_snd {α : Type} (g : α → α) (known : List (Nat × α)) (x : Nat) :
    (known.map (Prod.map id g)).lookup x = (known.lookup x).map g := by
  induction known with
  | nil => rfl
  | cons p known ih =>
    obtain ⟨y, a⟩ := p
    rw [List.map_cons, Prod.map_apply, id, List.lookup_cons, List.lookup_cons, ih]
    split <;> rfl

/-- The spelling of a code point of the class is read back with it. -/
theorem spell_rereadMember {k : Node} {x : Nat} {c : PatternChar} (hk : k ∈ ms)
    (hc : (x, c) ∈ spellings k) :
    spell ((ms.map rereadMember).flatMap spellings) x =
      Token.reread true (spell (ms.flatMap spellings) x) := by
  have hknown : (ms.map rereadMember).flatMap spellings =
      (ms.flatMap spellings).map (Prod.map id (Token.reread true)) := by
    rw [List.flatMap_map, List.map_flatMap]
    exact List.flatMap_congr fun m _ => spellings_rereadMember m
  rw [spell, spell, hknown, lookup_map_snd]
  cases hlookup : (ms.flatMap spellings).lookup x with
  | none =>
    have habsent := List.lookup_eq_none_iff.1 hlookup (x, c) (List.mem_flatMap.2 ⟨k, hk, hc⟩)
    simp at habsent
  | some d => rfl

/-- Members read back are put in the same order. -/
theorem normalForm_rereadMember (ms : List Node) :
    normalForm (ms.map rereadMember) = (normalForm ms).map rereadMember := by
  have hothers : (ms.map rereadMember).filter (fun m => (interval? m).isNone) =
      (ms.filter fun m => (interval? m).isNone).map rereadMember := by
    rw [List.filter_map]
    simp only [Function.comp_def, interval?_rereadMember]
  have hintervals : (ms.map rereadMember).filterMap interval? = ms.filterMap interval? := by
    rw [List.filterMap_map]
    simp only [Function.comp_def, interval?_rereadMember]
  rw [normalForm, normalForm, hothers, hintervals, List.map_append, List.map_flatMap]
  congr 1
  refine List.flatMap_congr fun i hi => ?_
  obtain ⟨⟨k, hk, hlow⟩, ⟨l, hl, hhigh⟩, -⟩ := spell_ends hi
  rw [membersOf, membersOf, spell_rereadMember hk hlow, spell_rereadMember hl hhigh]
  split
  · rfl
  · split <;> rfl

theorem hasSurrogate_rereadMember (negated : Bool) (ms : List Node) :
    hasSurrogate (.charClass negated (ms.map rereadMember)) =
      hasSurrogate (.charClass negated ms) := by
  have hchar : ∀ c, isSurrogate (Token.reread true c) = isSurrogate c := fun c => by
    rw [isSurrogate, isSurrogate, Token.codePoint?_reread]
  rw [hasSurrogate, hasSurrogate, List.any_map]
  congr 1
  funext m
  cases m <;> simp [rereadMember, hchar]

/-- A class with nothing to put in order shows a class with nothing to put in order. -/
theorem rewrite_rereadMember {flags : Flags} {negated : Bool}
    (h : rewrite flags parent (.charClass negated ms) = none) :
    rewrite flags parent (.charClass negated (ms.map rereadMember)) = none := by
  unfold rewrite at h ⊢
  rw [hasSurrogate_rereadMember]
  split
  · rfl
  · rename_i hkept
    rw [if_neg hkept] at h
    have hform : normalForm ms = ms := by
      by_contra hform
      simp [normalized?, hform] at h
    simp [normalized?, normalForm_rereadMember, hform]

end ClassRanges

end Optimizer

end RegexKit
