import RegexKit.Proofs.Printing.Splits
import Mathlib.Data.List.Forall2

/-! Trees numbered as the reader numbers them. No number of a group is printed, and a choice of
nothing is printed like a choice of the empty sequence, so a tree has the text of the tree whose
groups are numbered in the order in which they open and whose choices all have a branch. -/

namespace RegexKit.Node

open RegexKit.Token

/-! ### Numbering -/

/-- The empty sequence in place of no branch. -/
def atLeastOne : List Node → List Node
  | [] => [empty]
  | bs => bs

mutual

/-- The tree with its capturing groups numbered from `k + 1` on in the order in which they open, and
with a branch in every choice. -/
def numbered (k : Nat) : Node → Node
  | regExp b flags => regExp (numbered k b) flags
  | alternative es => alternative (numberedAll k es)
  | disjunction bs => disjunction (atLeastOne (numberedAll k bs))
  | group (.capturing _ name) e => group (.capturing (k + 1) name) (numbered (k + 1) e)
  | group kind e => group kind (numbered k e)
  | repetition e min max greedy => repetition (numbered k e) min max greedy
  | n => n

def numberedAll (k : Nat) : List Node → List Node
  | [] => []
  | n :: ns => numbered k n :: numberedAll (k + n.captures.length) ns

end

variable {n : Node} {ns ms : List Node}

/-- What relates every node of a list to the node numbered from anywhere relates the list to the
numbered list. -/
theorem forall₂_numberedAll {R : Node → Node → Prop} (h : ∀ n ∈ ns, ∀ k, R n (numbered k n))
    (k : Nat) : List.Forall₂ R ns (numberedAll k ns) := by
  induction ns generalizing k with
  | nil => exact .nil
  | cons n ns ih =>
    exact .cons (h n List.mem_cons_self k)
      (ih (fun m hm => h m (List.mem_cons_of_mem _ hm)) _)

/-- The node of a numbered list is a node of the list, numbered. -/
theorem exists_of_mem_numberedAll {c : Node} {k : Nat} (hc : c ∈ numberedAll k ns) :
    ∃ n ∈ ns, ∃ j, c = numbered j n := by
  induction ns generalizing k with
  | nil => cases hc
  | cons n ns ih =>
    rcases List.mem_cons.1 hc with rfl | hc
    · exact ⟨n, List.mem_cons_self, k, rfl⟩
    · obtain ⟨m, hm, hj⟩ := ih hc
      exact ⟨m, List.mem_cons_of_mem _ hm, hj⟩

/-- A group keeps its kind but for the number. -/
theorem numbered_group (k : Nat) (kind : GroupKind) (e : Node) :
    ∃ kind' j, numbered k (group kind e) = group kind' (numbered j e) ∧
      kind'.opening = kind.opening ∧ kind'.isLookbehind = kind.isLookbehind := by
  cases kind with
  | capturing number name => exact ⟨_, _, rfl, by cases name <;> rfl, rfl⟩
  | _ => exact ⟨_, _, rfl, rfl, rfl⟩

/-! ### The same text -/

/-- The second node is printed like the first one wherever it stands. -/
structure PrintsAs (n m : Node) : Prop where
  text : m.text = n.text
  isChoice : m.isChoice = n.isChoice
  isAtom : m.isAtom = n.isAtom
  endsOpen : m.endsOpen = n.endsOpen
  printsNothing : m.printsNothing = n.printsNothing

theorem PrintsAs.refl (n : Node) : PrintsAs n n := ⟨rfl, rfl, rfl, rfl, rfl⟩

theorem texts_of_printsAs (h : List.Forall₂ PrintsAs ns ms) : texts ms = texts ns := by
  induction h with
  | nil => rfl
  | cons hn _ ih => rw [texts, texts, hn.text, ih]

theorem pieces_of_printsAs (h : List.Forall₂ PrintsAs ns ms) :
    List.zipWith piece ms (texts ms) = List.zipWith piece ns (texts ns) := by
  induction h with
  | nil => rfl
  | cons hn _ ih =>
    rw [texts, texts, List.zipWith_cons_cons, List.zipWith_cons_cons, ih, piece, piece, hn.text,
      hn.isChoice, hn.endsOpen]

theorem lastEndsOpen_of_printsAs (h : List.Forall₂ PrintsAs ns ms) :
    allPrintNothing ms = allPrintNothing ns ∧ lastEndsOpen ms = lastEndsOpen ns := by
  induction h with
  | nil => exact ⟨rfl, rfl⟩
  | cons hn _ ih =>
    rw [allPrintNothing, allPrintNothing, lastEndsOpen, lastEndsOpen, hn.printsNothing,
      hn.endsOpen, ih.1, ih.2]
    exact ⟨rfl, rfl⟩

theorem text_atLeastOne (bs : List Node) :
    (disjunction (atLeastOne bs)).text = (disjunction bs).text := by
  cases bs <;> rfl

/-- Numbers are not printed. -/
theorem printsAs_numbered (k : Nat) (n : Node) : PrintsAs n (numbered k n) := by
  induction n generalizing k with
  | regExp b flags ih => exact ⟨(ih k).text, rfl, rfl, rfl, rfl⟩
  | alternative es ih =>
    have hes := forall₂_numberedAll ih k
    obtain ⟨hnothing, hopen⟩ := lastEndsOpen_of_printsAs hes
    exact ⟨congrArg joinSequence (pieces_of_printsAs hes), rfl, rfl, hopen, hnothing⟩
  | disjunction bs ih =>
    have htexts := texts_of_printsAs (forall₂_numberedAll ih k)
    refine ⟨?_, rfl, rfl, rfl, rfl⟩
    rw [numbered, text_atLeastOne, text, text, htexts]
  | group kind e ih =>
    obtain ⟨kind', j, hgroup, hopening, -⟩ := numbered_group k kind e
    rw [hgroup]
    exact ⟨by rw [text, text, (ih j).text, hopening], rfl, rfl, rfl, rfl⟩
  | repetition e min max greedy ih =>
    refine ⟨?_, rfl, rfl, rfl, rfl⟩
    rw [numbered, text, text, (ih k).text, (ih k).isAtom]
  | backreference _ _ | assertion _ | char _ | charClass _ _ _ | classRange _ _ => exact .refl _

/-! ### What holds at every node -/

theorem forall_mem_of_forall₂ {Q : Node → Prop}
    (h : List.Forall₂ (fun n m => Q m ↔ Q n) ns ms) : (∀ m ∈ ms, Q m) ↔ ∀ n ∈ ns, Q n := by
  induction h with
  | nil => exact Iff.rfl
  | cons hn _ ih => rw [List.forall_mem_cons, List.forall_mem_cons, hn, ih]

variable {P : Node → Prop}

/-- Two nodes that agree, and whose children do so everywhere, agree everywhere. -/
theorem forall_preorder_congr {m : Node} (hnode : P m ↔ P n)
    (hbelow : (∀ c ∈ m.children, ∀ k ∈ c.preorder, P k) ↔
      ∀ c ∈ n.children, ∀ k ∈ c.preorder, P k) :
    (∀ k ∈ m.preorder, P k) ↔ ∀ k ∈ n.preorder, P k := by
  rw [forall_preorder_iff, hnode, hbelow, ← forall_preorder_iff]

/-- What numbering does not change of a single node holds at every node of the numbered tree when it
does at every node of the tree. -/
theorem forall_preorder_numbered (hP : ∀ n k, P (numbered k n) ↔ P n) (hempty : P empty) (k : Nat)
    (n : Node) : (∀ m ∈ (numbered k n).preorder, P m) ↔ ∀ m ∈ n.preorder, P m := by
  induction n generalizing k with
  | regExp b flags ih =>
    exact forall_preorder_congr (hP _ k) (forall_mem_of_forall₂ (.cons (ih k) .nil))
  | alternative es ih =>
    exact forall_preorder_congr (hP _ k) (forall_mem_of_forall₂ (forall₂_numberedAll ih k))
  | disjunction bs ih =>
    have hbs : ∀ cs : List Node, (∀ c ∈ atLeastOne cs, ∀ m ∈ c.preorder, P m) ↔
        ∀ c ∈ cs, ∀ m ∈ c.preorder, P m := fun cs => by
      cases cs with
      | nil => simpa [atLeastOne, preorder, preorderList, empty] using hempty
      | cons c cs => exact Iff.rfl
    exact forall_preorder_congr (hP _ k)
      ((hbs _).trans (forall_mem_of_forall₂ (forall₂_numberedAll ih k)))
  | group kind e ih =>
    have hnode := hP (group kind e) k
    obtain ⟨kind', j, hgroup, -⟩ := numbered_group k kind e
    rw [hgroup] at hnode ⊢
    exact forall_preorder_congr hnode (forall_mem_of_forall₂ (.cons (ih j) .nil))
  | repetition e min max greedy ih =>
    exact forall_preorder_congr (hP _ k) (forall_mem_of_forall₂ (.cons (ih k) .nil))
  | backreference _ _ | assertion _ | char _ | charClass _ _ _ | classRange _ _ => exact Iff.rfl

/-! ### Composed trees -/

mutual

/-- Trees without references, as lexed ones are but for choices, which may have no branch, and for
repetitions, which may be over anything. -/
def Composed : Node → Prop
  | regExp _ _ | backreference _ _ | classRange _ _ => False
  | alternative ns | disjunction ns => ComposedAll ns
  | group _ e => Composed e
  | assertion _ => True
  | char c => Lexical false c
  | charClass _ ms => ∀ m ∈ ms, LexedMember m
  | repetition e min max _ => Composed e ∧ inOrder min max = true ∧
      min ≤ Numeral.max32 ∧ max.all (· ≤ Numeral.max32) = true

def ComposedAll : List Node → Prop
  | [] => True
  | n :: ns => Composed n ∧ ComposedAll ns

end

theorem composedAll_iff : ComposedAll ns ↔ ∀ n ∈ ns, n.Composed := by
  induction ns with
  | nil => simp [ComposedAll]
  | cons n ns ih => simp [ComposedAll, ih]

/-- What holds of each numbered node of a composed list holds of the nodes of the numbered list. -/
theorem ComposedAll.forall_mem_numberedAll {Q : Node → Prop} (hns : ComposedAll ns)
    (h : ∀ n ∈ ns, n.Composed → ∀ k, Q (numbered k n)) (k : Nat) :
    ∀ m ∈ numberedAll k ns, Q m := by
  intro m hm
  obtain ⟨n, hn, j, rfl⟩ := exists_of_mem_numberedAll hm
  exact h n hn (composedAll_iff.1 hns n hn) j

theorem worded_atLeastOne {bs : List Node} (hbs : ∀ b ∈ bs, b.Worded) :
    (disjunction (atLeastOne bs)).Worded := by
  cases bs with
  | nil => exact ⟨by simp [atLeastOne], trivial, trivial⟩
  | cons b bs => exact ⟨by simp [atLeastOne], wordedAll_iff.2 hbs⟩

theorem Composed.worded_numbered (hn : n.Composed) (k : Nat) : (numbered k n).Worded := by
  induction n generalizing k with
  | regExp _ _ _ | backreference _ _ | classRange _ _ => cases hn
  | alternative es ih => exact wordedAll_iff.2 (hn.forall_mem_numberedAll ih k)
  | disjunction bs ih => exact worded_atLeastOne (hn.forall_mem_numberedAll ih k)
  | group kind e ih =>
    obtain ⟨kind', j, hgroup, -⟩ := numbered_group k kind e
    rw [hgroup]
    exact ih hn j
  | assertion _ => exact trivial
  | char _ | charClass _ _ _ => exact hn
  | repetition e min max greedy ih => exact ⟨ih hn.1 k, hn.2⟩

/-! ### Groups and references -/

/-- Groups numbered from `k + 1` on, with their names. -/
def renumber (k : Nat) : List (Nat × Option Text) → List (Nat × Option Text)
  | [] => []
  | g :: gs => (k + 1, g.2) :: renumber (k + 1) gs

variable {k : Nat} {gs hs : List (Nat × Option Text)}

theorem renumber_append :
    renumber k (gs ++ hs) = renumber k gs ++ renumber (k + gs.length) hs := by
  induction gs generalizing k with
  | nil => rfl
  | cons g gs ih =>
    rw [List.cons_append, renumber, renumber, ih, List.length_cons, Nat.add_right_comm]
    rfl

theorem map_fst_renumber : (renumber k gs).map Prod.fst = List.range' (k + 1) gs.length := by
  induction gs generalizing k with
  | nil => rfl
  | cons g gs ih => rw [renumber, List.map_cons, ih, List.length_cons, List.range'_succ]

theorem length_renumber : (renumber k gs).length = gs.length := by
  rw [← List.length_map Prod.fst, map_fst_renumber, List.length_range']

/-- Numbering keeps the names of groups. -/
theorem names_renumber :
    (groupNames (renumber k gs)).map Prod.fst = (groupNames gs).map Prod.fst := by
  induction gs generalizing k with
  | nil => rfl
  | cons g gs ih =>
    obtain ⟨number, name⟩ := g
    cases name with
    | none => exact ih
    | some name => exact congrArg (name :: ·) ih

theorem capturesList_atLeastOne (bs : List Node) :
    capturesList (atLeastOne bs) = capturesList bs := by
  cases bs <;> rfl

theorem LexedMember.captures_eq {m : Node} (hm : m.LexedMember) : m.captures = [] := by
  cases m <;> first | rfl | cases hm

/-- The groups of the numbered tree are those of the tree, numbered in the order in which they
open. -/
theorem Composed.captures_numbered (hn : n.Composed) (k : Nat) :
    (numbered k n).captures = renumber k n.captures := by
  have hall : ∀ {ns : List Node},
      (∀ n ∈ ns, n.Composed → ∀ k, (numbered k n).captures = renumber k n.captures) →
        ComposedAll ns → ∀ k, capturesList (numberedAll k ns) = renumber k (capturesList ns) := by
    intro ns ih
    induction ns with
    | nil => exact fun _ _ => rfl
    | cons n ns ihns =>
      intro hns k
      rw [numberedAll, capturesList, capturesList, renumber_append, ih n List.mem_cons_self hns.1,
        ihns (fun m hm => ih m (List.mem_cons_of_mem _ hm)) hns.2]
  induction n generalizing k with
  | regExp _ _ _ | backreference _ _ | classRange _ _ => cases hn
  | alternative es ih => exact hall ih hn k
  | disjunction bs ih => exact (capturesList_atLeastOne _).trans (hall ih hn k)
  | group kind e ih =>
    cases kind with
    | capturing number name => exact congrArg (_ :: ·) (ih hn (k + 1))
    | _ => exact ih hn k
  | assertion _ | char _ => rfl
  | charClass negated ms _ =>
    have hnone : capturesList ms = [] := by
      rw [capturesList_eq, List.flatMap_eq_nil_iff]
      exact fun m hm => (hn m hm).captures_eq
    have hsame : (numbered k (charClass negated ms)).captures = capturesList ms := rfl
    rw [hsame, captures, hnone]
    rfl
  | repetition e min max greedy ih => exact ih hn.1 k

/-- Composed trees have no references, however they are numbered. -/
theorem Composed.references_numbered (hn : n.Composed) (k : Nat) :
    (numbered k n).references = [] := by
  have hall : ∀ {ms : List Node}, (∀ m ∈ ms, m.references = []) → referencesList ms = [] :=
    fun hms => by rwa [Parser.referencesList_eq, List.flatMap_eq_nil_iff]
  induction n generalizing k with
  | regExp _ _ _ | backreference _ _ | classRange _ _ => cases hn
  | alternative es ih => exact hall (hn.forall_mem_numberedAll ih k)
  | disjunction bs ih =>
    have hbs : ∀ cs : List Node, referencesList (atLeastOne cs) = referencesList cs := fun cs => by
      cases cs <;> rfl
    exact (hbs _).trans (hall (hn.forall_mem_numberedAll ih k))
  | group kind e ih =>
    obtain ⟨kind', j, hgroup, -⟩ := numbered_group k kind e
    rw [hgroup]
    exact ih hn j
  | assertion _ | char _ => rfl
  | charClass negated ms _ =>
    have hnone : referencesList ms = [] := hall fun m hm => by
      have hmember := hn m hm
      cases m <;> first | rfl | cases hmember
    exact hnone
  | repetition e min max greedy ih => exact ih hn.1 k

end RegexKit.Node
