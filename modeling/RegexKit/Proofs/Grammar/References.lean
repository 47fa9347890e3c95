import RegexKit.Proofs.Grammar.WellFormed
import RegexKit.Proofs.Node.Induction
import Mathlib.Data.List.Basic

/-! Entering the numbers of references. The reader holds a tree with the number 0 at every
reference and enters the numbers once all groups are known; this changes the references
and nothing else of the tree. -/

namespace RegexKit.Parser

open Node (yield yieldList yieldMore yieldBranches captures capturesList references referencesList
  groupDepth groupDepthList)

theorem fillNumbersList_eq_map (resolve : RefTarget → Nat) (ns : List Node) :
    fillNumbersList resolve ns = ns.map (fillNumbers resolve) := by
  induction ns with
  | nil => rfl
  | cons n ns ih => simp [fillNumbersList, ih]

/-- The tree as the reader holds it before all groups are known. -/
def unresolved (n : Node) : Node := fillNumbers (fun _ => 0) n

theorem fillNumbers_unresolved (resolve : RefTarget → Nat) (n : Node) :
    fillNumbers resolve (unresolved n) = fillNumbers resolve n := by
  unfold unresolved
  have hmap : ∀ ns : List Node,
      (∀ n ∈ ns, fillNumbers resolve (fillNumbers (fun _ => 0) n) = fillNumbers resolve n) →
      fillNumbersList resolve (fillNumbersList (fun _ => 0) ns) = fillNumbersList resolve ns :=
    fun ns h => by
      rw [fillNumbersList_eq_map, fillNumbersList_eq_map, fillNumbersList_eq_map, List.map_map]
      exact List.map_congr_left h
  induction n with
  | alternative es ih | disjunction es ih | charClass _ es ih => simp [fillNumbers, hmap es ih]
  | regExp _ _ ih | group _ _ ih | repetition _ _ _ _ ih => simp [fillNumbers, ih]
  | backreference _ _ | assertion _ | char _ | classRange _ _ => simp [fillNumbers]

/-- Resolving the references of a tree whose references carry the resolved numbers. -/
theorem fillNumbers_eq_self {resolve : RefTarget → Nat} {n : Node}
    (h : ∀ r ∈ n.references, resolve r.1 = r.2) : fillNumbers resolve n = n := by
  have hmap : ∀ ns : List Node,
      (∀ n ∈ ns, (∀ r ∈ n.references, resolve r.1 = r.2) → fillNumbers resolve n = n) →
      (∀ r ∈ Node.referencesList ns, resolve r.1 = r.2) → fillNumbersList resolve ns = ns := by
    intro ns
    induction ns with
    | nil => exact fun _ _ => rfl
    | cons m ms ih =>
      intro hns href
      simp only [Node.referencesList, List.mem_append] at href
      rw [fillNumbersList, hns m List.mem_cons_self fun r hr => href r (.inl hr),
        ih (fun k hk => hns k (List.mem_cons_of_mem _ hk)) fun r hr => href r (.inr hr)]
  induction n with
  | alternative es ih | disjunction es ih | charClass _ es ih =>
    simp only [fillNumbers, hmap es ih h]
  | regExp _ _ ih | group _ _ ih | repetition _ _ _ _ ih => simp only [fillNumbers, ih h]
  | backreference target number =>
    have := h (target, number) (by simp [Node.references])
    simp only [fillNumbers, this]
  | assertion _ | char _ | classRange _ _ => rfl

/-! ### What entering the numbers keeps -/

variable (resolve : RefTarget → Nat)

theorem yieldList_eq (ns : List Node) : yieldList ns = ns.flatMap yield := by
  induction ns with
  | nil => rfl
  | cons n ns ih => simp [yieldList, ih]

theorem yieldMore_eq (ns : List Node) : yieldMore ns = ns.flatMap fun n => .bar :: yield n := by
  induction ns with
  | nil => rfl
  | cons n ns ih => simp [yieldMore, ih]

theorem referencesList_eq (ns : List Node) : referencesList ns = ns.flatMap references := by
  induction ns with
  | nil => rfl
  | cons n ns ih => simp [referencesList, ih]

theorem yield_fillNumbers (n : Node) : (fillNumbers resolve n).yield = n.yield := by
  have hmap : ∀ ns : List Node, (∀ n ∈ ns, (fillNumbers resolve n).yield = n.yield) →
      yieldList (fillNumbersList resolve ns) = yieldList ns := fun ns h => by
    rw [fillNumbersList_eq_map, yieldList_eq, yieldList_eq, List.flatMap_map]
    exact List.flatMap_congr h
  induction n with
  | alternative es ih | charClass _ es ih => simp only [fillNumbers, yield, hmap es ih]
  | disjunction bs ih =>
    cases bs with
    | nil => rfl
    | cons b bs =>
      have hmore : yieldMore (bs.map (fillNumbers resolve)) = yieldMore bs := by
        rw [yieldMore_eq, yieldMore_eq, List.flatMap_map]
        exact List.flatMap_congr fun n hn => by rw [ih n (List.mem_cons_of_mem _ hn)]
      simp only [fillNumbers, fillNumbersList_eq_map, yield, List.map_cons, yieldBranches, hmore,
        ih b List.mem_cons_self]
  | regExp _ _ ih | group _ _ ih | repetition _ _ _ _ ih => simp only [fillNumbers, yield, ih]
  | backreference _ _ | assertion _ | char _ | classRange _ _ => rfl

theorem captures_fillNumbers (n : Node) : (fillNumbers resolve n).captures = n.captures := by
  have hmap : ∀ ns : List Node, (∀ n ∈ ns, (fillNumbers resolve n).captures = n.captures) →
      capturesList (fillNumbersList resolve ns) = capturesList ns := fun ns h => by
    rw [fillNumbersList_eq_map, Node.capturesList_eq, Node.capturesList_eq, List.flatMap_map]
    exact List.flatMap_congr h
  induction n with
  | alternative es ih | disjunction es ih | charClass _ es ih =>
    simp only [fillNumbers, captures, hmap es ih]
  | group kind _ ih => cases kind <;> simp only [fillNumbers, captures, ih]
  | regExp _ _ ih | repetition _ _ _ _ ih => simp only [fillNumbers, captures, ih]
  | backreference _ _ | assertion _ | char _ | classRange _ _ => rfl

theorem groupDepth_fillNumbers (n : Node) : (fillNumbers resolve n).groupDepth = n.groupDepth := by
  have hmap : ∀ ns : List Node, (∀ n ∈ ns, (fillNumbers resolve n).groupDepth = n.groupDepth) →
      groupDepthList (fillNumbersList resolve ns) = groupDepthList ns := by
    intro ns
    induction ns with
    | nil => exact fun _ => rfl
    | cons m ms ih =>
      intro h
      rw [fillNumbersList, groupDepthList, groupDepthList, h m List.mem_cons_self,
        ih fun k hk => h k (List.mem_cons_of_mem _ hk)]
  induction n with
  | alternative es ih | disjunction es ih | charClass _ es ih =>
    simp only [fillNumbers, groupDepth, hmap es ih]
  | regExp _ _ ih | group _ _ ih | repetition _ _ _ _ ih => simp only [fillNumbers, groupDepth, ih]
  | backreference _ _ | assertion _ | char _ | classRange _ _ => rfl

/-- The references afterwards carry the numbers entered. -/
theorem references_fillNumbers (n : Node) :
    (fillNumbers resolve n).references = n.references.map fun r => (r.1, resolve r.1) := by
  have hmap : ∀ ns : List Node,
      (∀ n ∈ ns, (fillNumbers resolve n).references =
        n.references.map fun r => (r.1, resolve r.1)) →
      referencesList (fillNumbersList resolve ns) =
        (referencesList ns).map fun r => (r.1, resolve r.1) := fun ns h => by
    rw [fillNumbersList_eq_map, referencesList_eq, referencesList_eq, List.flatMap_map,
      List.map_flatMap]
    exact List.flatMap_congr h
  induction n with
  | alternative es ih | disjunction es ih | charClass _ es ih =>
    simp only [fillNumbers, references, hmap es ih]
  | regExp _ _ ih | group _ _ ih | repetition _ _ _ _ ih => simp only [fillNumbers, references, ih]
  | backreference _ _ | assertion _ | char _ | classRange _ _ => rfl

/-- Members of a class hold neither groups nor references. -/
theorem flat_of_classReads {ms : List Node} (h : Node.classReads ms = true) :
    capturesList ms = [] ∧ referencesList ms = [] ∧ groupDepthList ms = 0 := by
  induction ms with
  | nil => exact ⟨rfl, rfl, rfl⟩
  | cons m ms ih =>
    cases m with
    | char _ | classRange _ _ =>
      simp only [Node.classReads, Bool.and_eq_true] at h
      obtain ⟨hcaps, hrefs, hdepth⟩ := ih h.2
      simp [capturesList, captures, referencesList, references, groupDepthList, groupDepth, hcaps,
        hrefs, hdepth]
    | _ => simp [Node.classReads] at h

theorem fillNumbersList_of_classReads {ms : List Node} (h : Node.classReads ms = true) :
    fillNumbersList resolve ms = ms := by
  induction ms with
  | nil => rfl
  | cons m ms ih =>
    cases m with
    | char _ | classRange _ _ =>
      simp only [Node.classReads, Bool.and_eq_true] at h
      rw [fillNumbersList, fillNumbers, ih h.2]
    | _ => simp [Node.classReads] at h

theorem isRepeatable_fillNumbers (n : Node) :
    (fillNumbers resolve n).isRepeatable = n.isRepeatable := by cases n <;> rfl

theorem isSequence_fillNumbers (n : Node) :
    (fillNumbers resolve n).isSequence = n.isSequence := by cases n <;> rfl

theorem isChoice_fillNumbers (n : Node) : (fillNumbers resolve n).isChoice = n.isChoice := by
  cases n <;> rfl

theorem grammatical_fillNumbers {n : Node} (h : n.grammatical = true) :
    (fillNumbers resolve n).grammatical = true := by
  induction n with
  | alternative es ih =>
    simp only [Node.grammatical, Bool.and_eq_true, Node.grammaticalParts_eq, List.all_eq_true] at h
    simp only [fillNumbers, fillNumbersList_eq_map, Node.grammatical, Bool.and_eq_true,
      List.length_map, h.1, Node.grammaticalParts_eq, List.all_map, List.all_eq_true, true_and]
    intro e he
    have hpart := h.2 e he
    simp only [Node.isPart, Bool.and_eq_true] at hpart
    simp [Node.isPart, ih e he hpart.1.1, isSequence_fillNumbers, isChoice_fillNumbers, hpart]
  | disjunction bs ih =>
    simp only [Node.grammatical, Bool.and_eq_true, Node.grammaticalBranches_eq,
      List.all_eq_true] at h
    simp only [fillNumbers, fillNumbersList_eq_map, Node.grammatical, Bool.and_eq_true,
      List.length_map, h.1, Node.grammaticalBranches_eq, List.all_map, List.all_eq_true, true_and]
    intro b hb
    have hbranch := h.2 b hb
    simp only [Node.isBranch, Bool.and_eq_true] at hbranch
    simp [Node.isBranch, ih b hb hbranch.1, isChoice_fillNumbers, hbranch]
  | charClass _ ms _ =>
    simp only [Node.grammatical] at h
    simp only [fillNumbers, Node.grammatical, fillNumbersList_of_classReads resolve h, h]
  | group _ _ ih => exact ih h
  | repetition _ _ _ _ ih =>
    simp only [Node.grammatical, Bool.and_eq_true] at h
    simp [fillNumbers, Node.grammatical, ih h.1.1, isRepeatable_fillNumbers, h]
  | regExp _ _ _ => simp [Node.grammatical] at h
  | backreference _ _ | assertion _ | char _ | classRange _ _ => exact h

end RegexKit.Parser
