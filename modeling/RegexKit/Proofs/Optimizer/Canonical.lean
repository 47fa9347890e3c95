import Mathlib.Data.List.Basic
import RegexKit.Proofs.Optimizer.ClassMembers

/-! The order of a class is a normal form: a class in order is left as it is. Coalescing leaves
intervals with gaps between them, which coalescing gives back, also when two neighbouring code
points are listed one by one; and the spelling chosen for a code point is the only one that
is left for it. -/

namespace RegexKit

namespace Interval

/-! ### Intervals with gaps between them -/

/-- Each interval ends more than one before any later one begins. -/
def Separated (is : List Interval) : Prop := is.Pairwise fun i j => i.high + 1 < j.low

theorem low_le_of_mem_coalesceFrom {i : Interval} {is : List Interval}
    (h : (i :: is).Pairwise fun a b => a.low ≤ b.low) : ∀ j ∈ coalesceFrom i is, i.low ≤ j.low := by
  induction is generalizing i with
  | nil => simp [coalesceFrom]
  | cons k ks ih =>
    obtain ⟨hi, hks⟩ := List.pairwise_cons.1 h
    rw [coalesceFrom]
    split
    · exact ih (List.pairwise_cons.2
        ⟨fun j hj => hi j (List.mem_cons_of_mem _ hj), (List.pairwise_cons.1 hks).2⟩)
    · exact List.forall_mem_cons.2 ⟨Nat.le_refl _, fun j hj =>
        Nat.le_trans (hi k List.mem_cons_self) (ih hks j hj)⟩

/-- Intervals in the order of their lower ends are left with gaps between them. -/
theorem separated_coalesceFrom {i : Interval} {is : List Interval}
    (h : (i :: is).Pairwise fun a b => a.low ≤ b.low) : Separated (coalesceFrom i is) := by
  induction is generalizing i with
  | nil => exact List.pairwise_singleton _ _
  | cons k ks ih =>
    obtain ⟨hi, hks⟩ := List.pairwise_cons.1 h
    rw [coalesceFrom]
    split
    · exact ih (List.pairwise_cons.2
        ⟨fun j hj => hi j (List.mem_cons_of_mem _ hj), (List.pairwise_cons.1 hks).2⟩)
    · rename_i hgap
      refine List.pairwise_cons.2 ⟨fun j hj => ?_, ih hks⟩
      have := low_le_of_mem_coalesceFrom hks j hj
      omega

theorem separated_coalesce (is : List Interval) : Separated (coalesce is) := by
  have hsorted := pairwise_sort is
  unfold coalesce
  cases hs : sort is with
  | nil => exact List.Pairwise.nil
  | cons i js => exact separated_coalesceFrom (hs ▸ hsorted)

/-- Joins intervals that are in order. -/
def joined : List Interval → List Interval
  | [] => []
  | i :: is => coalesceFrom i is

theorem coalesce_eq_joined (is : List Interval) : coalesce is = joined (sort is) := by
  unfold coalesce
  cases sort is <;> rfl

/-- An interval with a gap behind it is not extended. -/
theorem coalesceFrom_of_gap {i : Interval} {is : List Interval} (h : ∀ j ∈ is, i.high + 1 < j.low) :
    coalesceFrom i is = i :: joined is := by
  cases is with
  | nil => rfl
  | cons j js =>
    have hj := h j List.mem_cons_self
    rw [coalesceFrom, if_neg (by omega), joined]

/-! ### Single code points -/

/-- An interval of two code points as two of one. -/
def pieces (i : Interval) : List Interval :=
  if i.high = i.low + 1 then [⟨i.low, i.low⟩, ⟨i.high, i.high⟩] else [i]

theorem low_le_of_mem_pieces {i j : Interval} (h : j ∈ i.pieces) : i.low ≤ j.low := by
  unfold pieces at h
  split at h
  · rcases List.mem_cons.1 h with rfl | h
    · exact Nat.le_refl _
    · obtain rfl := List.mem_singleton.1 h
      simp only
      omega
  · obtain rfl := List.mem_singleton.1 h
    exact Nat.le_refl _

/-- Joining puts the pieces of separated intervals together again. -/
theorem joined_pieces {is : List Interval} (h : Separated is) :
    joined (is.flatMap pieces) = is := by
  induction is with
  | nil => rfl
  | cons i is ih =>
    obtain ⟨hi, his⟩ := List.pairwise_cons.1 h
    have hgap : ∀ j ∈ is.flatMap pieces, i.high + 1 < j.low := by
      intro j hj
      obtain ⟨k, hk, hj⟩ := List.mem_flatMap.1 hj
      exact Nat.lt_of_lt_of_le (hi k hk) (low_le_of_mem_pieces hj)
    have hrest : coalesceFrom i (is.flatMap pieces) = i :: is := by
      rw [coalesceFrom_of_gap hgap, ih his]
    rw [List.flatMap_cons, pieces]
    split
    · rename_i htwo
      have hjoin : (⟨i.low, max i.low i.high⟩ : Interval) = i := by
        rw [Nat.max_eq_right (by omega)]
      rw [List.cons_append, List.cons_append, List.nil_append, joined, coalesceFrom,
        if_pos (by simp only; omega), hjoin, hrest]
    · exact hrest

theorem sort_eq_self {is : List Interval} (h : is.Pairwise fun i j => i.low < j.low) :
    sort is = is :=
  List.mergeSort_of_pairwise (h.imp fun hij => by simp [le, hij])

theorem ends_of_mem_pieces {i j : Interval} (hle : i.low ≤ i.high) (h : j ∈ i.pieces) :
    j.low ≤ j.high ∧ j.high ≤ i.high := by
  unfold pieces at h
  split at h
  · rcases List.mem_cons.1 h with rfl | h
    · exact ⟨Nat.le_refl _, hle⟩
    · obtain rfl := List.mem_singleton.1 h
      exact ⟨Nat.le_refl _, Nat.le_refl _⟩
  · obtain rfl := List.mem_singleton.1 h
    exact ⟨hle, Nat.le_refl _⟩

/-- The pieces of separated intervals are in order. -/
theorem pairwise_pieces {is : List Interval} (h : Separated is) (hle : ∀ i ∈ is, i.low ≤ i.high) :
    (is.flatMap pieces).Pairwise fun i j => i.high < j.low := by
  induction is with
  | nil => exact List.Pairwise.nil
  | cons i is ih =>
    obtain ⟨hi, his⟩ := List.pairwise_cons.1 h
    rw [List.flatMap_cons, List.pairwise_append]
    refine ⟨?_, ih his fun j hj => hle j (List.mem_cons_of_mem _ hj), fun a ha b hb => ?_⟩
    · unfold pieces
      split
      · exact List.pairwise_pair.2 (by simp only; omega)
      · exact List.pairwise_singleton _ _
    · obtain ⟨k, hk, hb⟩ := List.mem_flatMap.1 hb
      have hb := low_le_of_mem_pieces hb
      have hgap := hi k hk
      obtain ⟨-, ha⟩ := ends_of_mem_pieces (hle i List.mem_cons_self) ha
      omega

/-- Coalescing gives separated intervals back from their pieces. -/
theorem coalesce_pieces {is : List Interval} (h : Separated is) (hle : ∀ i ∈ is, i.low ≤ i.high) :
    coalesce (is.flatMap pieces) = is := by
  have hlow : (is.flatMap pieces).Pairwise fun i j => i.low < j.low := by
    refine (pairwise_pieces h hle).imp_of_mem fun {i j} hi _ hij => ?_
    obtain ⟨k, hk, hi⟩ := List.mem_flatMap.1 hi
    exact Nat.lt_of_le_of_lt (ends_of_mem_pieces (hle k hk) hi).1 hij
  rw [coalesce_eq_joined, sort_eq_self hlow, joined_pieces h]

end Interval

namespace Optimizer.ClassRanges

/-! ### Classes in order -/

variable {known : List (Nat × PatternChar)} {i : Interval} {ms : List Node}

/-- The spellings chosen for the ends of the interval denote them. -/
def SpellsEnds (known : List (Nat × PatternChar)) (i : Interval) : Prop :=
  (spell known i.low).codePoint? = some i.low ∧ (spell known i.high).codePoint? = some i.high ∧
    i.low ≤ i.high

theorem spellsEnds_of_mem (hi : i ∈ Interval.coalesce (ms.filterMap interval?)) :
    SpellsEnds (ms.flatMap spellings) i := by
  obtain ⟨⟨k, -, hk⟩, ⟨l, -, hl⟩, hle⟩ := spell_ends hi
  exact ⟨codePoint?_of_mem_spellings hk, codePoint?_of_mem_spellings hl, hle⟩

/-- The members written for an interval have its pieces. -/
theorem filterMap_membersOf (h : SpellsEnds known i) :
    (membersOf known i).filterMap interval? = i.pieces := by
  obtain ⟨hlow, hhigh, hle⟩ := h
  unfold membersOf Interval.pieces
  by_cases hone : i.high = i.low
  · have hi : (⟨i.low, i.low⟩ : Interval) = i := by
      rw [Interval.mk.injEq]
      exact ⟨rfl, hone.symm⟩
    rw [if_pos hone, if_neg (by omega)]
    simp [interval?, hlow, hi]
  · rw [if_neg hone]
    split
    · simp [interval?, hlow, hhigh]
    · simp [interval?, hlow, hhigh, hle]

theorem interval?_ne_none_of_mem {m : Node} (h : SpellsEnds known i)
    (hm : m ∈ membersOf known i) : interval? m ≠ none := by
  obtain ⟨hlow, hhigh, hle⟩ := h
  rcases mem_membersOf hm with rfl | rfl | rfl
  · simp [interval?, hlow]
  · simp [interval?, hhigh]
  · simp [interval?, hlow, hhigh, hle]

/-- The members written for an interval spell nothing but what was chosen. -/
theorem eq_spell_of_mem {m : Node} {x : Nat} {c : PatternChar} (h : SpellsEnds known i)
    (hm : m ∈ membersOf known i) (hc : (x, c) ∈ spellings m) : c = spell known x := by
  obtain ⟨hlow, hhigh, hle⟩ := h
  rcases mem_membersOf hm with rfl | rfl | rfl
  · simp only [spellings, interval?, hlow, Option.map_some, List.mem_singleton, Prod.mk.injEq] at hc
    rw [hc.1, hc.2]
  · simp only [spellings, interval?, hhigh, Option.map_some, List.mem_singleton,
      Prod.mk.injEq] at hc
    rw [hc.1, hc.2]
  · simp only [spellings, interval?, hlow, hhigh, hle, if_true, List.mem_cons, List.not_mem_nil,
      or_false, Prod.mk.injEq] at hc
    rcases hc with ⟨rfl, rfl⟩ | ⟨rfl, rfl⟩
    · rfl
    · rfl

/-- The members written for an interval spell both its ends. -/
theorem ends_mem_spellings (h : SpellsEnds known i) :
    (i.low, spell known i.low) ∈ (membersOf known i).flatMap spellings ∧
      (i.high, spell known i.high) ∈ (membersOf known i).flatMap spellings := by
  obtain ⟨hlow, hhigh, hle⟩ := h
  unfold membersOf
  by_cases hone : i.high = i.low
  · rw [if_pos hone, hone]
    simp [spellings, interval?, hlow]
  · rw [if_neg hone]
    split
    · simp [spellings, interval?, hlow, hhigh]
    · simp [spellings, interval?, hlow, hhigh, hle]

/-- The first entry for a code point is the chosen spelling when all its entries are. -/
theorem spell_eq_of_forall {known' : List (Nat × PatternChar)} {x : Nat} {c : PatternChar}
    (hall : ∀ p ∈ known', p.2 = spell known p.1) (hmem : (x, c) ∈ known') :
    spell known' x = spell known x := by
  cases hl : known'.lookup x with
  | none =>
    have := List.lookup_eq_none_iff.1 hl (x, c) hmem
    simp at this
  | some d =>
    obtain ⟨l₁, l₂, hsplit, -⟩ := List.lookup_eq_some_iff.1 hl
    have hd : d = spell known x := hall (x, d) (by rw [hsplit]; simp)
    rw [spell, hl, Option.getD_some, hd]

theorem spellings_of_interval?_eq_none {m : Node} (h : interval? m = none) : spellings m = [] := by
  cases m <;> simp [spellings, h]

/-! ### Members in order -/

section InOrder

variable {others : List Node} {is : List Interval}

/-- Members without intervals, then the members written for separated intervals. -/
structure InOrder (known : List (Nat × PatternChar)) (others : List Node) (is : List Interval) :
    Prop where
  others : ∀ m ∈ others, interval? m = none
  separated : Interval.Separated is
  ends : ∀ i ∈ is, SpellsEnds known i

theorem inOrder_normalForm (ms : List Node) :
    InOrder (ms.flatMap spellings) (ms.filter fun m => (interval? m).isNone)
      (Interval.coalesce (ms.filterMap interval?)) where
  others _ hm := Option.isNone_iff_eq_none.1 (List.mem_filter.1 hm).2
  separated := Interval.separated_coalesce _
  ends _ hi := spellsEnds_of_mem hi

theorem InOrder.filter (h : InOrder known others is) :
    (others ++ is.flatMap (membersOf known)).filter (fun m => (interval? m).isNone) = others := by
  have hmembers : ∀ m ∈ is.flatMap (membersOf known), interval? m ≠ none := by
    intro m hm
    obtain ⟨i, hi, hm⟩ := List.mem_flatMap.1 hm
    exact interval?_ne_none_of_mem (h.ends i hi) hm
  rw [List.filter_append, List.filter_eq_self.2 fun m hm => by simp [h.others m hm],
    List.filter_eq_nil_iff.2 fun m hm => by simp [hmembers m hm], List.append_nil]

theorem InOrder.coalesce (h : InOrder known others is) :
    Interval.coalesce ((others ++ is.flatMap (membersOf known)).filterMap interval?) = is := by
  have hpieces : (is.flatMap (membersOf known)).filterMap interval? =
      is.flatMap Interval.pieces := by
    rw [List.filterMap_flatMap]
    exact List.flatMap_congr fun i hi => filterMap_membersOf (h.ends i hi)
  rw [List.filterMap_append, List.filterMap_eq_nil_iff.2 h.others, List.nil_append, hpieces]
  exact Interval.coalesce_pieces h.separated fun i hi => (h.ends i hi).2.2

/-- The spellings chosen for the ends are those that are written. -/
theorem InOrder.membersOf (h : InOrder known others is) {i : Interval} (hi : i ∈ is) :
    membersOf ((others ++ is.flatMap (membersOf known)).flatMap spellings) i =
      membersOf known i := by
  have hspellings : (others ++ is.flatMap (ClassRanges.membersOf known)).flatMap spellings =
      (is.flatMap (ClassRanges.membersOf known)).flatMap spellings := by
    rw [List.flatMap_append, List.flatMap_eq_nil_iff.2 fun m hm =>
      spellings_of_interval?_eq_none (h.others m hm), List.nil_append]
  have hall : ∀ p ∈ (is.flatMap (ClassRanges.membersOf known)).flatMap spellings,
      p.2 = spell known p.1 := by
    rintro ⟨x, c⟩ hp
    obtain ⟨m, hm, hp⟩ := List.mem_flatMap.1 hp
    obtain ⟨j, hj, hm⟩ := List.mem_flatMap.1 hm
    exact eq_spell_of_mem (h.ends j hj) hm hp
  obtain ⟨hlow, hhigh⟩ := ends_mem_spellings (h.ends i hi)
  have hmem {p : Nat × PatternChar}
      (hp : p ∈ (ClassRanges.membersOf known i).flatMap spellings) :
      p ∈ (is.flatMap (ClassRanges.membersOf known)).flatMap spellings := by
    rw [List.flatMap_assoc]
    exact List.mem_flatMap.2 ⟨i, hi, hp⟩
  rw [hspellings, ClassRanges.membersOf, ClassRanges.membersOf,
    spell_eq_of_forall hall (hmem hlow), spell_eq_of_forall hall (hmem hhigh)]

/-- Members in order are left as they are. -/
theorem InOrder.normalForm (h : InOrder known others is) :
    normalForm (others ++ is.flatMap (ClassRanges.membersOf known)) =
      others ++ is.flatMap (ClassRanges.membersOf known) := by
  rw [ClassRanges.normalForm, h.filter, h.coalesce, List.flatMap_congr fun i hi => h.membersOf hi]

end InOrder

/-- Putting the members of a class in order a second time changes nothing. -/
theorem normalForm_normalForm (ms : List Node) : normalForm (normalForm ms) = normalForm ms :=
  (inOrder_normalForm ms).normalForm

end Optimizer.ClassRanges

end RegexKit
