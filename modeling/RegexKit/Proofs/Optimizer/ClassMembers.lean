import RegexKit.Match.Reading
import RegexKit.Optimizer.ClassRanges

/-! The members of a class in order. The intervals that remain after coalescing end where
intervals of the class ended, so each end has a spelling in the class, and the ordered
members accept the characters that the members as written accept. -/

namespace RegexKit

namespace Interval

/-! ### Ends of coalesced intervals -/

/-- Both ends of the interval are ends of intervals of the list. -/
def EndsIn (is : List Interval) (i : Interval) : Prop :=
  (∃ j ∈ is, j.low = i.low) ∧ (∃ j ∈ is, j.high = i.high) ∧ i.low ≤ i.high

theorem endsIn_coalesceFrom {all is : List Interval} {i : Interval} (hi : EndsIn all i)
    (his : ∀ j ∈ is, j ∈ all ∧ j.low ≤ j.high) :
    ∀ j ∈ coalesceFrom i is, EndsIn all j := by
  induction is generalizing i with
  | nil => simpa [coalesceFrom] using hi
  | cons k ks ih =>
    obtain ⟨hk, hle⟩ := his k List.mem_cons_self
    have hks : ∀ j ∈ ks, j ∈ all ∧ j.low ≤ j.high := fun j hj => his j (List.mem_cons_of_mem _ hj)
    rw [coalesceFrom]
    split
    · refine ih ⟨hi.1, ?_, ?_⟩ hks
      · rcases Nat.le_total i.high k.high with h | h
        · exact ⟨k, hk, by simp [Nat.max_eq_right h]⟩
        · simpa [Nat.max_eq_left h] using hi.2.1
      · exact Nat.le_trans hi.2.2 (Nat.le_max_left _ _)
    · intro j hj
      rcases List.mem_cons.1 hj with rfl | hj
      · exact hi
      · exact ih ⟨⟨k, hk, rfl⟩, ⟨k, hk, rfl⟩, hle⟩ hks j hj

/-- Coalescing makes no new ends. -/
theorem endsIn_coalesce {is : List Interval} (his : ∀ i ∈ is, i.low ≤ i.high) :
    ∀ i ∈ coalesce is, EndsIn is i := by
  have hmem : ∀ i, i ∈ sort is ↔ i ∈ is := fun i => (List.mergeSort_perm is le).mem_iff
  unfold coalesce
  cases hs : sort is with
  | nil => simp
  | cons k ks =>
    have hall : ∀ j ∈ k :: ks, j ∈ is ∧ j.low ≤ j.high := by
      intro j hj
      have : j ∈ is := (hmem j).1 (hs ▸ hj)
      exact ⟨this, his j this⟩
    obtain ⟨hk, hle⟩ := hall k List.mem_cons_self
    exact endsIn_coalesceFrom ⟨⟨k, hk, rfl⟩, ⟨k, hk, rfl⟩, hle⟩
      fun j hj => hall j (List.mem_cons_of_mem _ hj)

end Interval

namespace Optimizer.ClassRanges

/-! ### Spellings -/

theorem interval?_le {m : Node} {i : Interval} (h : interval? m = some i) : i.low ≤ i.high := by
  unfold interval? at h
  split at h
  · obtain ⟨n, -, rfl⟩ := Option.map_eq_some_iff.1 h
    exact Nat.le_refl _
  · split at h
    · split at h
      · cases h
        assumption
      · cases h
    · cases h
  · cases h

/-- Every spelling of a member denotes the code point that it is listed under. -/
theorem codePoint?_of_mem_spellings {m : Node} {n : Nat} {c : PatternChar}
    (h : (n, c) ∈ spellings m) : c.codePoint? = some n := by
  unfold spellings at h
  split at h
  · rename_i c' i hi
    obtain ⟨n', hc, rfl⟩ := Option.map_eq_some_iff.1 hi
    simp only [List.mem_singleton, Prod.mk.injEq] at h
    rw [h.2, h.1, hc]
  · rename_i low high i hi
    simp only [interval?] at hi
    split at hi
    · rename_i x y hx hy
      split at hi
      · cases hi
        simp only [List.mem_cons, List.not_mem_nil, or_false, Prod.mk.injEq] at h
        rcases h with ⟨rfl, rfl⟩ | ⟨rfl, rfl⟩
        · exact hx
        · exact hy
      · cases hi
    · cases hi
  · cases h

/-- Both ends of the interval of a member are spelled by it. -/
theorem exists_spelling {m : Node} {i : Interval} (h : interval? m = some i) :
    (∃ c, (i.low, c) ∈ spellings m) ∧ ∃ c, (i.high, c) ∈ spellings m := by
  cases m with
  | char c =>
    obtain ⟨n, hc, rfl⟩ := Option.map_eq_some_iff.1 (show c.codePoint?.map _ = some i from h)
    simp [spellings, interval?, hc]
  | classRange low high => simp [spellings, h]
  | _ => simp [interval?] at h

/-- A code point that some member spells is spelled by a character of the class. -/
theorem spell_mem {ms : List Node} {m : Node} {n : Nat} {c : PatternChar} (hm : m ∈ ms)
    (hc : (n, c) ∈ spellings m) :
    ∃ k ∈ ms, (n, spell (ms.flatMap spellings) n) ∈ spellings k := by
  cases hl : (ms.flatMap spellings).lookup n with
  | none =>
    have := List.lookup_eq_none_iff.1 hl (n, c) (List.mem_flatMap.2 ⟨m, hm, hc⟩)
    simp at this
  | some d =>
    obtain ⟨l₁, l₂, hsplit, -⟩ := List.lookup_eq_some_iff.1 hl
    have hd : (n, d) ∈ ms.flatMap spellings := by rw [hsplit]; simp
    simpa [spell, hl] using List.mem_flatMap.1 hd

/-- The ends of the intervals of the ordered class are spelled by characters of the class. -/
theorem spell_ends {ms : List Node} {i : Interval}
    (hi : i ∈ Interval.coalesce (ms.filterMap interval?)) :
    (∃ k ∈ ms, (i.low, spell (ms.flatMap spellings) i.low) ∈ spellings k) ∧
      (∃ k ∈ ms, (i.high, spell (ms.flatMap spellings) i.high) ∈ spellings k) ∧
      i.low ≤ i.high := by
  have hle : ∀ j ∈ ms.filterMap interval?, j.low ≤ j.high := by
    intro j hj
    obtain ⟨m, -, hm⟩ := List.mem_filterMap.1 hj
    exact interval?_le hm
  obtain ⟨⟨j, hj, hlow⟩, ⟨k, hk, hhigh⟩, hle'⟩ := Interval.endsIn_coalesce hle i hi
  obtain ⟨m, hm, hmj⟩ := List.mem_filterMap.1 hj
  obtain ⟨m', hm', hmk⟩ := List.mem_filterMap.1 hk
  obtain ⟨c, hc⟩ := (exists_spelling hmj).1
  obtain ⟨c', hc'⟩ := (exists_spelling hmk).2
  exact ⟨spell_mem hm (hlow ▸ hc), spell_mem hm' (hhigh ▸ hc'), hle'⟩

/-! ### What the members accept -/

variable (r : Reading)

/-- Members with an interval accept the characters of the interval. -/
theorem memberAccepts_eq_contains {m : Node} {i : Interval} (h : interval? m = some i)
    (c : Char) : r.memberAccepts m c = i.contains c.toNat := by
  cases m with
  | char p =>
    obtain ⟨n, hp, rfl⟩ := Option.map_eq_some_iff.1 (show p.codePoint?.map _ = some i from h)
    simp only [Reading.memberAccepts, Reading.charAccepts, hp, Interval.contains]
    rw [Bool.eq_iff_iff]
    simp only [beq_iff_eq, Bool.and_eq_true, decide_eq_true_eq]
    omega
  | classRange low high =>
    simp only [interval?] at h
    split at h
    · rename_i x y hx hy
      split at h
      · cases h
        simp [Reading.memberAccepts, hx, hy, Interval.contains]
      · cases h
    · cases h
  | _ => simp [interval?] at h

/-- The members of a class accept what those without an interval accept, and the intervals of
the others. -/
theorem any_memberAccepts (ms : List Node) (c : Char) :
    (ms.any fun m => r.memberAccepts m c) =
      (((ms.filter fun m => (interval? m).isNone).any fun m => r.memberAccepts m c) ||
        Interval.anyContains (ms.filterMap interval?) c.toNat) := by
  induction ms with
  | nil => rfl
  | cons m ms ih =>
    cases hm : interval? m with
    | none => simp [hm, ih, Bool.or_assoc]
    | some i =>
      have hrest : (m :: ms).filterMap interval? = i :: ms.filterMap interval? :=
        List.filterMap_cons_some hm
      rw [List.any_cons, ih, hrest, Interval.anyContains_cons, memberAccepts_eq_contains r hm,
        List.filter_cons_of_neg (by simp [hm]), Bool.or_left_comm]

/-- A member written for an interval is one of its ends, or the range between them. -/
theorem mem_membersOf {known : List (Nat × PatternChar)} {i : Interval} {m : Node}
    (hm : m ∈ membersOf known i) :
    m = .char (spell known i.low) ∨ m = .char (spell known i.high) ∨
      m = .classRange (spell known i.low) (spell known i.high) := by
  unfold membersOf at hm
  split at hm
  · exact .inl (List.mem_singleton.1 hm)
  · split at hm
    · rcases List.mem_cons.1 hm with hm | hm
      · exact .inl hm
      · exact .inr (.inl (List.mem_singleton.1 hm))
    · exact .inr (.inr (List.mem_singleton.1 hm))

/-- The members written for an interval accept its characters. -/
theorem any_membersOf {known : List (Nat × PatternChar)} {i : Interval}
    (hlow : (spell known i.low).codePoint? = some i.low)
    (hhigh : (spell known i.high).codePoint? = some i.high) (hle : i.low ≤ i.high) (c : Char) :
    ((membersOf known i).any fun m => r.memberAccepts m c) = i.contains c.toNat := by
  unfold membersOf
  split
  · rename_i h
    have hi : interval? (.char (spell known i.low)) = some i := by
      simp only [interval?, hlow, Option.map_some, Option.some.injEq]
      exact congrArg _ h.symm
    simp [memberAccepts_eq_contains r hi]
  · split
    · rename_i h
      simp only [List.any_cons, List.any_nil, Bool.or_false, Reading.memberAccepts,
        Reading.charAccepts, hlow, hhigh, Interval.contains]
      rw [Bool.eq_iff_iff]
      simp only [beq_iff_eq, Bool.or_eq_true, Bool.and_eq_true, decide_eq_true_eq]
      omega
    · have hi : interval? (.classRange (spell known i.low) (spell known i.high)) = some i := by
        simp [interval?, hlow, hhigh, hle]
      simp [memberAccepts_eq_contains r hi]

/-- Putting the members in order changes nothing in what they accept. -/
theorem any_normalForm (ms : List Node) (c : Char) :
    ((normalForm ms).any fun m => r.memberAccepts m c) =
      ms.any fun m => r.memberAccepts m c := by
  have hle : ∀ j ∈ ms.filterMap interval?, j.low ≤ j.high := by
    intro j hj
    obtain ⟨m, -, hm⟩ := List.mem_filterMap.1 hj
    exact interval?_le hm
  have hintervals : ∀ is : List Interval,
      (∀ i ∈ is, i ∈ Interval.coalesce (ms.filterMap interval?)) →
      (is.flatMap (membersOf (ms.flatMap spellings))).any (fun m => r.memberAccepts m c) =
        Interval.anyContains is c.toNat := by
    intro is
    induction is with
    | nil => intro _; rfl
    | cons i is ih =>
      intro his
      obtain ⟨⟨k, -, hk⟩, ⟨k', -, hk'⟩, hord⟩ := spell_ends (his i List.mem_cons_self)
      rw [List.flatMap_cons, List.any_append, Interval.anyContains_cons,
        any_membersOf r (codePoint?_of_mem_spellings hk) (codePoint?_of_mem_spellings hk') hord,
        ih fun j hj => his j (List.mem_cons_of_mem _ hj)]
  rw [normalForm, List.any_append, hintervals _ fun _ h => h, Interval.anyContains_coalesce hle,
    ← any_memberAccepts]

end Optimizer.ClassRanges

end RegexKit
