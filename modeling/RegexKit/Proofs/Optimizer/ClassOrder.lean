import RegexKit.Proofs.Host.Sets
import RegexKit.Proofs.Optimizer.Canonical
import Mathlib.Data.List.Pairwise

/-! What the order of a class is. The members with intervals become the maximal runs of the code
points that they cover, in increasing order: a run of one or two is written one by one, a longer one
as a range, and each character as it was first spelled by a member with an interval. The order is
found with the arithmetic of words, in which no number gets too large or negative. -/

namespace RegexKit

namespace Interval

variable {is : List Interval} {i j : Interval}

/-! ### Runs -/

/-- All numbers from `a` to `b` are in the set, and neither neighbour is. -/
structure IsRun (s : Nat → Bool) (a b : Nat) : Prop where
  le : a ≤ b
  inside : ∀ x, a ≤ x → x ≤ b → s x = true
  before : ∀ x, x + 1 = a → s x = false
  after : s (b + 1) = false

theorem contains_iff {x : Nat} : i.contains x = true ↔ i.low ≤ x ∧ x ≤ i.high := by
  simp [contains]

/-- Of two separated intervals one ends well before the other begins. -/
theorem Separated.apart (h : Separated is) (hi : i ∈ is) (hj : j ∈ is) (hne : i ≠ j) :
    i.high + 1 < j.low ∨ j.high + 1 < i.low := by
  have hsymm : Std.Symm fun i j : Interval => i.high + 1 < j.low ∨ j.high + 1 < i.low :=
    ⟨fun _ _ => Or.symm⟩
  have hpairs : is.Pairwise fun i j => i.high + 1 < j.low ∨ j.high + 1 < i.low :=
    h.imp fun hij => .inl hij
  exact hpairs.forall hi hj hne

/-- Separated intervals are the runs of the numbers that they hold. -/
theorem Separated.isRun (h : Separated is) (hi : i ∈ is) (hle : i.low ≤ i.high) :
    IsRun (anyContains is) i.low i.high := by
  have hout : ∀ {x}, i.low ≤ x + 1 → x ≤ i.high + 1 → i.contains x = false →
      anyContains is x = false := by
    intro x hlow hhigh hx
    refine List.any_eq_false.2 fun j hj hcontains => ?_
    by_cases hij : i = j
    · rw [← hij, hx] at hcontains
      cases hcontains
    · rw [contains_iff] at hcontains
      rcases h.apart hi hj hij with hgap | hgap <;> omega
  exact {
    le := hle
    inside := fun x hlow hhigh => List.any_eq_true.2 ⟨i, hi, contains_iff.2 ⟨hlow, hhigh⟩⟩
    before := fun x hx => hout (by omega) (by omega) (by simp [contains]; omega)
    after := hout (by omega) (by omega) (by simp [contains]) }

theorem anyContains_pieces (hle : ∀ i ∈ is, i.low ≤ i.high) (x : Nat) :
    anyContains (is.flatMap pieces) x = anyContains is x := by
  induction is with
  | nil => rfl
  | cons i is ih =>
    have hi := hle i List.mem_cons_self
    rw [List.flatMap_cons, anyContains_append, anyContains_cons,
      ih fun j hj => hle j (List.mem_cons_of_mem _ hj)]
    congr 1
    unfold pieces
    split
    · rw [Bool.eq_iff_iff]
      simp only [anyContains_cons, anyContains_nil, Bool.or_false, Bool.or_eq_true, contains_iff]
      omega
    · simp

/-! ### Words -/

/-- Joining in words: the number after the largest word is that word itself. -/
def coalesceWordsFrom (i : Interval) : List Interval → List Interval
  | [] => [i]
  | j :: js =>
    if j.low ≤ min (i.high + 1) Numeral.max32 then
      coalesceWordsFrom ⟨i.low, max i.high j.high⟩ js
    else i :: coalesceWordsFrom j js

def coalesceWords (is : List Interval) : List Interval :=
  match sort is with
  | [] => []
  | i :: is => coalesceWordsFrom i is

/-- The difference of the ends, unless it is negative. -/
def width? (i : Interval) : Option Nat :=
  if i.low ≤ i.high then some (i.high - i.low) else none

theorem coalesceWordsFrom_eq (h : ∀ j ∈ is, j.low ≤ Numeral.max32) :
    coalesceWordsFrom i is = coalesceFrom i is := by
  induction is generalizing i with
  | nil => rfl
  | cons j js ih =>
    have hjs : ∀ k ∈ js, k.low ≤ Numeral.max32 := fun k hk => h k (List.mem_cons_of_mem _ hk)
    have hj : j.low ≤ min (i.high + 1) Numeral.max32 ↔ j.low ≤ i.high + 1 := by
      rw [Nat.le_min]
      exact and_iff_left (h j List.mem_cons_self)
    rw [coalesceWordsFrom, coalesceFrom, ih hjs, ih hjs]
    exact if_congr hj rfl rfl

theorem coalesceWords_eq (h : ∀ i ∈ is, i.low ≤ Numeral.max32) :
    coalesceWords is = coalesce is := by
  have hsort : ∀ i ∈ sort is, i.low ≤ Numeral.max32 := fun i hi =>
    h i ((List.mergeSort_perm is le).mem_iff.1 hi)
  unfold coalesceWords coalesce
  cases hs : sort is with
  | nil => rfl
  | cons i js =>
    rw [hs] at hsort
    exact coalesceWordsFrom_eq fun j hj => hsort j (List.mem_cons_of_mem _ hj)

end Interval

namespace Optimizer.ClassRanges

open RegexKit.Interval

variable {known : List (Nat × PatternChar)} {ms : List Node} {m : Node} {i : Interval}

/-! ### The order of a class -/

/-- The code points of the members with intervals. -/
def covers (ms : List Node) (x : Nat) : Bool := anyContains (ms.filterMap interval?) x

/-- The characters that a member is written with. -/
def characters : Node → List PatternChar
  | .char c => [c]
  | .classRange low high => [low, high]
  | _ => []

/-- The character that spells the code point first, among the members. -/
def firstSpelling? (ms : List Node) (x : Nat) : Option PatternChar :=
  (ms.flatMap characters).find? fun c => c.codePoint? == some x

/-- The members with intervals. -/
def counted (ms : List Node) : List Node := ms.filter fun m => (interval? m).isSome

/-- The members that the members with intervals become: characters and ranges, increasing, that
cover the same code points. A character belongs to a run of one or two code points, a range is a run
of more, and all are spelled as they were first. -/
structure Runs (ms points : List Node) : Prop where
  intervals : ∀ m ∈ points, (interval? m).isSome
  covers : ∀ x, covers points x = covers ms x
  increasing : (points.filterMap interval?).Pairwise fun i j => i.high < j.low
  chars : ∀ c, .char c ∈ points → ∃ x a b, c.codePoint? = some x ∧
    firstSpelling? (counted ms) x = some c ∧ IsRun (ClassRanges.covers ms) a b ∧ b ≤ a + 1 ∧
    a ≤ x ∧ x ≤ b
  ranges : ∀ low high, .classRange low high ∈ points → ∃ a b, low.codePoint? = some a ∧
    high.codePoint? = some b ∧ firstSpelling? (counted ms) a = some low ∧
    firstSpelling? (counted ms) b = some high ∧ IsRun (ClassRanges.covers ms) a b ∧ a + 2 ≤ b

/-- The members without intervals as they were, and then the runs. -/
def IsOrder (ms ordered : List Node) : Prop :=
  ∃ points, ordered = ms.filter (fun m => (interval? m).isNone) ++ points ∧ Runs ms points

/-! ### Spellings -/

theorem map_snd_spellings (m : Node) :
    (spellings m).map Prod.snd = if (interval? m).isSome then characters m else [] := by
  cases hi : interval? m with
  | none => rw [spellings_of_interval?_eq_none hi]; rfl
  | some i =>
    cases m with
    | char c => simp [spellings, hi, characters]
    | classRange low high => simp [spellings, hi, characters]
    | _ => simp [interval?] at hi

theorem flatMap_characters_counted (ms : List Node) :
    (counted ms).flatMap characters = (ms.flatMap spellings).map Prod.snd := by
  induction ms with
  | nil => rfl
  | cons m ms ih =>
    rw [List.flatMap_cons, List.map_append, map_snd_spellings, ← ih, counted, List.filter_cons]
    split
    · rfl
    · rfl

/-- The spelling that is listed first for a code point is the first character that denotes it. -/
theorem lookup_eq_find? (h : ∀ p ∈ known, p.2.codePoint? = some p.1) (x : Nat) :
    known.lookup x = (known.map Prod.snd).find? fun c => c.codePoint? == some x := by
  induction known with
  | nil => rfl
  | cons p known ih =>
    obtain ⟨y, c⟩ := p
    have hc : c.codePoint? = some y := h (y, c) List.mem_cons_self
    rw [List.map_cons, List.find?_cons, List.lookup_cons, hc,
      ih fun p hp => h p (List.mem_cons_of_mem _ hp)]
    by_cases hxy : x = y
    · simp [hxy]
    · have hne : (x == y) = false := by simpa using hxy
      have hne' : (some y == some x) = false := by simpa using Ne.symm hxy
      rw [hne, hne']

/-- A code point that is spelled by some member is written as it was spelled first. -/
theorem firstSpelling?_eq_spell {x : Nat} {c : PatternChar} (hm : m ∈ ms)
    (hc : (x, c) ∈ spellings m) :
    firstSpelling? (counted ms) x = some (spell (ms.flatMap spellings) x) := by
  have hfirst : firstSpelling? (counted ms) x = (ms.flatMap spellings).lookup x := by
    rw [lookup_eq_find?, firstSpelling?, flatMap_characters_counted]
    intro p hp
    obtain ⟨m, -, hp⟩ := List.mem_flatMap.1 hp
    exact codePoint?_of_mem_spellings hp
  rw [hfirst, spell]
  cases hl : (ms.flatMap spellings).lookup x with
  | some d => rfl
  | none =>
    have hnot := List.lookup_eq_none_iff.1 hl (x, c) (List.mem_flatMap.2 ⟨m, hm, hc⟩)
    simp at hnot

theorem firstSpelling?_ends (hi : i ∈ coalesce (ms.filterMap interval?)) :
    firstSpelling? (counted ms) i.low = some (spell (ms.flatMap spellings) i.low) ∧
      firstSpelling? (counted ms) i.high = some (spell (ms.flatMap spellings) i.high) := by
  obtain ⟨⟨k, hk, hlow⟩, ⟨l, hl, hhigh⟩, -⟩ := spell_ends hi
  exact ⟨firstSpelling?_eq_spell hk hlow, firstSpelling?_eq_spell hl hhigh⟩

/-! ### The members in order -/

/-- Which members are written for an interval, by its length. -/
theorem mem_membersOf_cases (hle : i.low ≤ i.high) (hm : m ∈ membersOf known i) :
    (∃ x, m = .char (spell known x) ∧ (x = i.low ∨ x = i.high) ∧ i.high ≤ i.low + 1) ∨
      m = .classRange (spell known i.low) (spell known i.high) ∧ i.low + 2 ≤ i.high := by
  unfold membersOf at hm
  split at hm
  · obtain rfl := List.mem_singleton.1 hm
    exact .inl ⟨i.low, rfl, .inl rfl, by omega⟩
  · split at hm
    · rcases List.mem_cons.1 hm with rfl | hm
      · exact .inl ⟨i.low, rfl, .inl rfl, by omega⟩
      · obtain rfl := List.mem_singleton.1 hm
        exact .inl ⟨i.high, rfl, .inr rfl, by omega⟩
    · obtain rfl := List.mem_singleton.1 hm
      exact .inr ⟨rfl, by omega⟩

theorem runs_normalForm (ms : List Node) :
    Runs ms ((coalesce (ms.filterMap interval?)).flatMap
      (membersOf (ms.flatMap spellings))) := by
  have hbounds : ∀ i ∈ ms.filterMap interval?, i.low ≤ i.high := by
    intro i hi
    obtain ⟨m, -, hm⟩ := List.mem_filterMap.1 hi
    exact interval?_le hm
  have hcovers : anyContains (coalesce (ms.filterMap interval?)) = covers ms :=
    funext fun x => anyContains_coalesce hbounds x
  have hseparated := separated_coalesce (ms.filterMap interval?)
  have hfirst : ∀ i ∈ coalesce (ms.filterMap interval?),
      firstSpelling? (counted ms) i.low = some (spell (ms.flatMap spellings) i.low) ∧
        firstSpelling? (counted ms) i.high = some (spell (ms.flatMap spellings) i.high) :=
    fun i hi => firstSpelling?_ends hi
  have hends : ∀ i ∈ coalesce (ms.filterMap interval?),
      SpellsEnds (ms.flatMap spellings) i := fun i hi => spellsEnds_of_mem hi
  generalize coalesce (ms.filterMap interval?) = is at hcovers hseparated hfirst hends
  have hle : ∀ i ∈ is, i.low ≤ i.high := fun i hi => (hends i hi).2.2
  have hrun : ∀ i ∈ is, IsRun (covers ms) i.low i.high := by
    intro i hi
    rw [← hcovers]
    exact hseparated.isRun hi (hle i hi)
  have hpieces : (is.flatMap (membersOf (ms.flatMap spellings))).filterMap interval? =
      is.flatMap pieces := by
    rw [List.filterMap_flatMap]
    exact List.flatMap_congr fun i hi => filterMap_membersOf (hends i hi)
  refine ⟨?_, ?_, ?_, ?_, ?_⟩
  · intro m hm
    obtain ⟨i, hi, hm⟩ := List.mem_flatMap.1 hm
    exact Option.isSome_iff_ne_none.2 (interval?_ne_none_of_mem (hends i hi) hm)
  · intro x
    rw [covers, hpieces, anyContains_pieces hle, hcovers]
  · rw [hpieces]
    exact pairwise_pieces hseparated hle
  · intro c hc
    obtain ⟨i, hi, hc⟩ := List.mem_flatMap.1 hc
    rcases mem_membersOf_cases (hle i hi) hc with ⟨x, hx, hend, htwo⟩ | ⟨hrange, -⟩
    · cases hx
      obtain ⟨hlow, hhigh, -⟩ := hends i hi
      have hi' := hle i hi
      rcases hend with rfl | rfl
      · exact ⟨_, _, _, hlow, (hfirst i hi).1, hrun i hi, htwo, Nat.le_refl _, hi'⟩
      · exact ⟨_, _, _, hhigh, (hfirst i hi).2, hrun i hi, htwo, hi', Nat.le_refl _⟩
    · cases hrange
  · intro low high hm
    obtain ⟨i, hi, hm⟩ := List.mem_flatMap.1 hm
    rcases mem_membersOf_cases (hle i hi) hm with ⟨x, hx, -, -⟩ | ⟨hrange, hthree⟩
    · cases hx
    · cases hrange
      obtain ⟨hlow, hhigh, -⟩ := hends i hi
      exact ⟨_, _, hlow, hhigh, (hfirst i hi).1, (hfirst i hi).2, hrun i hi, hthree⟩

theorem isOrder_normalForm (ms : List Node) : IsOrder ms (normalForm ms) :=
  ⟨_, rfl, runs_normalForm ms⟩

/-! ### The order in words -/

/-- The members for an interval, by the difference of its ends in words. -/
def membersOfWords? (known : List (Nat × PatternChar)) (i : Interval) : Option (List Node) :=
  i.width?.map fun
    | 0 => [.char (spell known i.low)]
    | 1 => [.char (spell known i.low), .char (spell known i.high)]
    | _ => [.classRange (spell known i.low) (spell known i.high)]

/-- The members of a class in order, computed in words; `none` when a difference is negative. -/
def normalFormWords? (ms : List Node) : Option (List Node) :=
  ((coalesceWords (ms.filterMap interval?)).mapM (membersOfWords? (ms.flatMap spellings))).map
    fun runs => ms.filter (fun m => (interval? m).isNone) ++ runs.flatten

theorem membersOfWords?_eq (hle : i.low ≤ i.high) :
    membersOfWords? known i = some (membersOf known i) := by
  rw [membersOfWords?, width?, if_pos hle, Option.map_some, membersOf]
  split
  · rw [if_pos (by omega)]
  · rw [if_neg (by omega), if_pos (by omega)]
  · rename_i hzero hone
    rw [if_neg fun h => hzero (by omega), if_neg fun h => hone (by omega)]

/-- Words are large enough for all numbers that the order takes. -/
theorem normalFormWords?_eq (ms : List Node) : normalFormWords? ms = some (normalForm ms) := by
  have hwords : ∀ i ∈ ms.filterMap interval?, i.low ≤ Numeral.max32 := by
    intro i hi
    obtain ⟨m, -, hm⟩ := List.mem_filterMap.1 hi
    obtain ⟨c, hc⟩ := (exists_spelling hm).1
    exact Host.codePoint?_le (codePoint?_of_mem_spellings hc)
  have hmap : ∀ is : List Interval,
      (∀ i ∈ is, membersOfWords? (ms.flatMap spellings) i =
        some (membersOf (ms.flatMap spellings) i)) →
      is.mapM (membersOfWords? (ms.flatMap spellings)) =
        some (is.map (membersOf (ms.flatMap spellings))) := by
    intro is his
    induction is with
    | nil => rfl
    | cons i is ih =>
      rw [List.mapM_cons, his i List.mem_cons_self,
        ih fun j hj => his j (List.mem_cons_of_mem _ hj)]
      rfl
  rw [normalFormWords?, coalesceWords_eq hwords,
    hmap _ fun i hi => membersOfWords?_eq (spellsEnds_of_mem hi).2.2, Option.map_some, normalForm,
    ← List.flatMap_def]

/-! ### The rule -/

/-- A class that is put in order keeps its mark of negation; its members become its order, and
nothing is left to order. A class that is left alone is in order. Words are enough for both. -/
theorem normalized?_orders (negated : Bool) (ms : List Node) :
    (∀ n, normalized? (.charClass negated ms) = some n →
      ∃ ordered, n = .charClass negated ordered ∧ IsOrder ms ordered ∧ normalized? n = none) ∧
    (normalized? (.charClass negated ms) = none → IsOrder ms ms) ∧
    normalFormWords? ms = some (normalForm ms) := by
  refine ⟨fun n hn => ?_, fun hnone => ?_, normalFormWords?_eq ms⟩
  · rw [normalized?] at hn
    split at hn
    · cases hn
    · cases hn
      exact ⟨_, rfl, isOrder_normalForm ms, if_pos (normalForm_normalForm ms)⟩
  · rw [normalized?] at hnone
    split at hnone
    · rename_i hordered
      have hform := isOrder_normalForm ms
      rwa [hordered] at hform
    · cases hnone

/-- The range of `[c-\x61abc]` is out of order and does not count, so the order begins with `a`,
though `\x61` spells that code point first. -/
theorem normalized?_skips_spelling :
    normalized? (.charClass false [.classRange (.simple 'c') ⟨['\\', 'x', '6', '1'], .hex, false⟩,
        .char (.simple 'a'), .char (.simple 'b'), .char (.simple 'c')]) =
      some (.charClass false [.classRange (.simple 'c') ⟨['\\', 'x', '6', '1'], .hex, false⟩,
        .classRange (.simple 'a') (.simple 'c')]) ∧
    firstSpelling? [.classRange (.simple 'c') ⟨['\\', 'x', '6', '1'], .hex, false⟩,
        .char (.simple 'a'), .char (.simple 'b'), .char (.simple 'c')] 97 =
      some ⟨['\\', 'x', '6', '1'], .hex, false⟩ := by
  have hintervals : [Node.classRange (.simple 'c') ⟨['\\', 'x', '6', '1'], .hex, false⟩,
      .char (.simple 'a'), .char (.simple 'b'), .char (.simple 'c')].filterMap interval? =
      [⟨97, 97⟩, ⟨98, 98⟩, ⟨99, 99⟩] := by decide +kernel
  have hsort : Interval.sort [⟨97, 97⟩, ⟨98, 98⟩, ⟨99, 99⟩] = [⟨97, 97⟩, ⟨98, 98⟩, ⟨99, 99⟩] :=
    sort_eq_self (by decide)
  have hform : normalForm [.classRange (.simple 'c') ⟨['\\', 'x', '6', '1'], .hex, false⟩,
      .char (.simple 'a'), .char (.simple 'b'), .char (.simple 'c')] =
      [.classRange (.simple 'c') ⟨['\\', 'x', '6', '1'], .hex, false⟩,
        .classRange (.simple 'a') (.simple 'c')] := by
    rw [normalForm, hintervals, coalesce_eq_joined, hsort]
    decide +kernel
  refine ⟨?_, by decide +kernel⟩
  rw [normalized?, hform]
  decide +kernel

end Optimizer.ClassRanges

end RegexKit
