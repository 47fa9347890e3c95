/-! Intervals of code points, ends included. A list of intervals denotes the union of its
members; sorting and coalescing keep that set, and the complement is taken within the
code points up to 10FFFF. -/

namespace RegexKit

/-- All numbers from `low` to `high`. -/
structure Interval where
  low : Nat
  high : Nat
  deriving DecidableEq, Repr

namespace Interval

/-- The largest code point. -/
def maxCodePoint : Nat := 0x10FFFF

def contains (i : Interval) (n : Nat) : Bool := i.low ≤ n && n ≤ i.high

/-- Membership in the union. -/
def anyContains (is : List Interval) (n : Nat) : Bool := is.any (·.contains n)

@[simp] theorem anyContains_nil (n : Nat) : anyContains [] n = false := rfl

@[simp] theorem anyContains_cons (i : Interval) (is : List Interval) (n : Nat) :
    anyContains (i :: is) n = (i.contains n || anyContains is n) := rfl

theorem anyContains_append (is js : List Interval) (n : Nat) :
    anyContains (is ++ js) n = (anyContains is n || anyContains js n) := by
  simp [anyContains, List.any_append]

/-- The order by the lower ends, then by the upper ends. -/
def le (i j : Interval) : Bool := i.low < j.low || (i.low == j.low && i.high ≤ j.high)

def sort (is : List Interval) : List Interval := is.mergeSort le

/-- Joins intervals that overlap or touch, given in order of their lower ends, after a
first one. -/
def coalesceFrom (i : Interval) : List Interval → List Interval
  | [] => [i]
  | j :: js =>
    if j.low ≤ i.high + 1 then coalesceFrom ⟨i.low, max i.high j.high⟩ js
    else i :: coalesceFrom j js

/-- The same set as disjoint intervals in order, none touching the next. -/
def coalesce (is : List Interval) : List Interval :=
  match sort is with
  | [] => []
  | i :: is => coalesceFrom i is

/-- The gaps from `next` on between intervals in order. -/
def gapsFrom (next : Nat) : List Interval → List Interval
  | [] => if next ≤ maxCodePoint then [⟨next, maxCodePoint⟩] else []
  | i :: is =>
    if next < i.low then ⟨next, i.low - 1⟩ :: gapsFrom (i.high + 1) is
    else gapsFrom (i.high + 1) is

/-- The code points outside intervals given in order. -/
def complement (is : List Interval) : List Interval := gapsFrom 0 is

/-! ### The set that is kept -/

theorem anyContains_sort (is : List Interval) (n : Nat) :
    anyContains (sort is) n = anyContains is n :=
  (List.mergeSort_perm is le).any_eq

/-- Sorting puts the lower ends in order. -/
theorem pairwise_sort (is : List Interval) : (sort is).Pairwise fun i j => i.low ≤ j.low := by
  have h : (sort is).Pairwise fun i j => le i j = true :=
    List.pairwise_mergeSort
      (fun a b c hab hbc => by simp only [le, Bool.or_eq_true, decide_eq_true_eq,
        Bool.and_eq_true, beq_iff_eq] at *; omega)
      (fun a b => by simp only [le, Bool.or_eq_true, decide_eq_true_eq, Bool.and_eq_true,
        beq_iff_eq]; omega) is
  exact h.imp fun hab => by
    simp only [le, Bool.or_eq_true, decide_eq_true_eq, Bool.and_eq_true, beq_iff_eq] at hab
    omega

theorem anyContains_coalesceFrom {i : Interval} {is : List Interval} (hi : i.low ≤ i.high)
    (his : ∀ j ∈ is, j.low ≤ j.high) (h : (i :: is).Pairwise fun a b => a.low ≤ b.low)
    (n : Nat) : anyContains (coalesceFrom i is) n = (i.contains n || anyContains is n) := by
  induction is generalizing i with
  | nil => simp [coalesceFrom]
  | cons j js ih =>
    have hij : i.low ≤ j.low := (List.pairwise_cons.1 h).1 j List.mem_cons_self
    have hj : j.low ≤ j.high := his j List.mem_cons_self
    have hjs : ∀ k ∈ js, k.low ≤ k.high := fun k hk => his k (List.mem_cons_of_mem _ hk)
    have htail := (List.pairwise_cons.1 h).2
    rw [coalesceFrom]
    split
    · rename_i htouch
      have hpair : ((⟨i.low, max i.high j.high⟩ : Interval) :: js).Pairwise
          fun a b => a.low ≤ b.low :=
        List.pairwise_cons.2 ⟨fun k hk => (List.pairwise_cons.1 h).1 k (List.mem_cons_of_mem _ hk),
          (List.pairwise_cons.1 htail).2⟩
      rw [ih (i := ⟨i.low, max i.high j.high⟩) (by simp only; omega) hjs hpair, anyContains_cons,
        ← Bool.or_assoc]
      congr 1
      rw [Bool.eq_iff_iff]
      simp only [contains, Bool.and_eq_true, decide_eq_true_eq, Bool.or_eq_true]
      omega
    · rw [anyContains_cons, ih hj hjs htail, anyContains_cons]

/-- Coalescing keeps the set. -/
theorem anyContains_coalesce {is : List Interval} (h : ∀ i ∈ is, i.low ≤ i.high) (n : Nat) :
    anyContains (coalesce is) n = anyContains is n := by
  rw [← anyContains_sort is, coalesce]
  split
  · simp_all
  · rename_i i js hs
    have hmem : ∀ j ∈ i :: js, j.low ≤ j.high := fun j hj =>
      h j ((List.mergeSort_perm is le).mem_iff.1 (by rw [← sort, hs]; exact hj))
    rw [hs, anyContains_coalesceFrom (hmem i List.mem_cons_self)
      (fun j hj => hmem j (List.mem_cons_of_mem _ hj)) (hs ▸ pairwise_sort is), anyContains_cons]

end Interval

end RegexKit
