import Mathlib.Data.Set.Insert
import Mathlib.Order.BooleanAlgebra.Set
import RegexKit.Host.Dialect
import RegexKit.Proofs.Token.Spelling

/-! What characters and classes of the pattern dialect stand for. Each denotes a set of code
points; the escapes that the host reads in the same way denote sets that are left open. What the
dialect of the host puts in the place of a character or of a class denotes the same set. -/

namespace RegexKit

/-! ### Intervals -/

namespace Interval

/-- The union of intervals. -/
def toSet (is : List Interval) : Set ℕ := {x | anyContains is x = true}

theorem mem_toSet {is : List Interval} {x : ℕ} :
    x ∈ toSet is ↔ ∃ i ∈ is, i.low ≤ x ∧ x ≤ i.high := by
  simp [toSet, anyContains, contains]

/-- Intervals in order, none meeting the next, that begin at a point or later and end within the
code points. -/
def Rising : ℕ → List Interval → Prop
  | _, [] => True
  | next, i :: is => next ≤ i.low ∧ i.low ≤ i.high ∧ i.high ≤ maxCodePoint ∧ Rising (i.high + 1) is

theorem Rising.mono {is : List Interval} {m n : ℕ} (h : Rising n is) (hmn : m ≤ n) :
    Rising m is := by
  cases is with
  | nil => exact trivial
  | cons i is => exact ⟨Nat.le_trans hmn h.1, h.2⟩

theorem mem_toSet_cons {i : Interval} {is : List Interval} {x : ℕ} :
    x ∈ toSet (i :: is) ↔ (i.low ≤ x ∧ x ≤ i.high) ∨ x ∈ toSet is := by
  simp [mem_toSet]

theorem Rising.le_of_mem {is : List Interval} {next x : ℕ} (h : Rising next is)
    (hx : x ∈ toSet is) : next ≤ x := by
  induction is generalizing next with
  | nil => simp [mem_toSet] at hx
  | cons i is ih =>
    obtain ⟨hnext, hi, -, his⟩ := h
    rcases mem_toSet_cons.1 hx with hx | hx
    · omega
    · have := ih his hx
      omega

/-- The gaps from a point on hold the code points from there on that no interval holds. -/
theorem mem_toSet_gapsFrom {is : List Interval} {next x : ℕ} (h : Rising next is) :
    x ∈ toSet (gapsFrom next is) ↔ next ≤ x ∧ x ≤ maxCodePoint ∧ x ∉ toSet is := by
  induction is generalizing next with
  | nil =>
    rw [gapsFrom]
    split <;> simp [mem_toSet]
    omega
  | cons i is ih =>
    obtain ⟨hnext, hi, hmax, his⟩ := h
    have hrest : x ∈ toSet is → i.high + 1 ≤ x := his.le_of_mem
    -- the gap before the interval, when there is one
    have hgap : x ∈ toSet (gapsFrom next (i :: is)) ↔
        (next ≤ x ∧ x < i.low) ∨ x ∈ toSet (gapsFrom (i.high + 1) is) := by
      rw [gapsFrom]
      split
      · rw [mem_toSet_cons]
        exact or_congr_left (by simp only; omega)
      · exact (or_iff_right (by omega)).symm
    rw [hgap, ih his, mem_toSet_cons]
    by_cases hin : x ∈ toSet is
    · simp only [hin, not_true_eq_false, and_false, or_true, or_false, iff_false]
      have := hrest hin
      omega
    · simp only [hin, not_false_eq_true, and_true, or_false]
      omega

/-- The complement of rising intervals holds the other code points. -/
theorem mem_toSet_complement {is : List Interval} {x : ℕ} (h : Rising 0 is) :
    x ∈ toSet (complement is) ↔ x ≤ maxCodePoint ∧ x ∉ toSet is := by
  rw [complement, mem_toSet_gapsFrom h]
  simp

/-- The gaps are rising themselves. -/
theorem Rising.gapsFrom {is : List Interval} {next : ℕ} (h : Rising next is) :
    Rising next (gapsFrom next is) := by
  induction is generalizing next with
  | nil =>
    rw [Interval.gapsFrom]
    split
    · exact ⟨Nat.le_refl _, by assumption, Nat.le_refl _, trivial⟩
    · exact trivial
  | cons i is ih =>
    obtain ⟨hnext, hi, hmax, his⟩ := h
    rw [Interval.gapsFrom]
    split
    · have hbefore : next ≤ i.low - 1 ∧ i.low - 1 ≤ maxCodePoint := by omega
      exact ⟨Nat.le_refl _, hbefore.1, hbefore.2, (ih his).mono (by simp only; omega)⟩
    · exact (ih his).mono (by omega)

end Interval

namespace Host

open RegexKit.Interval (toSet mem_toSet maxCodePoint)

/-! ### Sets of the pattern dialect -/

/-- All code points. -/
def codeSpace : Set ℕ := {x | x ≤ maxCodePoint}

def asciiDigits : Set ℕ := {x | '0'.toNat ≤ x ∧ x ≤ '9'.toNat}

/-- The digits, the letters and the underscore of ASCII. -/
def asciiWord : Set ℕ :=
  {x | x ∈ asciiDigits ∨ ('A'.toNat ≤ x ∧ x ≤ 'Z'.toNat) ∨ x = '_'.toNat ∨
    ('a'.toNat ≤ x ∧ x ≤ 'z'.toNat)}

/-- The line feed, the carriage return and the separators of lines and paragraphs. -/
def lineEnds : Set ℕ := {0x0A, 0x0D, 0x2028, 0x2029}

section Denotation

variable (flags : Flags) (others : Text → Set ℕ)

/-- The set of an escape without a code point, by its text. -/
def escapeSet : Text → Set ℕ
  | ['.'] => if flags.dotAll then codeSpace else codeSpace \ lineEnds
  | ['\\', 'd'] => asciiDigits
  | ['\\', 'D'] => codeSpace \ asciiDigits
  | ['\\', 'w'] => asciiWord
  | ['\\', 'W'] => codeSpace \ asciiWord
  | t => others t

/-- The set of a character. -/
def charSet (c : PatternChar) : Set ℕ :=
  match c.codePoint? with
  | some x => {x}
  | none => escapeSet flags others c.value

/-- The set of a member of a class. -/
def memberSet : Node → Set ℕ
  | .char c => charSet flags others c
  | .classRange low high =>
    {x | ∃ a b, low.codePoint? = some a ∧ high.codePoint? = some b ∧ a ≤ x ∧ x ≤ b}
  | _ => ∅

/-- The union of the sets of members. -/
def membersSet (ms : List Node) : Set ℕ := {x | ∃ m ∈ ms, x ∈ memberSet flags others m}

/-- The set of a class. -/
def classSet (negated : Bool) (ms : List Node) : Set ℕ :=
  if negated then codeSpace \ membersSet flags others ms else membersSet flags others ms

/-- The set that a node stands for, when it is a character or a class. -/
def nodeSet? : Node → Option (Set ℕ)
  | .char c => some (charSet flags others c)
  | .charClass negated ms => some (classSet flags others negated ms)
  | _ => none

end Denotation

variable {flags : Flags} {others : Text → Set ℕ} {c : PatternChar}

theorem charSet_of_codePoint {x : ℕ} (h : c.codePoint? = some x) :
    charSet flags others c = {x} := by
  rw [charSet, h]

theorem charSet_of_none (h : c.codePoint? = none) :
    charSet flags others c = escapeSet flags others c.value := by
  rw [charSet, h]

theorem membersSet_nil : membersSet flags others [] = ∅ := by
  simp [membersSet]

theorem membersSet_append (ms ks : List Node) :
    membersSet flags others (ms ++ ks) =
      membersSet flags others ms ∪ membersSet flags others ks := by
  ext x
  simp [membersSet, or_and_right, exists_or]

theorem membersSet_singleton (m : Node) :
    membersSet flags others [m] = memberSet flags others m := by
  ext x
  simp [membersSet]

theorem membersSet_cons (m : Node) (ms : List Node) :
    membersSet flags others (m :: ms) = memberSet flags others m ∪ membersSet flags others ms := by
  rw [← membersSet_singleton m, ← membersSet_append]
  rfl

/-- Members that are replaced one by one by members of the same set. -/
theorem membersSet_flatMap {f : Node → List Node} {ms : List Node}
    (h : ∀ m ∈ ms, membersSet flags others (f m) = memberSet flags others m) :
    membersSet flags others (ms.flatMap f) = membersSet flags others ms := by
  induction ms with
  | nil => rfl
  | cons m ms ih =>
    rw [List.flatMap_cons, membersSet_append, h m List.mem_cons_self,
      ih fun k hk => h k (List.mem_cons_of_mem _ hk), membersSet_cons]

/-! ### Code points of characters -/

/-- The code point of a character is a word. -/
theorem codePoint?_le {x : ℕ} (h : c.codePoint? = some x) : x ≤ Numeral.max32 := by
  unfold PatternChar.codePoint? at h
  split at h
  · split at h
    · rename_i y _
      cases h
      have hvalid : y.toNat.isValidChar := y.valid
      unfold Nat.isValidChar at hvalid
      unfold Numeral.max32
      omega
    · cases h
  · have hlt : ∀ {t : Text} {y : ℕ}, PatternChar.controlEscape? t = some y → y ≤ 0x0D := by
      intro t y hy
      unfold PatternChar.controlEscape? at hy
      split at hy <;> cases hy <;> decide
    exact Nat.le_trans (hlt h) (by decide)
  · obtain ⟨t, -, ht⟩ := Option.bind_eq_some_iff.1 h
    exact Numeral.read?_le ht
  · obtain ⟨t, -, ht⟩ := Option.bind_eq_some_iff.1 h
    exact Numeral.read?_le ht
  · obtain ⟨t, -, ht⟩ := Option.bind_eq_some_iff.1 h
    obtain ⟨y, -, rfl⟩ := Option.map_eq_some_iff.1 ht
    exact Nat.le_trans (Nat.le_of_lt (Nat.mod_lt _ (by decide))) (by decide)
  · obtain ⟨t, -, ht⟩ := Option.bind_eq_some_iff.1 h
    exact Numeral.read?_le ht

theorem classEscape?_ofCodePoint (x : ℕ) :
    classEscape? (PatternChar.ofCodePoint x).value = none := by
  obtain ⟨y, h⟩ | ⟨letter, t, kind, rfl | rfl, -, h, -⟩ := Token.ofCodePoint_spelling x <;>
    rw [h] <;> simp [classEscape?, PatternChar.simple]

theorem isForeign_ofCodePoint (x : ℕ) : isForeign (PatternChar.ofCodePoint x) = false := by
  obtain ⟨y, h⟩ | ⟨letter, t, kind, -, rfl | rfl, h, -⟩ := Token.ofCodePoint_spelling x <;>
    rw [h] <;> rfl

/-- A class escape has no code point. -/
theorem codePoint?_of_classEscape? {p : List Interval × Bool} (h : classEscape? c.value = some p) :
    c.codePoint? = none := by
  obtain ⟨value, kind, escaped⟩ := c
  unfold classEscape? at h
  split at h <;> rename_i hvalue
  all_goals
    cases h <;> cases hvalue <;> cases kind <;> rfl

/-! ### Members -/

theorem charSet_ofCodePoint {x : ℕ} (h : x ≤ Numeral.max32) :
    charSet flags others (.ofCodePoint x) = {x} :=
  charSet_of_codePoint (PatternChar.codePoint?_ofCodePoint h)

theorem memberSet_memberOf {i : Interval} (hle : i.low ≤ i.high) (hmax : i.high ≤ maxCodePoint) :
    memberSet flags others (memberOf i) = {x | i.low ≤ x ∧ x ≤ i.high} := by
  have hword : i.high ≤ Numeral.max32 := Nat.le_trans hmax (by decide)
  rw [memberOf]
  split
  · rename_i heq
    rw [memberSet, charSet_ofCodePoint (by omega)]
    ext x
    have hsingle : x = i.low ↔ i.low ≤ x ∧ x ≤ i.high := by omega
    simpa using hsingle
  · rw [memberSet, PatternChar.codePoint?_ofCodePoint (by omega),
      PatternChar.codePoint?_ofCodePoint hword]
    simp

/-- Class members for intervals of code points denote the union of the intervals. -/
theorem membersSet_map_memberOf {is : List Interval} {next : ℕ} (h : Interval.Rising next is) :
    membersSet flags others (is.map memberOf) = toSet is := by
  induction is generalizing next with
  | nil =>
    ext x
    simp [membersSet, mem_toSet]
  | cons i is ih =>
    obtain ⟨-, hle, hmax, his⟩ := h
    rw [List.map_cons, membersSet_cons, ih his, memberSet_memberOf hle hmax]
    ext x
    simp [mem_toSet]

/-! ### The sets of the tables -/

theorem rising_lineTerminators : Interval.Rising 0 lineTerminators := by
  simp [Interval.Rising, lineTerminators, maxCodePoint]

theorem rising_allCodePoints : Interval.Rising 0 allCodePoints := by
  simp [Interval.Rising, allCodePoints]

theorem toSet_lineTerminators : toSet lineTerminators = lineEnds := by
  ext x
  have hends : (0x0A ≤ x ∧ x ≤ 0x0A) ∨ (0x0D ≤ x ∧ x ≤ 0x0D) ∨ (0x2028 ≤ x ∧ x ≤ 0x2029) ↔
      x = 0x0A ∨ x = 0x0D ∨ x = 0x2028 ∨ x = 0x2029 := by omega
  simpa [mem_toSet, lineTerminators, lineEnds] using hends

theorem toSet_allCodePoints : toSet allCodePoints = codeSpace := by
  ext x
  simp [mem_toSet, allCodePoints, codeSpace]

/-- A class escape denotes the set of its table, or the complement of it. -/
theorem escapeSet_of_classEscape? (flags : Flags) (others : Text → Set ℕ) {t : Text}
    {is : List Interval} {negated : Bool} (h : classEscape? t = some (is, negated)) :
    Interval.Rising 0 is ∧
      escapeSet flags others t = if negated then codeSpace \ toSet is else toSet is := by
  have hdigits : Interval.Rising 0 digits ∧ toSet digits = asciiDigits := by
    refine ⟨by simp [Interval.Rising, digits, maxCodePoint], ?_⟩
    ext x
    simp [mem_toSet, digits, asciiDigits]
  have hword : Interval.Rising 0 wordChars ∧ toSet wordChars = asciiWord := by
    refine ⟨by simp [Interval.Rising, wordChars, maxCodePoint], ?_⟩
    ext x
    have hunderscore : x = 0x5F ↔ 0x5F ≤ x ∧ x ≤ 0x5F := by omega
    simp [mem_toSet, wordChars, asciiWord, asciiDigits, hunderscore]
  unfold classEscape? at h
  split at h <;> cases h <;> simp [escapeSet, hdigits, hword]

/-! ### What is put in place -/

/-- A respelled character keeps its code point. -/
theorem codePoint?_of_respell? {d : PatternChar} (h : respell? c = some d) :
    d.codePoint? = c.codePoint? ∧ c.codePoint?.isSome = true := by
  rw [respell?] at h
  split at h
  · obtain ⟨x, hx, rfl⟩ := Option.map_eq_some_iff.1 h
    rw [PatternChar.codePoint?_ofCodePoint (codePoint?_le hx), hx]
    exact ⟨rfl, rfl⟩
  · cases h

theorem codePoint?_getD_respell? (c : PatternChar) :
    ((respell? c).getD c).codePoint? = c.codePoint? := by
  cases h : respell? c with
  | none => rfl
  | some d => exact (codePoint?_of_respell? h).1

theorem charSet_respell? {d : PatternChar} (h : respell? c = some d) :
    charSet flags others d = charSet flags others c := by
  obtain ⟨hsame, hsome⟩ := codePoint?_of_respell? h
  obtain ⟨x, hx⟩ := Option.isSome_iff_exists.1 hsome
  rw [charSet_of_codePoint (hsame.trans hx), charSet_of_codePoint hx]

/-- What stands for a member denotes the set of the member. -/
theorem membersSet_adaptMember (m : Node) :
    membersSet flags others (adaptMember m).1 = memberSet flags others m := by
  unfold adaptMember
  split
  · rename_i c
    split
    · rename_i is negated hescape
      obtain ⟨hrising, hset⟩ := escapeSet_of_classEscape? flags others hescape
      rw [memberSet, charSet_of_none (codePoint?_of_classEscape? hescape), hset]
      cases negated with
      | false => exact membersSet_map_memberOf hrising
      | true =>
        have hcomplement : Interval.Rising 0 (Interval.complement is) := hrising.gapsFrom
        refine (membersSet_map_memberOf hcomplement).trans ?_
        ext x
        simpa [codeSpace] using Interval.mem_toSet_complement hrising
    · split
      · rename_i d hrespell
        rw [membersSet_singleton, memberSet, memberSet, charSet_respell? hrespell]
      · exact membersSet_singleton _
  · rename_i low high
    rw [membersSet_singleton, memberSet, memberSet, codePoint?_getD_respell?,
      codePoint?_getD_respell?]
  · exact membersSet_singleton _

/-- What stands for a class is a class of the same set. -/
theorem nodeSet?_adaptClass? {n m : Node} (h : adaptClass? n = some m) :
    nodeSet? flags others m = nodeSet? flags others n := by
  unfold adaptClass? at h
  split at h
  · rename_i negated
    cases h
    simp only [nodeSet?, classSet, membersSet_map_memberOf rising_allCodePoints,
      toSet_allCodePoints, membersSet_nil]
    cases negated <;> simp
  · rename_i negated ms _
    split at h
    · cases h
      simp only [nodeSet?, classSet, membersSet_flatMap fun m _ => membersSet_adaptMember m]
    · cases h
  · cases h

/-- What stands for a character is a character or a class of the same set. -/
theorem nodeSet?_adaptChar? {m : Node} (h : adaptChar? flags c = some m) :
    nodeSet? flags others m = nodeSet? flags others (.char c) := by
  unfold adaptChar? at h
  split at h
  · rename_i hdot
    have hpoint : c.codePoint? = none := by
      obtain ⟨value, kind, escaped⟩ := c
      obtain ⟨rfl, rfl⟩ := hdot
      rfl
    split at h
    · cases h
    · rename_i hall
      cases h
      simp [nodeSet?, classSet, membersSet_map_memberOf rising_lineTerminators,
        toSet_lineTerminators, charSet_of_none hpoint, hdot.2, escapeSet, hall]
  · split at h
    · rename_i is negated hescape
      obtain ⟨hrising, hset⟩ := escapeSet_of_classEscape? flags others hescape
      cases h
      rw [nodeSet?, nodeSet?, classSet, charSet_of_none (codePoint?_of_classEscape? hescape), hset,
        membersSet_map_memberOf hrising]
    · obtain ⟨d, hrespell, rfl⟩ := Option.map_eq_some_iff.1 h
      rw [nodeSet?, nodeSet?, charSet_respell? hrespell]

end Host

end RegexKit
