import RegexKit.Text

/-! Numerals. A number is written in decimal or in upper-case hexadecimal without leading
zeros, or padded to a width; a numeral is read in a base up to a limit, leading zeros
and one leading plus sign allowed. -/

namespace RegexKit.Numeral

/-- The largest value of a 32-bit word. -/
def max32 : Nat := 4294967295

/-- The largest value of a 64-bit word. -/
def max64 : Nat := 18446744073709551615

/-! ### Writing -/

/-- The decimal digits of `n`, most significant first. -/
def decimal (n : Nat) : Text := Nat.toDigits 10 n

/-- The upper-case hexadecimal digits of `n`, most significant first. -/
def hexadecimal (n : Nat) : Text := (Nat.toDigits 16 n).map Char.toUpper

/-- Zeros in front until `width` digits are reached. -/
def pad (width : Nat) (digits : Text) : Text :=
  List.replicate (width - digits.length) '0' ++ digits

theorem decimal_ne_nil (n : Nat) : decimal n ≠ [] := Nat.toDigits_ne_nil

theorem isDigit_of_mem_decimal {n : Nat} {c : Char} (h : c ∈ decimal n) : c.isDigit = true :=
  Nat.isDigit_of_mem_toDigits (by decide) (by decide) h

/-! ### Reading -/

/-- The value of a character as a digit of a base up to 36. -/
def digit? (base : Nat) (c : Char) : Option Nat :=
  let value? :=
    if '0' ≤ c ∧ c ≤ '9' then some (c.toNat - '0'.toNat)
    else if 'a' ≤ c ∧ c ≤ 'z' then some (c.toNat - 'a'.toNat + 10)
    else if 'A' ≤ c ∧ c ≤ 'Z' then some (c.toNat - 'A'.toNat + 10)
    else none
  value?.filter (· < base)

/-- The value of a digit string that continues a number; `none` at the first character
that is no digit. -/
def digits? (base : Nat) : Nat → Text → Option Nat
  | value, [] => some value
  | value, c :: cs => (digit? base c).bind fun d => digits? base (base * value + d) cs

/-- The text after one leading plus sign, if there is one. -/
def dropPlus : Text → Text
  | '+' :: cs => cs
  | cs => cs

/-- The value of a nonempty digit string after an optional plus sign, unless it is above
`limit`. -/
def read? (base limit : Nat) (t : Text) : Option Nat :=
  if dropPlus t = [] then none else (digits? base 0 (dropPlus t)).filter (· ≤ limit)

/-- The value of a string of decimal digits. -/
def ofDecimal (t : Text) : Nat := Nat.ofDigitChars 10 t 0

@[simp] theorem ofDecimal_decimal (n : Nat) : ofDecimal (decimal n) = n :=
  Nat.ofDigitChars_ten_toDigits

theorem read?_le {base limit n : Nat} {t : Text} (h : read? base limit t = some n) :
    n ≤ limit := by
  simp only [read?] at h
  split at h
  · cases h
  · simpa using (Option.filter_eq_some_iff.1 h).2

@[simp] theorem digits?_nil (base v : Nat) : digits? base v [] = some v := rfl

theorem digits?_append (base v : Nat) (s t : Text) :
    digits? base v (s ++ t) = (digits? base v s).bind fun w => digits? base w t := by
  induction s generalizing v with
  | nil => rfl
  | cons c cs ih =>
    simp only [List.cons_append, digits?]
    cases digit? base c with
    | none => rfl
    | some d => exact ih _

/-- Leading zeros change nothing. -/
theorem digits?_pad (width : Nat) (t : Text) :
    digits? 16 0 (pad width t) = digits? 16 0 t := by
  have h : ∀ k, digits? 16 0 (List.replicate k '0' ++ t) = digits? 16 0 t := by
    intro k
    induction k with
    | zero => rfl
    | succ k ih =>
      rw [List.replicate_succ, List.cons_append, digits?, show digit? 16 '0' = some 0 from by decide]
      exact ih
  exact h _

theorem digit?_hexDigit : ∀ d < 16, digit? 16 (Nat.digitChar d).toUpper = some d := by decide

/-- A hexadecimal number is read back. -/
theorem digits?_hexadecimal (n : Nat) : digits? 16 0 (hexadecimal n) = some n := by
  induction n using Nat.strongRecOn with
  | ind n ih =>
    rw [hexadecimal, Nat.toDigits_eq_if (by decide)]
    split
    · rename_i h
      simp [digits?, digit?_hexDigit n h]
    · rename_i h
      have hlt : n / 16 < n := Nat.div_lt_self (by omega) (by decide)
      have hd := digit?_hexDigit (n % 16) (Nat.mod_lt _ (by decide))
      have hn := ih (n / 16) hlt
      rw [hexadecimal] at hn
      rw [List.map_append, digits?_append, hn]
      simp only [Option.bind_some, List.map_cons, List.map_nil, digits?, hd, Option.some.injEq]
      omega

theorem hexadecimal_ne_nil (n : Nat) : hexadecimal n ≠ [] := by
  simp [hexadecimal, Nat.toDigits_ne_nil]

/-- A string of digits is read as its value. -/
theorem read?_of_digits? {base limit n : Nat} {t : Text} (ht : t ≠ []) (hn : n ≤ limit)
    (h : digits? base 0 t = some n) : read? base limit t = some n := by
  have hplus : dropPlus t = t := by
    unfold dropPlus
    split
    · have : digit? base '+' = none := by simp [digit?]
      simp [digits?, this] at h
    · rfl
  simp [read?, hplus, ht, h, hn]

/-! ### Digit classes -/

/-- Octal digits. -/
def isOctal (c : Char) : Bool := '0' ≤ c && c ≤ '7'

/-- Hexadecimal digits of either case. -/
def isHex (c : Char) : Bool :=
  c.isDigit || ('a' ≤ c && c ≤ 'f') || ('A' ≤ c && c ≤ 'F')

end RegexKit.Numeral
