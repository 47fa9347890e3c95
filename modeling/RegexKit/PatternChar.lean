import RegexKit.Text.Numeral

/-! Single pattern characters. A character keeps the way it was written: a simple one holds
the character itself, every other kind its escape text. `codePoint?` is what the
spelling denotes, and `ofCodePoint` is the spelling chosen for a code point. -/

namespace RegexKit

/-- How a character is written. -/
inductive CharKind
  /-- A literal, possibly marked as an identity escape. -/
  | simple
  /-- The dot, class escapes such as `\d` and control escapes such as `\n`. -/
  | special
  /-- Four hexadecimal digits after `\u`, or any number of them in braces. -/
  | unicode
  /-- Two hexadecimal digits after `\x`. -/
  | hex
  /-- A letter after `\c`. -/
  | control
  /-- Octal digits after the backslash. -/
  | octal
  deriving DecidableEq, Repr

/-- A pattern character: the literal or the escape text, and how it is written. -/
structure PatternChar where
  value : Text
  kind : CharKind
  escaped : Bool := false
  deriving DecidableEq, Repr

namespace PatternChar

def simple (c : Char) : PatternChar := ⟨[c], .simple, false⟩

/-- A literal written with a backslash in front. -/
def identityEscape (c : Char) : PatternChar := ⟨[c], .simple, true⟩

/-- The dot. -/
def dot : PatternChar := ⟨['.'], .special, false⟩

/-! ### Code points -/

/-- The code point named by a control escape such as `\n`. -/
def controlEscape? : Text → Option Nat
  | ['\\', 't'] => some 0x09
  | ['\\', 'n'] => some 0x0A
  | ['\\', 'v'] => some 0x0B
  | ['\\', 'f'] => some 0x0C
  | ['\\', 'r'] => some 0x0D
  | ['\\', 'b'] => some 0x08
  | _ => none

/-- The digits of a braced number, or the text itself when it is not braced on both
sides. -/
def unbrace (t : Text) : Text :=
  match t with
  | '\x7b' :: cs => if cs.getLast? = some '\x7d' then cs.dropLast else t
  | _ => t

/-- The code point that a character denotes; the dot and class escapes have none. The
digits of an escape begin after its first two bytes, those of an octal escape after the
first. -/
def codePoint? (c : PatternChar) : Option Nat :=
  match c.kind with
  | .simple =>
    match c.value with
    | [x] => some x.toNat
    | _ => none
  | .special => controlEscape? c.value
  | .hex => (Text.dropBytes? 2 c.value).bind (Numeral.read? 16 Numeral.max32)
  | .unicode => (Text.dropBytes? 2 c.value).bind fun t =>
      Numeral.read? 16 Numeral.max32 (unbrace t)
  | .control => (Text.dropBytes? 2 c.value).bind fun t => t.head?.map (·.toNat % 32)
  | .octal => (Text.dropBytes? 1 c.value).bind (Numeral.read? 8 Numeral.max32)

@[simp] theorem codePoint?_simple (c : Char) : (simple c).codePoint? = some c.toNat := rfl

@[simp] theorem codePoint?_identityEscape (c : Char) :
    (identityEscape c).codePoint? = some c.toNat := rfl

/-! ### Spelling of a code point -/

/-- The control characters U+0000 to U+001F and U+007F to U+009F. -/
def isControl (n : Nat) : Bool := n ≤ 0x1F || (0x7F ≤ n && n ≤ 0x9F)

/-- The spelling of a code point: a printable character stands for itself, a control
character is written with two hexadecimal digits, and a number that is no character with
four, or in braces when it needs more. -/
def ofCodePoint (n : Nat) : PatternChar :=
  if n.isValidChar ∧ isControl n = false then simple (Char.ofNat n)
  else if n.isValidChar ∧ n ≤ 0xFF then
    ⟨['\\', 'x'] ++ Numeral.pad 2 (Numeral.hexadecimal n), .hex, false⟩
  else if n ≤ 0xFFFF then
    ⟨['\\', 'u'] ++ Numeral.pad 4 (Numeral.hexadecimal n), .unicode, false⟩
  else
    ⟨['\\', 'u', '\x7b'] ++ Numeral.hexadecimal n ++ ['\x7d'], .unicode, false⟩

theorem unbrace_of_digits? {base n : Nat} {t : Text} (h : Numeral.digits? base 0 t = some n) :
    unbrace t = t := by
  unfold unbrace
  split
  · have : Numeral.digit? base '\x7b' = none := by simp [Numeral.digit?]
    simp [Numeral.digits?, this] at h
  · rfl

theorem unbrace_braced (t : Text) : unbrace ('\x7b' :: (t ++ ['\x7d'])) = t := by
  simp [unbrace]

/-- The spelling of a code point denotes it. -/
theorem codePoint?_ofCodePoint {n : Nat} (h : n ≤ Numeral.max32) :
    (ofCodePoint n).codePoint? = some n := by
  have hpad (width : Nat) : Numeral.read? 16 Numeral.max32
      (Numeral.pad width (Numeral.hexadecimal n)) = some n :=
    Numeral.read?_of_digits? (by simp [Numeral.pad, Numeral.hexadecimal_ne_nil]) h
      (by rw [Numeral.digits?_pad, Numeral.digits?_hexadecimal])
  have hdrop (c : Char) (hc : c.utf8Size = 1) (t : Text) :
      Text.dropBytes? 2 ('\\' :: c :: t) = some t := by
    have := Text.dropBytes?_bytes_append ['\\', c] t
    simpa [hc, show '\\'.utf8Size = 1 from by decide] using this
  unfold ofCodePoint
  split
  · rename_i hv
    rw [codePoint?_simple, Char.ofNat, dif_pos hv.1]
    rfl
  · split
    · simp [codePoint?, hdrop 'x' (by decide), hpad]
    · split
      · simp only [codePoint?, List.cons_append, List.nil_append, hdrop 'u' (by decide),
          Option.bind_some]
        have hdigits : Numeral.digits? 16 0 (Numeral.pad 4 (Numeral.hexadecimal n)) = some n := by
          rw [Numeral.digits?_pad, Numeral.digits?_hexadecimal]
        rw [unbrace_of_digits? hdigits, hpad]
      · simp only [codePoint?, List.cons_append, List.nil_append, hdrop 'u' (by decide),
          Option.bind_some, unbrace_braced]
        exact Numeral.read?_of_digits? (Numeral.hexadecimal_ne_nil n) h
          (Numeral.digits?_hexadecimal n)

/-! ### Printing -/

/-- Where a character is printed. -/
inductive Place
  | pattern
  | inClass
  deriving DecidableEq, Repr

/-- The characters that need a backslash in a place. -/
def reserved : Place → Text
  | .pattern => ['\\', '^', '$', '.', '|', '?', '*', '+', '(', ')', '[', ']', '\x7b', '\x7d', '/']
  | .inClass => ['\\', ']', '[', '^', '-', '/']

/-- The value is a single character that is reserved in the place. -/
def needsEscape (place : Place) : Text → Bool
  | [c] => (reserved place).contains c
  | _ => false

/-- Escape kinds keep their text; a simple character is escaped exactly when it is reserved
in its place. -/
def text (place : Place) (c : PatternChar) : Text :=
  if c.kind = .simple ∧ needsEscape place c.value then '\\' :: c.value else c.value

end PatternChar

end RegexKit
