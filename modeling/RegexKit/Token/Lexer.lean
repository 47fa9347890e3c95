import RegexKit.Token
import RegexKit.Text.Alphabetic
import RegexKit.Text.Number

/-! Splitting a pattern body into tokens. A token is read from its first character and the
text after it; the reader answers with the kind and the number of further characters that
belong to the token, so the tokens tile the body. Inside a class most characters stand for
themselves. An error is blamed on the first character of the token that fails. -/

namespace RegexKit

/-- The kind of a token and how many characters it has after its first one. -/
structure Lexeme where
  kind : TokenKind
  extra : Nat
  deriving DecidableEq, Repr

namespace Token

/-! ### Names -/

/-- A character that may begin a group name. -/
def isNameStart (c : Char) : Bool := CodePoints.isAlphabetic c || c = '_' || c = '$'

/-- A character that may continue a group name. -/
def isNamePart (c : Char) : Bool := isNameStart c || CodePoints.isNumber c

def isIdentifier : Text → Bool
  | [] => false
  | c :: cs => isNameStart c && cs.all isNamePart

/-- The group name before the next `>`. -/
def readName (t : Text) : Except LexCause Text :=
  match Text.splitAtFirst? '>' t with
  | none => .error .unterminatedGroupName
  | some (name, _) =>
    if isIdentifier name then .ok name else .error (.invalidGroupName name)

/-! ### Quantifiers -/

/-- A quantifier that spans `extra` further characters, lazy when a question mark follows
in `rest`. -/
def quantifier (min : Nat) (max : Option Nat) (extra : Nat) (rest : Text) : Lexeme :=
  if rest.head? = some '?' then ⟨.quantifier min max false, extra + 1⟩
  else ⟨.quantifier min max true, extra⟩

/-- The digits of the bounds in the text after an opening brace, the upper ones absent
when there is no upper bound; `none` when the braces are not a quantifier. -/
def braceDigits? (t : Text) : Option (Text × Option Text × Nat) :=
  let low := t.takeWhile Char.isDigit
  if low = [] then none
  else
    match t.dropWhile Char.isDigit with
    | '\x7d' :: _ => some (low, some low, low.length + 1)
    | ',' :: u =>
      let high := u.takeWhile Char.isDigit
      if (u.dropWhile Char.isDigit).head? = some '\x7d' then
        some (low, if high = [] then none else some high, low.length + high.length + 2)
      else none
    | _ => none

/-- The token that an opening brace begins: a quantifier when the text after it has the
form of one, else the brace itself. -/
def brace (t : Text) : Except LexCause Lexeme :=
  match braceDigits? t with
  | none => .ok ⟨.char (.simple '\x7b'), 0⟩
  | some (low, high, extra) =>
    let min := Numeral.ofDecimal low
    let max := high.map Numeral.ofDecimal
    if min ≤ Numeral.max32 ∧ max.all (· ≤ Numeral.max32) then
      .ok (quantifier min max extra (t.drop extra))
    else .error .quantifierOverflow

/-! ### Groups -/

/-- The token that an opening parenthesis begins. -/
def groupOpening : Text → Except LexCause Lexeme
  | '?' :: ':' :: _ => .ok ⟨.groupOpen .nonCapturing, 2⟩
  | '?' :: '=' :: _ => .ok ⟨.groupOpen .lookahead, 2⟩
  | '?' :: '!' :: _ => .ok ⟨.groupOpen .negativeLookahead, 2⟩
  | '?' :: '<' :: '=' :: _ => .ok ⟨.groupOpen .lookbehind, 3⟩
  | '?' :: '<' :: '!' :: _ => .ok ⟨.groupOpen .negativeLookbehind, 3⟩
  | '?' :: '<' :: t => (readName t).map fun name => ⟨.groupOpen (.named name), name.length + 3⟩
  | '?' :: _ => .error .invalidGroupSyntax
  | _ => .ok ⟨.groupOpen .capturing, 0⟩

/-! ### Escapes -/

/-- The length of the longest run of at most `limit` octal digits at the front. -/
def octalRun (limit : Nat) (t : Text) : Nat := ((t.take limit).takeWhile Numeral.isOctal).length

/-- The token of an escape that is a character: its text is the backslash and the next
`length` characters of `t`. -/
def escapeText (kind : CharKind) (length : Nat) (t : Text) : Lexeme :=
  ⟨.char ⟨'\\' :: t.take length, kind, false⟩, length⟩

/-- The number of characters of a Unicode escape, from its `u` on, given the text after
the `u`: four hexadecimal digits, or a braced hexadecimal number up to 10FFFF. -/
def unicodeLength? : Text → Option Nat
  | '\x7b' :: t =>
    let digits := t.takeWhile Numeral.isHex
    if digits ≠ [] ∧ (Numeral.read? 16 0x10FFFF digits).isSome ∧
        (t.dropWhile Numeral.isHex).head? = some '\x7d' then
      some (digits.length + 3)
    else none
  | t => if (t.take 4).length = 4 ∧ (t.take 4).all Numeral.isHex then some 5 else none

/-- Letters, digits, underscore and equals sign: what a property is written with. -/
def isPropertyPart (c : Char) : Bool := c.isAlphanum || c = '_' || c = '='

/-- The number of characters of a property escape, from its letter on, given the text
after the letter. -/
def propertyLength? : Text → Option Nat
  | '\x7b' :: t =>
    let name := t.takeWhile isPropertyPart
    if name ≠ [] ∧ (t.dropWhile isPropertyPart).head? = some '\x7d' then some (name.length + 3)
    else none
  | _ => none

/-- The token that a backslash begins, given the text after it. -/
def escape (inClass : Bool) (t : Text) : Except LexCause Lexeme :=
  match t with
  | [] => .error .danglingBackslash
  | c :: cs =>
    if c ∈ ['d', 'D', 'w', 'W', 's', 'S', 'n', 'r', 't', 'v', 'f'] then
      .ok (escapeText .special 1 t)
    else if c = 'b' then
      if inClass then .ok (escapeText .special 1 t) else .ok ⟨.assertion .wordBoundary, 1⟩
    else if c = 'B' ∧ !inClass then .ok ⟨.assertion .nonWordBoundary, 1⟩
    else if c = '0' ∨ (inClass ∧ '1' ≤ c ∧ c ≤ '7') then
      .ok (escapeText .octal (octalRun 2 cs + 1) t)
    else if !inClass ∧ '1' ≤ c ∧ c ≤ '9' then
      let digits := t.takeWhile Char.isDigit
      .ok ⟨.backreference (.number (min (Numeral.ofDecimal digits) Numeral.max64)), digits.length⟩
    else if c = 'x' then
      if (cs.take 2).length = 2 ∧ (cs.take 2).all Numeral.isHex then .ok (escapeText .hex 3 t)
      else .error .invalidHexEscape
    else if c = 'u' then
      match unicodeLength? cs with
      | some n => .ok (escapeText .unicode n t)
      | none => .error .invalidUnicodeEscape
    else if c = 'c' then
      if cs.head?.any Char.isAlpha then .ok (escapeText .control 2 t)
      else .error .invalidControlEscape
    else if c = 'p' ∨ c = 'P' then
      match propertyLength? cs with
      | some n => .ok (escapeText .special n t)
      | none => .error .invalidPropertyEscape
    else if c = 'k' ∧ !inClass then
      match cs with
      | '<' :: u =>
        match readName u with
        | .ok name => .ok ⟨.backreference (.name name), name.length + 3⟩
        | .error _ => .error .invalidNamedReference
      | _ => .error .invalidNamedReference
    else .ok ⟨.char (.identityEscape c), 1⟩

/-! ### Tokens -/

/-- The token that begins with `c` outside a class. -/
def outside (c : Char) (t : Text) : Except LexCause Lexeme :=
  match c with
  | '\\' => escape false t
  | '[' =>
    if t.head? = some '^' then .ok ⟨.classOpen true, 1⟩ else .ok ⟨.classOpen false, 0⟩
  | '(' => groupOpening t
  | ')' => .ok ⟨.groupClose, 0⟩
  | '|' => .ok ⟨.bar, 0⟩
  | '^' => .ok ⟨.assertion .start, 0⟩
  | '$' => .ok ⟨.assertion .finish, 0⟩
  | '.' => .ok ⟨.char .dot, 0⟩
  | '*' => .ok (quantifier 0 none 0 t)
  | '+' => .ok (quantifier 1 none 0 t)
  | '?' => .ok (quantifier 0 (some 1) 0 t)
  | '\x7b' => brace t
  | c => .ok ⟨.char (.simple c), 0⟩

/-- The token that begins with `c` inside a class. -/
def inside (c : Char) (t : Text) : Except LexCause Lexeme :=
  match c with
  | ']' => .ok ⟨.classClose, 0⟩
  | '\\' => escape true t
  | c => .ok ⟨.char (.simple c), 0⟩

/-- The offset of the open class after a token that begins at `offset`. -/
def classAfter (kind : TokenKind) (offset : Nat) (openClass : Option Nat) : Option Nat :=
  match kind with
  | .classOpen _ => some offset
  | .classClose => none
  | _ => openClass

/-- The tokens of a text that begins at `offset`; `openClass` is the offset of the bracket
of the class that the text begins in. -/
def lexFrom (offset : Nat) (openClass : Option Nat) : Text → Except LexError (List Token)
  | [] =>
    match openClass with
    | none => .ok []
    | some opened => .error ⟨.unterminatedClass, opened⟩
  | c :: cs =>
    match if openClass.isSome then inside c cs else outside c cs with
    | .error cause => .error ⟨cause, offset⟩
    | .ok ⟨kind, extra⟩ =>
      let raw := c :: cs.take extra
      match lexFrom (offset + Text.bytes raw) (classAfter kind offset openClass)
          (cs.drop extra) with
      | .error e => .error e
      | .ok tokens => .ok (⟨kind, raw, offset⟩ :: tokens)
termination_by t => t.length
decreasing_by simp only [List.length_drop, List.length_cons]; omega

/-- The tokens of a pattern body. -/
def tokenize (body : Text) : Except LexError (List Token) := lexFrom 0 none body

end Token

end RegexKit
