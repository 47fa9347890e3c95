import RegexKit.Linear.Property
import RegexKit.Node.Printer
import RegexKit.Text.Alphabetic
import RegexKit.Text.Number

/-! What the engine accepts. An escape must be one that it knows and must not
denote half of a surrogate pair; a property must be known; group names must be distinct
words of its own; the ends of a range must be in order. -/

namespace RegexKit.Linear

/-! ### Escapes -/

/-- A number between braces, or a number of exactly `width` hexadecimal digits. -/
def hexDigits? (width : Nat) : Text → Option Text
  | '\x7b' :: t => (Text.splitAtFirst? '\x7d' t).map Prod.fst
  | t => if (t.take width).length = width then some (t.take width) else none

/-- The number at the front of the text is a character. -/
def isCharNumber (width : Nat) (t : Text) : Bool :=
  match (hexDigits? width t).bind (Numeral.digits? 16 0) with
  | some n => decide n.isValidChar
  | none => false

/-- The property at the front of the text is known: a letter or a name between braces. -/
def isKnownProperty : Text → Bool
  | '\x7b' :: t => (Text.splitAtFirst? '\x7d' t).any fun p => Property.isKnown p.1
  | c :: _ => Property.isKnown [c]
  | [] => false

/-- The letters that are escapes of their own. -/
def escapeLetters : Text :=
  ['a', 'f', 't', 'n', 'r', 'v', 'A', 'z', 'b', 'B', 'd', 'D', 's', 'S', 'w', 'W']

/-- The text after a backslash is an escape. -/
def isKnownEscape : Text → Bool
  | [] => false
  | 'x' :: t => isCharNumber 2 t
  | 'u' :: t => isCharNumber 4 t
  | 'U' :: t => isCharNumber 8 t
  | 'p' :: t | 'P' :: t => isKnownProperty t
  | c :: _ => if c.isAlphanum then escapeLetters.contains c else c.toNat < 128

/-- All escapes of a pattern text are known. -/
def escapesKnown : Text → Bool
  | [] => true
  | '\\' :: c :: t => isKnownEscape (c :: t) && escapesKnown t
  | '\\' :: [] => false
  | _ :: t => escapesKnown t

/-! ### Groups and ranges -/

/-- The word characters of group names, brackets and dots after the first. -/
def isGroupName : Text → Bool
  | [] => false
  | c :: cs => (CodePoints.isAlphabetic c || c = '_') && cs.all fun d =>
      CodePoints.isAlphabetic d || CodePoints.isNumber d || ['_', '.', '[', ']'].contains d

/-- No text occurs twice. -/
def distinct : List Text → Bool
  | [] => true
  | t :: ts => !ts.contains t && distinct ts

/-- The ends of a range are in order, as far as they have code points. -/
def rangeInOrder : Node → Bool
  | .classRange low high =>
    match low.codePoint?, high.codePoint? with
    | some x, some y => x ≤ y
    | _, _ => true
  | _ => true

/-- A tree in the dialect of the host is accepted. -/
def accepts (n : Node) : Bool :=
  let names := n.captures.filterMap Prod.snd
  escapesKnown n.pattern && names.all isGroupName && distinct names &&
    n.preorder.all rangeInOrder

end RegexKit.Linear
