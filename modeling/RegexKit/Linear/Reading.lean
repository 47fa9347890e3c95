import RegexKit.Linear.Characters
import RegexKit.Match.Reading
import RegexKit.Text.Alphabetic
import RegexKit.Text.Number

/-! How the engine reads a pattern in the dialect of the host. The dot matches every character,
since it is left only where it does; class escapes and properties follow the character tables;
under the flag `i` letters that differ only in case count as the same. -/

namespace RegexKit.Linear

/-! ### Case -/

/-- The two characters outside ASCII that count as the same as a letter. -/
def foldedLetters : List (Char × Char) := [('\u017F', 's'), ('\u212A', 'k')]

/-- The letters that differ only in case; letters outside ASCII stand for themselves. -/
def caseVariants (c : Char) : List Char :=
  let base := ((foldedLetters.lookup c).getD c).toLower
  [c, base, base.toUpper] ++ (foldedLetters.filter (·.2 == base)).map Prod.fst

/-! ### Classes -/

/-- The characters of a property by its name. -/
def propertyAccepts (name : Text) (c : Char) : Bool :=
  match String.ofList name with
  | "L" => CodePoints.contain Characters.letter c
  | "Lu" => CodePoints.contain Characters.upperCaseLetter c
  | "Nd" => CodePoints.contain Characters.decimalNumber c
  | "Script=Greek" => CodePoints.contain Characters.greek c
  | _ => false

/-- The characters of a class escape. The complement of a property holds the characters none
of whose variants has the property. -/
def escapeAccepts (variants : Char → List Char) (t : Text) (c : Char) : Bool :=
  match t with
  | ['.'] => true
  | ['\\', 's'] => CodePoints.contain Characters.whiteSpace c
  | ['\\', 'S'] => !CodePoints.contain Characters.whiteSpace c
  | '\\' :: 'p' :: '\x7b' :: name => propertyAccepts name.dropLast c
  | '\\' :: 'P' :: '\x7b' :: name => !(variants c).any (propertyAccepts name.dropLast)
  | _ => false

/-- Letters, numbers and the underscore. -/
def isWord (c : Char) : Bool := CodePoints.isAlphabetic c || CodePoints.isNumber c || c = '_'

/-- The characters that count as the same under the flags. -/
def variants (flags : Flags) (c : Char) : List Char :=
  if flags.ignoreCase then caseVariants c else [c]

/-- How a pattern in the dialect of the host is read. -/
def reading (flags : Flags) : Reading where
  escape := escapeAccepts (variants flags)
  variants := variants flags
  isWord := isWord
  multiline := flags.multiline

end RegexKit.Linear
