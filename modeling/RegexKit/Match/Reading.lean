import RegexKit.Node.Printer

/-! What single characters of a pattern match. A character with a code point matches that
code point; one without, such as `\s`, is a predicate fixed by its text. A reading says
what these predicates are, which characters count as the same, which belong to words and
whether lines have ends of their own. -/

namespace RegexKit

/-- How the characters and conditions of a pattern are read. -/
structure Reading where
  /-- The characters that an escape without a code point matches, by its text. -/
  escape : Text → Char → Bool
  /-- The characters that count as the same as a character, itself included. -/
  variants : Char → List Char := fun c => [c]
  isWord : Char → Bool
  /-- The assertions of start and end hold also at the ends of lines. -/
  multiline : Bool := false

namespace Reading

/-- A pattern character matches exactly this character. -/
def charAccepts (r : Reading) (p : PatternChar) (c : Char) : Bool :=
  match p.codePoint? with
  | some n => c.toNat == n
  | none => r.escape p.value c

/-- A member of a class matches exactly this character. -/
def memberAccepts (r : Reading) (m : Node) (c : Char) : Bool :=
  match m with
  | .char p => r.charAccepts p c
  | .classRange low high =>
    match low.codePoint?, high.codePoint? with
    | some x, some y => x ≤ c.toNat && c.toNat ≤ y
    | _, _ => r.escape (Node.rangeText low high) c
  | n => r.escape n.text c

/-- A class matches a character when a member matches one of its variants, or when none
does and the class is negated. -/
def classAccepts (r : Reading) (negated : Bool) (ms : List Node) (c : Char) : Bool :=
  (r.variants c).any (fun d => ms.any fun m => r.memberAccepts m d) != negated

/-- A node that stands for one character matches a character or one of its variants; other
nodes match none. -/
def accepts (r : Reading) (n : Node) (c : Char) : Bool :=
  match n with
  | .char p => (r.variants c).any (r.charAccepts p)
  | .charClass negated ms => r.classAccepts negated ms c
  | .classRange _ _ => (r.variants c).any (r.memberAccepts n)
  | _ => false

end Reading

end RegexKit
