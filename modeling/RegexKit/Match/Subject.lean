import RegexKit.Match.Reading

/-! An input under a reading, and the conditions on its positions. Positions count
characters; the last one stands behind the input. -/

namespace RegexKit.Match

/-- The input and how it is read. -/
structure Subject where
  input : Text
  reading : Reading

namespace Subject

def charAt? (s : Subject) (i : Nat) : Option Char := s.input[i]?

def before? (s : Subject) (i : Nat) : Option Char := if i = 0 then none else s.input[i - 1]?

/-- There is a word character on exactly one side. -/
def atWordBoundary (s : Subject) (i : Nat) : Bool :=
  (s.before? i).any s.reading.isWord != (s.charAt? i).any s.reading.isWord

def holds (s : Subject) (kind : AssertionKind) (i : Nat) : Bool :=
  match kind with
  | .start => i == 0 || (s.reading.multiline && s.before? i == some '\n')
  | .finish => i == s.input.length || (s.reading.multiline && s.charAt? i == some '\n')
  | .wordBoundary => s.atWordBoundary i
  | .nonWordBoundary => !s.atWordBoundary i

/-- The character at a position is one that the node accepts. -/
def accepts (s : Subject) (n : Node) (i : Nat) : Bool :=
  (s.charAt? i).any (s.reading.accepts n)

end Subject

end RegexKit.Match
