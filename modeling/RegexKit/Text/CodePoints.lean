import RegexKit.Text

/-! Sets of characters given by ranges of code points. The ranges of a property or category
are those of version 17.0 of the Unicode standard. -/

namespace RegexKit.CodePoints

/-- The code point of `c` lies in one of the ranges, ends included. -/
def contain (ranges : List (Nat × Nat)) (c : Char) : Bool :=
  ranges.any fun r => r.1 ≤ c.toNat && c.toNat ≤ r.2

end RegexKit.CodePoints
