import RegexKit.Text.Numeral

/-! Options of the optimizer: a switch for each rule and the number of rounds allowed for
each node of the tree. -/

namespace RegexKit.Optimizer

structure Options where
  quantifierFusion : Bool := true
  removeDegenerateQuantifiers : Bool := true
  normalizeClassRanges : Bool := true
  ungroup : Bool := true
  iterationFactor : Nat := 4
  deriving DecidableEq, Repr

namespace Options

/-- All rules switched off. -/
def none : Options := ⟨false, false, false, false, 4⟩

/-- The iteration factor allows no round at all. -/
def isInvalid (o : Options) : Bool := o.iterationFactor == 0

/-- The rounds allowed for a tree of `count` nodes: at least one, and at most what a 64-bit
word holds. -/
def iterationCap (o : Options) (count : Nat) : Nat :=
  max 1 (min (o.iterationFactor * count) Numeral.max64)

theorem iterationCap_pos (o : Options) (count : Nat) : 0 < o.iterationCap count :=
  Nat.lt_of_lt_of_le Nat.one_pos (Nat.le_max_left _ _)

end Options

end RegexKit.Optimizer
