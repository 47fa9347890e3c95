import RegexKit.Optimizer.Options
import RegexKit.Optimizer.Degenerate
import RegexKit.Optimizer.Fusion
import RegexKit.Optimizer.Ungroup
import RegexKit.Optimizer.ClassRanges

/-! The optimizer. The enabled rules run in rounds, in a fixed order, until a whole round
changes nothing or the rounds allowed for the tree are used up. Fusion comes before
ungrouping, so that it still sees two equal groups. -/

namespace RegexKit.Optimizer

/-- The enabled rules in order. -/
def rules (o : Options) (flags : Flags) : List Rule :=
  (if o.removeDegenerateQuantifiers then [Degenerate.rule] else []) ++
  (if o.quantifierFusion then [Fusion.rule] else []) ++
  (if o.ungroup then [Ungroup.rule] else []) ++
  (if o.normalizeClassRanges then [ClassRanges.rule flags] else [])

/-- What the rounds came to. -/
structure Report where
  rounds : Nat
  mutations : Nat
  reachedFixpoint : Bool
  iterationCap : Nat
  deriving DecidableEq, Repr

/-- Runs at most `cap` rounds: the tree, the rounds, the mutations, and whether the last
round changed nothing. -/
def runRounds (rs : List Rule) : Nat → Node → Node × Nat × Nat × Bool
  | 0, n => (n, 0, 0, false)
  | cap + 1, n =>
    let (m, stats) := Rule.runAll rs n
    if stats.mutations = 0 then (m, 1, 0, true)
    else
      let (m, rounds, mutations, done) := runRounds rs cap m
      (m, rounds + 1, stats.mutations + mutations, done)

/-- The optimized tree and a report. Without any rule there is nothing to run. -/
def optimizeTree (o : Options) (n : Node) : Node × Report :=
  let cap := o.iterationCap n.count
  let rs := rules o n.flags
  if rs.isEmpty then (n, ⟨0, 0, true, cap⟩)
  else
    let (m, rounds, mutations, done) := runRounds rs cap n
    (m, ⟨rounds, mutations, done, cap⟩)

end RegexKit.Optimizer
