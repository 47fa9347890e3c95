import RegexKit.Walk

/-! Passes and pipelines. A pass is a named set of handlers, run as one walk; a pipeline
runs its passes in order, each over the tree that the one before left. A stop ends the
current pass only. A rule is a pass whose handlers have no state and never lead the walk
into what they put in place, so the height of the tree bounds its depth. -/

namespace RegexKit

open Walk

/-- A named set of handlers. -/
structure Pass (σ : Type) where
  name : String
  handlers : Handlers σ

/-- The sums over the passes of a pipeline. -/
structure PipelineStats where
  passes : Nat := 0
  mutations : Nat := 0
  /-- Passes that were ended by a stop. -/
  stopped : Nat := 0
  deriving DecidableEq, Repr

/-- Adds a pass to the sums. -/
def PipelineStats.add (t : PipelineStats) (s : Stats) : PipelineStats :=
  ⟨t.passes + 1, t.mutations + s.mutations, t.stopped + if s.stopped then 1 else 0⟩

/-! ### Rules -/

/-- A pass without state. -/
abbrev Rule := Pass Unit

namespace Rule

/-- The tree and the counts after a rule. -/
def run (r : Rule) (n : Node) : Node × Stats :=
  match Walk.run? n.height r.handlers n () with
  | some o => (o.tree, o.stats)
  | none => (n, {})

/-- The tree and the sums after rules in order. -/
def runAll (rules : List Rule) (n : Node) : Node × PipelineStats :=
  rules.foldl (fun done r =>
    let now := r.run done.1
    (now.1, done.2.add now.2)) (n, {})

@[simp] theorem runAll_nil (n : Node) : runAll [] n = (n, {}) := rfl

end Rule

end RegexKit
