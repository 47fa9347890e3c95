import RegexKit.Proofs.Walk.Scripted

/-! Pipelines of passes of any handlers. Each pass walks over the tree that the one before left,
its handlers with a state of their own. Rules in order and scripted passes in order are such
pipelines. -/

namespace RegexKit

open Walk

/-- A pass with the state that its handlers begin with, and the depth at which its walk over a tree
ends without a result. -/
structure Stage where
  {σ : Type}
  pass : Pass σ
  state : σ
  limit : Node → Nat

namespace Stage

/-- The tree and the sums after a pass. -/
def run? (s : Stage) (done : Node × PipelineStats) : Option (Node × PipelineStats) :=
  (Walk.run? (s.limit done.1) s.pass.handlers done.1 s.state).map fun o =>
    (o.tree, done.2.add o.stats)

/-- The tree and the sums after passes in order. -/
def runAll? : List Stage → Node × PipelineStats → Option (Node × PipelineStats)
  | [], done => some done
  | s :: ss, done => (s.run? done).bind (runAll? ss)

theorem runAll?_append (ss ss' : List Stage) (done : Node × PipelineStats) :
    runAll? (ss ++ ss') done = (runAll? ss done).bind (runAll? ss') := by
  induction ss generalizing done with
  | nil => rfl
  | cons s ss ih =>
    rw [List.cons_append, runAll?, runAll?, Option.bind_assoc]
    exact Option.bind_congr fun done' _ => ih done'

end Stage

/-! ### Rules -/

namespace Rule

def stage (r : Rule) : Stage := ⟨r, (), Node.height⟩

/-- Rules in order are passes in order. -/
theorem runAll_of_stages {rules : List Rule} {n : Node} {done : Node × PipelineStats}
    (h : Stage.runAll? (rules.map stage) (n, {}) = some done) : runAll rules n = done := by
  rw [runAll]
  generalize (n, ({} : PipelineStats)) = now at h ⊢
  induction rules generalizing now with
  | nil => exact Option.some.inj h
  | cons r rules ih =>
    rw [List.map_cons, Stage.runAll?] at h
    obtain ⟨next, hnext, hdone⟩ := Option.bind_eq_some_iff.1 h
    obtain ⟨o, ho, rfl⟩ := Option.map_eq_some_iff.1 hnext
    have hrun : r.run now.1 = (o.tree, o.stats) := by
      have ho' : Walk.run? now.1.height r.handlers now.1 () = some o := ho
      rw [run, ho']
    rw [List.foldl_cons]
    dsimp only
    rw [hrun]
    exact ih _ hdone

end Rule

/-! ### Scripts -/

namespace ScriptPass

def stage (p : ScriptPass) : Stage :=
  ⟨⟨p.name, Script.handlers p.scripts⟩, {}, fun _ => Script.depthLimit⟩

/-- What a scripted walk that does not fail leaves. -/
theorem run?_stage {p : ScriptPass} {done : Node × PipelineStats} {r : Script.Result}
    (h : Script.run p.scripts done.1 = .ok r) :
    p.stage.run? done = some (r.tree, done.2.add r.stats) := by
  obtain ⟨o, ho, -, rfl⟩ := Script.run_eq_ok_iff.1 h
  have ho' : Walk.run? (p.stage.limit done.1) p.stage.pass.handlers done.1 p.stage.state =
    some o := ho
  rw [Stage.run?, ho']
  rfl

/-- Scripted passes in order are passes in order. -/
theorem runAll?_of_runAll {passes : List ScriptPass} {n : Node} {r : Result}
    (h : runAll passes n = .ok r) :
    Stage.runAll? (passes.map stage) (n, {}) = some (r.tree, r.stats) := by
  rw [runAll] at h
  change Stage.runAll? _ ((⟨n, {}, []⟩ : Result).tree, (⟨n, {}, []⟩ : Result).stats) = _
  generalize (⟨n, {}, []⟩ : Result) = now at h ⊢
  induction passes generalizing now with
  | nil =>
    cases h
    rfl
  | cons p passes ih =>
    rw [List.foldlM_cons] at h
    cases hrun : Script.run p.scripts now.tree with
    | error e =>
      rw [hrun] at h
      cases h
    | ok next =>
      have hstage : p.stage.run? (now.tree, now.stats) =
          some (next.tree, now.stats.add next.stats) := run?_stage hrun
      rw [hrun] at h
      rw [List.map_cons, Stage.runAll?, hstage]
      exact ih _ h

end ScriptPass

end RegexKit
