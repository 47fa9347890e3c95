import RegexKit.Node.Printer
import RegexKit.Walk.Pipeline

/-! Handlers written as data. A script says on which visits it is called and lists actions
with conditions; the conditions look at what the handler saw when it was called, and the
actions whose conditions hold are carried out in order. Each call is noted as an event. A
node that cannot be printed ends the walk, and its bounds are the result. -/

namespace RegexKit

open Walk

/-- What a scripted handler does. -/
inductive Deed
  | skip
  | stop
  | remove
  | replace (n : Node)
  | replaceAndSkip (n : Node)
  | set (n : Node)
  deriving DecidableEq, Repr

def Deed.reply : Deed → Path → Reply
  | skip, p => p.skip
  | stop, p => p.stop
  | remove, p => p.remove
  | replace n, p => p.replace n
  | replaceAndSkip n, p => p.replaceAndSkip n
  | set n, p => p.set n

/-- What a handler sees when it is called: how often it was called before, the text of the
node, and where the node stands. -/
structure Sight where
  nth : Nat
  text : Text
  parent : Option NodeType
  slot : Slot
  deriving DecidableEq, Repr

/-- Conditions on what a handler sees; those that are absent hold. -/
structure Condition where
  nth : Option Nat := none
  text : Option Text := none
  /-- The kind of the parent, or that there is none. -/
  parent : Option (Option NodeType) := none
  slot : Option Slot := none
  deriving DecidableEq, Repr

def Condition.holds (k : Condition) (s : Sight) : Bool :=
  k.nth.all (· == s.nth) && k.text.all (· == s.text) && k.parent.all (· == s.parent) &&
    k.slot.all (· == s.slot)

structure Action where
  condition : Condition := {}
  deed : Deed
  deriving DecidableEq, Repr

/-- A scripted handler, for a kind of node or for any kind. -/
structure Script where
  phase : Phase
  type : Option NodeType
  actions : List Action
  deriving DecidableEq, Repr

/-- The note of one call, with the signals as the handler left them. -/
structure Event where
  handler : Nat
  type : NodeType
  text : Text
  slot : Slot
  ancestors : List NodeType
  removed : Bool
  stopped : Bool
  deriving DecidableEq, Repr

/-- The events noted, latest first, and the bounds that could not be printed, if any. -/
structure Log where
  events : List Event := []
  failure : Option BoundsError := none
  deriving DecidableEq, Repr

namespace Script

/-- Carries out the actions whose conditions hold. -/
def perform (actions : List Action) (s : Sight) (p : Path) : Path :=
  actions.foldl (fun p a => if a.condition.holds s then p.apply (a.deed.reply p) else p) p

/-- The handler of the script with the number `i`. -/
def handler (i : Nat) (script : Script) : Handler Log := fun p log =>
  match p.node.render with
  | .error e => (p.stop, { log with failure := some e })
  | .ok text =>
    let nth := log.events.countP fun e => e.handler == i
    let q := perform script.actions ⟨nth, text, p.parent?, p.slot⟩ p
    let event : Event :=
      ⟨i, p.node.type, text, p.slot, p.ancestors, q.signals.removed, q.signals.stop⟩
    (⟨q.node, q.signals⟩, { log with events := event :: log.events })

/-- Registers scripts in order, numbered from `i` on. -/
def register (h : Handlers Log) (i : Nat) : List Script → Handlers Log
  | [] => h
  | s :: ss => register (h.on s.type s.phase (s.handler i)) (i + 1) ss

/-- The handlers of a list of scripts. -/
def handlers (scripts : List Script) : Handlers Log := register {} 0 scripts

/-- Scripted walks end at this depth. -/
def depthLimit : Nat := 10000

/-- Why a scripted walk has no result. -/
inductive Failure
  | bounds (e : BoundsError)
  | tooDeep
  deriving DecidableEq, Repr

/-- What a scripted walk leaves. -/
structure Result where
  tree : Node
  stats : Stats
  events : List Event
  deriving DecidableEq, Repr

/-- Walks over a tree with scripted handlers. -/
def run (scripts : List Script) (n : Node) : Except Failure Result :=
  match Walk.run? depthLimit (handlers scripts) n {} with
  | none => .error .tooDeep
  | some o =>
    match o.state.failure with
    | some e => .error (.bounds e)
    | none => .ok ⟨o.tree, o.stats, o.state.events.reverse⟩

end Script

/-! ### Pipelines -/

/-- A named list of scripts. -/
structure ScriptPass where
  name : String
  scripts : List Script
  deriving DecidableEq, Repr

namespace ScriptPass

/-- What a scripted pipeline leaves: the tree, the sums and the events of all passes. -/
structure Result where
  tree : Node
  stats : PipelineStats
  events : List Event
  deriving DecidableEq, Repr

/-- Runs passes in order. -/
def runAll : List ScriptPass → Node → Except Script.Failure Result
  | passes, n => passes.foldlM (fun done pass => do
      let now ← Script.run pass.scripts done.tree
      return ⟨now.tree, done.stats.add now.stats, done.events ++ now.events⟩) ⟨n, {}, []⟩

end ScriptPass

end RegexKit
