import RegexKit.Error
import RegexKit.Linear.Engine
import RegexKit.Node.Json
import RegexKit.Optimizer
import RegexKit.Optimizer.Json
import RegexKit.Walk.Script

/-! Operations on a tree, and sessions of them. An operation answers and leaves a tree
behind; one that fails leaves the tree as it was, and the session goes on. -/

namespace RegexKit

/-! ### Failures -/

/-- Why a request has no answer. -/
inductive Failure
  | source (e : SourceError)
  | matcher (e : Host.MatcherError)
  | zeroIterationFactor
  /-- A tree that cannot be printed. -/
  | bounds (e : BoundsError)
  /-- New flags for a tree that is no root. -/
  | notARoot
  /-- A tree that cannot be read. -/
  | unreadableTree
  /-- Options that cannot be read. -/
  | unreadableOptions
  /-- A walk that met its limit. -/
  | tooDeep
  deriving DecidableEq, Repr

namespace Failure

def message? : Failure → Option String
  | source e => some e.message
  | matcher e => e.message?
  | zeroIterationFactor => some "iteration factor must be greater than zero"
  | bounds e => some e.message
  | notARoot | unreadableTree | unreadableOptions | tooDeep => none

def offset? : Failure → Option Nat
  | source e => e.offset?
  | _ => none

/-- A tree that cannot be printed fails alike in every operation. -/
def ofMatcher : Host.MatcherError → Failure
  | .bounds e => bounds e
  | e => matcher e

def ofScript : Script.Failure → Failure
  | .bounds e => bounds e
  | .tooDeep => tooDeep

end Failure

/-! ### Trees and their texts -/

/-- How the tree of a request is given. -/
inductive TreeSource
  | tree (j : Json)
  | parts (body flags : Text)
  | delimited (source : Text)
  deriving Repr

namespace TreeSource

/-- The tree. -/
def load : TreeSource → Except Failure Node
  | tree j =>
    match Node.ofJson? j with
    | some n => .ok n
    | none => .error .unreadableTree
  | parts body flags => (Source.parseWithFlags body flags).mapError .source
  | delimited source => (Source.parse source).mapError .source

end TreeSource

/-- A tree with its texts: the full text, and pattern and flags apart. -/
structure Printed where
  tree : Node
  text : Text
  pattern : Text
  flags : Text
  deriving DecidableEq, Repr

/-- Prints a tree. -/
def Printed.of (n : Node) : Except Failure Printed := do
  let text ← n.render.mapError .bounds
  return ⟨n, text, n.pattern, n.flags.text⟩

/-- Optimizes a tree. Options without any rounds are refused. -/
def optimize (o : Optimizer.Options) (n : Node) : Except Failure Node :=
  if o.isInvalid then .error .zeroIterationFactor else .ok (Optimizer.optimizeTree o n).1

/-- Optimizes a delimited source; the options are looked at first. -/
def optimizeSource (o : Optimizer.Options) (source : Text) : Except Failure Printed := do
  if o.isInvalid then throw .zeroIterationFactor
  let n ← (Source.parse source).mapError .source
  Printed.of (← optimize o n)

/-- Runs scripted passes over a delimited source. -/
def transformSource (passes : List ScriptPass) (source : Text) : Except Failure Printed := do
  let n ← (Source.parse source).mapError .source
  let done ← (ScriptPass.runAll passes n).mapError .ofScript
  Printed.of done.tree

/-- Parses and compiles a delimited source. -/
def toMatcher (source : Text) (engine : Host.Engine := Linear.engine) :
    Except Failure Host.Matcher := do
  let n ← (Source.parse source).mapError .source
  (Host.compile engine n).mapError .ofMatcher

/-! ### Operations -/

/-- An operation on a tree. -/
inductive Command
  | describe
  | generate
  | reparse
  | inspect
  | setFlags (flags : Text)
  | optimize (options : Optimizer.Options)
  | traverse (scripts : List Script)
  | pipeline (passes : List ScriptPass)
  | compile
  | find (haystacks : List Text)
  deriving Repr

/-- What `inspect` says of a node. -/
structure NodeFacts where
  type : NodeType
  children : Nat
  count : Nat
  hasCapture : Bool
  isEmptyAlternative : Bool
  deriving DecidableEq, Repr

def NodeFacts.of (n : Node) : NodeFacts :=
  ⟨n.type, n.children.length, n.count, n.hasCapture, n.isEmptyAlternative⟩

/-- What searches in one haystack find. -/
structure Findings where
  isMatch : Bool
  first : Option (Nat × Nat)
  fromEach : List (Option (Nat × Nat))
  deriving DecidableEq, Repr

/-- The answer of an operation. -/
inductive Answer
  | described (tree : Node) (count : Nat) (captures : Option (List (Nat × Option Text)))
  | generated (p : Printed)
  | reparsed (text : Text) (count : Nat)
  | inspected (nodes : List NodeFacts) (captures : Option (List (Nat × Option Text)))
  | flagsSet (text : Text)
  | optimized (p : Printed) (report : Optimizer.Report) (same : Bool)
  | traversed (handled : List NodeType) (isEmpty : Bool) (result : Script.Result) (text : Text)
  | piped (names : List String) (result : ScriptPass.Result) (text : Text)
  | compiled (m : Host.Matcher)
  | found (results : List Findings)
  deriving Repr

namespace Command

/-- The answer and the tree left behind. -/
def run (c : Command) (n : Node) (engine : Host.Engine := Linear.engine) :
    Except Failure (Answer × Node) :=
  match c with
  | describe => .ok (.described n n.count n.captureGroups?, n)
  | generate => do
    let p ← Printed.of n
    return (.generated p, n)
  | reparse => do
    let text ← n.render.mapError .bounds
    let m ← (Source.parse text).mapError .source
    return (.reparsed (← m.render.mapError .bounds) m.count, m)
  | inspect => .ok (.inspected (n.preorder.map .of) n.captureGroups?, n)
  | setFlags t => do
    let flags ← (Flags.parse t).mapError fun e => .source (.flag e)
    match n with
    | .regExp body _ =>
      let m := .regExp body flags
      return (.flagsSet (← m.render.mapError .bounds), m)
    | _ => throw .notARoot
  | optimize o => do
    let copy ← RegexKit.optimize o n
    let (m, report) := Optimizer.optimizeTree o n
    let p ← Printed.of copy
    return (.optimized p report (copy == m), m)
  | traverse scripts => do
    let h := Script.handlers scripts
    let r ← (Script.run scripts n).mapError .ofScript
    let text ← r.tree.render.mapError .bounds
    return (.traversed h.handled h.isEmpty r text, r.tree)
  | pipeline passes => do
    let r ← (ScriptPass.runAll passes n).mapError .ofScript
    let text ← r.tree.render.mapError .bounds
    return (.piped (passes.map (·.name)) r text, r.tree)
  | compile => do
    let m ← (Host.compile engine n).mapError .ofMatcher
    return (.compiled m, n)
  | find haystacks => do
    let m ← (Host.compile engine n).mapError .ofMatcher
    return (.found (haystacks.map fun h =>
      ⟨m.isMatch engine h, m.find engine h, m.findAll engine h⟩), n)

end Command

/-! ### Sessions -/

namespace Session

/-- The answer to a step and the tree that it leaves. A step that could not be read fails as
it says, and one that fails leaves the tree as it was. -/
def step (engine : Host.Engine) (n : Node) (s : Except Failure Command) :
    Except Failure Answer × Node :=
  match s.bind fun c => c.run n engine with
  | .ok (answer, m) => (.ok answer, m)
  | .error e => (.error e, n)

/-- The answers to steps in order, each on the tree that the one before left. -/
def run (engine : Host.Engine) (n : Node) :
    List (Except Failure Command) → List (Except Failure Answer)
  | [] => []
  | s :: steps =>
    let now := step engine n s
    now.1 :: run engine now.2 steps

/-- The tree that steps leave. -/
def finish (engine : Host.Engine) (n : Node) (steps : List (Except Failure Command)) : Node :=
  steps.foldl (fun m s => (step engine m s).2) n

/-- The text of the initial tree and the answers. -/
def start (source : TreeSource) (steps : List (Except Failure Command))
    (engine : Host.Engine := Linear.engine) :
    Except Failure (Text × List (Except Failure Answer)) := do
  let n ← source.load
  let text ← n.render.mapError .bounds
  return (text, run engine n steps)

end Session

end RegexKit
