import RegexKit.Node.Measure
import RegexKit.Walk.Handlers

/-! The walk over a tree. Each node is entered, then its children are visited in order, then
it is left. A removed child of a list closes the gap; a removed single child leaves an
empty alternative; the removal of the root is ignored. A stop ends the walk at once and
wins over a removal. Replacements may make the tree deeper without end, so a walk has a
limit on its depth and no result when it meets the limit. -/

namespace RegexKit

namespace Walk

/-- What a walk has counted. -/
structure Stats where
  /-- Visits begun. -/
  entered : Nat := 0
  /-- Replacements and removals. -/
  mutations : Nat := 0
  stopped : Bool := false
  deriving DecidableEq, Repr

/-- How a walk goes on after a visit. -/
inductive Flow
  | kept
  | removed
  | stopped
  deriving DecidableEq, Repr

variable {σ : Type}

/-- The state of the handlers and the counts. -/
structure Progress (σ : Type) where
  state : σ
  stats : Stats := {}
  deriving DecidableEq, Repr

namespace Progress

/-- Counts a visit. -/
def enter (p : Progress σ) : Progress σ :=
  { p with stats := { p.stats with entered := p.stats.entered + 1 } }

/-- Counts a replacement or a removal. -/
def mutate (p : Progress σ) : Progress σ :=
  { p with stats := { p.stats with mutations := p.stats.mutations + 1 } }

/-- Notes that a handler stopped the walk. -/
def halt (p : Progress σ) : Progress σ := { p with stats := { p.stats with stopped := true } }

end Progress

/-- A node after a visit. -/
structure Visit (σ : Type) where
  node : Node
  flow : Flow
  progress : Progress σ
  deriving DecidableEq, Repr

/-- A visitor of the children of one node: slot, child and progress. -/
abbrev VisitChild (σ : Type) := Slot → Node → Progress σ → Option (Visit σ)

/-! ### Dispatch -/

/-- Calls the handlers of a phase; the node, the signals and the progress afterwards. -/
def dispatch (h : Handlers σ) (phase : Phase) (ancestors : List NodeType) (slot : Slot)
    (n : Node) (p : Progress σ) : Node × Signals × Progress σ :=
  if h.has n.type phase then
    let (path, state) := h.call n.type phase { node := n, slot, ancestors } p.state
    let p := { p with state }
    (path.node, path.signals, if path.signals.replaced then p.mutate else p)
  else (n, {}, p)

/-- What signals mean for a slot: a stop, a removal unless it is the root's, or nothing. -/
def verdict? (slot : Slot) (signals : Signals) : Option Flow :=
  if signals.stop then some .stopped
  else if signals.removed && slot != .root then some .removed
  else none

/-- Ends a visit with a verdict. -/
def conclude (n : Node) (flow : Flow) (p : Progress σ) : Visit σ :=
  ⟨n, flow, if flow = .stopped then p.halt else p⟩

/-- Leaves a node. -/
def leave (h : Handlers σ) (ancestors : List NodeType) (slot : Slot) (n : Node)
    (p : Progress σ) : Visit σ :=
  let (n, signals, p) := dispatch h .exit ancestors slot n p
  conclude n ((verdict? slot signals).getD .kept) p

/-! ### Children -/

/-- Children after their visits, and whether the walk was stopped among them. -/
structure Children (α σ : Type) where
  value : α
  stopped : Bool
  progress : Progress σ

/-- Puts the value into its context. -/
def Children.map {α β : Type} (f : α → β) (c : Children α σ) : Children β σ :=
  ⟨f c.value, c.stopped, c.progress⟩

/-- Visits an only child. -/
def visitSingle (visit : VisitChild σ) (slot : Slot) (n : Node) (p : Progress σ) :
    Option (Children Node σ) :=
  (visit slot n p).map fun v =>
    match v.flow with
    | .kept => ⟨v.node, false, v.progress⟩
    | .removed => ⟨.empty, false, v.progress.mutate⟩
    | .stopped => ⟨v.node, true, v.progress⟩

/-- Visits the children of a list from position `i` on. Positions count only the children
that stay. -/
def visitList (visit : VisitChild σ) (i : Nat) :
    List Node → Progress σ → Option (Children (List Node) σ)
  | [], p => some ⟨[], false, p⟩
  | n :: ns, p =>
    (visit (.index i) n p).bind fun v =>
      match v.flow with
      | .kept => (visitList visit (i + 1) ns v.progress).map (.map (v.node :: ·))
      | .removed => visitList visit i ns v.progress.mutate
      | .stopped => some ⟨v.node :: ns, true, v.progress⟩

/-- Visits the children of a node. -/
def visitChildren (visit : VisitChild σ) (n : Node) (p : Progress σ) :
    Option (Children Node σ) :=
  match n with
  | .regExp b flags => (visitSingle visit .body b p).map (.map (.regExp · flags))
  | .alternative es => (visitList visit 0 es p).map (.map .alternative)
  | .disjunction bs => (visitList visit 0 bs p).map (.map .disjunction)
  | .charClass negated ms => (visitList visit 0 ms p).map (.map (.charClass negated))
  | .group kind e => (visitSingle visit .expression e p).map (.map (.group kind))
  | .repetition e min max greedy =>
    (visitSingle visit .expression e p).map (.map (.repetition · min max greedy))
  | .backreference _ _ | .assertion _ | .char _ | .classRange _ _ => some ⟨n, false, p⟩

/-! ### Walks -/

/-- Visits a node and what is below it, at most `limit` levels deep. -/
def visit (h : Handlers σ) : Nat → List NodeType → VisitChild σ
  | 0, _ => fun _ _ _ => none
  | limit + 1, ancestors => fun slot n p =>
    let (n, signals, p) := dispatch h .enter ancestors slot n p.enter
    match verdict? slot signals with
    | some flow => some (conclude n flow p)
    | none =>
      if signals.skip then some (leave h ancestors slot n p)
      else
        (visitChildren (visit h limit (ancestors ++ [n.type])) n p).map fun c =>
          if c.stopped then ⟨c.value, .stopped, c.progress⟩
          else leave h ancestors slot c.value c.progress

/-- A tree after a walk. -/
structure Outcome (σ : Type) where
  tree : Node
  stats : Stats
  state : σ

/-- Walks over a tree, at most `limit` levels deep. -/
def run? (limit : Nat) (h : Handlers σ) (root : Node) (state : σ) : Option (Outcome σ) :=
  (visit h limit [] .root root { state }).map fun v =>
    ⟨v.node, v.progress.stats, v.progress.state⟩

end Walk

end RegexKit
