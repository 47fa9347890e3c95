import RegexKit.Walk.Path

/-! Handlers of a walk, for entering and for leaving nodes of a kind or of any kind. The
handler for any kind is called first; the one for the node's own kind follows unless the
first removed the node, stopped the walk or put a node of another kind in its place. -/

namespace RegexKit

/-- A function of the path and of a state that it may change. -/
abbrev Handler (σ : Type) := Path → σ → Reply × σ

/-- The handlers of the two visits. -/
structure Visitor (σ : Type) where
  enter : Option (Handler σ) := none
  exit : Option (Handler σ) := none

namespace Visitor

variable {σ : Type}

def handler? (v : Visitor σ) : Phase → Option (Handler σ)
  | .enter => v.enter
  | .exit => v.exit

def set (v : Visitor σ) (phase : Phase) (f : Handler σ) : Visitor σ :=
  match phase with
  | .enter => { v with enter := some f }
  | .exit => { v with exit := some f }

def isEmpty (v : Visitor σ) : Bool := v.enter.isNone && v.exit.isNone

end Visitor

/-- The handlers for nodes of any kind and those for each kind. -/
structure Handlers (σ : Type) where
  any : Visitor σ := {}
  typed : NodeType → Visitor σ := fun _ => {}

namespace Handlers

variable {σ : Type}

/-- Registers a handler for a kind, or for any kind; an earlier one for the same visit
gives way. -/
def on (h : Handlers σ) (type : Option NodeType) (phase : Phase) (f : Handler σ) : Handlers σ :=
  match type with
  | none => { h with any := h.any.set phase f }
  | some k => { h with typed := fun k' => if k' = k then (h.typed k).set phase f else h.typed k' }

/-- There is a handler for nodes of the kind alone. -/
def handles (h : Handlers σ) (k : NodeType) : Bool := !(h.typed k).isEmpty

/-- The kinds that have handlers of their own. -/
def handled (h : Handlers σ) : List NodeType := NodeType.all.filter h.handles

def isEmpty (h : Handlers σ) : Bool := h.any.isEmpty && h.handled.isEmpty

/-- Some handler is called on nodes of the kind. -/
def has (h : Handlers σ) (k : NodeType) (phase : Phase) : Bool :=
  (h.any.handler? phase).isSome || ((h.typed k).handler? phase).isSome

/-- The path and the state after a handler, if there is one. -/
def callOne (f : Option (Handler σ)) (p : Path) (s : σ) : Path × σ :=
  match f with
  | none => (p, s)
  | some f => (p.apply (f p s).1, (f p s).2)

/-- Calls the handlers for a node that was of kind `k`. -/
def call (h : Handlers σ) (k : NodeType) (phase : Phase) (p : Path) (s : σ) : Path × σ :=
  let (p, s) := callOne (h.any.handler? phase) p s
  if p.signals.removed || p.signals.stop || p.node.type != k then (p, s)
  else callOne ((h.typed k).handler? phase) p s

end Handlers

end RegexKit
