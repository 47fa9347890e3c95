import RegexKit.Node

/-! Where a walk stands. A path is a node with its slot under its parent and the kinds of
its ancestors. A handler answers a path with the node that is to stand there from now on
and with signals to the walk. -/

namespace RegexKit

/-- The place of a node under its parent. -/
inductive Slot
  | root
  /-- The body of a root. -/
  | body
  /-- The expression of a group or a repetition. -/
  | expression
  /-- A position in the list of a sequence, a choice or a class. -/
  | index (i : Nat)
  deriving DecidableEq, Repr

/-- The two visits to a node: before its children and after them. -/
inductive Phase
  | enter
  | exit
  deriving DecidableEq, Repr

/-- What handlers tell the walk. -/
structure Signals where
  replaced : Bool := false
  removed : Bool := false
  skip : Bool := false
  stop : Bool := false
  deriving DecidableEq, Repr

/-- Signals once given stay given. -/
def Signals.or (a b : Signals) : Signals :=
  ⟨a.replaced || b.replaced, a.removed || b.removed, a.skip || b.skip, a.stop || b.stop⟩

@[simp] theorem Signals.none_or (a : Signals) : Signals.or {} a = a := by
  simp [Signals.or]

@[simp] theorem Signals.or_none (a : Signals) : a.or {} = a := by
  simp [Signals.or]

/-- The node that a handler is called on, and where it stands. -/
structure Path where
  node : Node
  slot : Slot
  /-- The kinds of the nodes above, from the root down to the parent. -/
  ancestors : List NodeType
  signals : Signals := {}
  deriving DecidableEq, Repr

/-- The answer of a handler: the node that stands in the slot afterwards, and signals. -/
structure Reply where
  node : Node
  signals : Signals := {}
  deriving DecidableEq, Repr

namespace Path

def parent? (p : Path) : Option NodeType := p.ancestors.getLast?

def depth (p : Path) : Nat := p.ancestors.length

/-- The path after an answer. -/
def apply (p : Path) (r : Reply) : Path :=
  { p with node := r.node, signals := p.signals.or r.signals }

/-! ### Answers -/

/-- Leaves everything as it is. -/
def keep (p : Path) : Reply := ⟨p.node, {}⟩

/-- Puts another node into the slot; the walk goes on with its children. -/
def replace (_ : Path) (n : Node) : Reply := ⟨n, { replaced := true }⟩

/-- Puts another node into the slot and passes over its children. -/
def replaceAndSkip (_ : Path) (n : Node) : Reply := ⟨n, { replaced := true, skip := true }⟩

/-- Puts another node into the slot without telling the walk. -/
def set (_ : Path) (n : Node) : Reply := ⟨n, {}⟩

/-- Takes the node out of the tree. -/
def remove (p : Path) : Reply := ⟨p.node, { removed := true }⟩

/-- Passes over the children of the node. -/
def skip (p : Path) : Reply := ⟨p.node, { skip := true }⟩

/-- Ends the walk. -/
def stop (p : Path) : Reply := ⟨p.node, { stop := true }⟩

@[simp] theorem apply_keep (p : Path) : p.apply p.keep = p := by simp [apply, keep]

end Path

end RegexKit
