import RegexKit.Linear.NormalForm

/-! Automata. The states of an automaton are numbered; a state goes on to other states in
an order of preference. An automaton is built from its end: the states of a node are put in
front of the state where matching goes on after the node. Every copy that a repetition
asks for has states of its own; only an unbounded repetition leads back to earlier ones. -/

namespace RegexKit.Linear

/-- What a state does, and the states it goes on to. -/
inductive State
  /-- The end of a match. -/
  | accept
  /-- Consumes a character that the node accepts. -/
  | one (n : Node) (next : Nat)
  /-- Goes on where the condition holds. -/
  | condition (kind : AssertionKind) (next : Nat)
  /-- Goes on to any of the states, the first ones first. -/
  | fork (nexts : List Nat)
  deriving Repr

/-- States by number, with the one to begin in. -/
structure Automaton where
  states : Array State
  entry : Nat
  deriving Repr

namespace Automaton

/-! ### Parts -/

/-- Begins in a new state. -/
def push (a : Automaton) (s : State) : Automaton :=
  let entry := a.states.size
  ⟨a.states.push s, entry⟩

/-- Prefers to go inside when greedy, and to go on when lazy. -/
def optional (greedy : Bool) (inside on : Nat) : State :=
  .fork (if greedy then [inside, on] else [on, inside])

/-- Up to `n` copies of a part. -/
def upTo (part : Automaton → Automaton) (greedy : Bool) (n : Nat) (a : Automaton) : Automaton :=
  let on := a.entry
  Nat.repeat (fun b =>
    let inside := part b
    let entry := inside.entry
    inside.push (optional greedy entry on)) n a

/-- One copy of a part that can be entered again behind its end. The state that decides
about it comes first of the new ones. -/
def loop (part : Automaton → Automaton) (greedy : Bool) (a : Automaton) : Automaton :=
  let hub := a.states.size
  let on := a.entry
  let inside := part (a.push (.fork []))
  let entry := inside.entry
  ⟨inside.states.setIfInBounds hub (optional greedy entry on), entry⟩

/-- Any number of copies of a part. The deciding state serves as the entry when every copy
consumes; otherwise the first decision is one of its own. -/
def star (part : Automaton → Automaton) (consumes greedy : Bool) (a : Automaton) : Automaton :=
  let hub := a.states.size
  let on := a.entry
  let l := loop part greedy a
  if consumes then ⟨l.states, hub⟩
  else
    let inside := l.entry
    l.push (optional greedy inside on)

/-- Between `least` and `most` copies of a part. -/
def repeated (part : Automaton → Automaton) (consumes : Bool) (least : Nat)
    (most : Option Nat) (greedy : Bool) (a : Automaton) : Automaton :=
  match most, least with
  | some m, k => Nat.repeat part k (upTo part greedy (m - k) a)
  | none, 0 => star part consumes greedy a
  | none, k + 1 => Nat.repeat part k (loop part greedy a)

/-! ### Trees -/

mutual

/-- The states of a node in front of the entry. The host has no lookaround and no
backreferences, so these lead nowhere. -/
def before : Node → Automaton → Automaton
  | .regExp b _, a => before b a
  | .alternative es, a => beforeAll es a
  | .disjunction bs, a =>
    let on := a.entry
    let r := beforeEach bs a
    push ⟨r.1, on⟩ (.fork r.2)
  | .group kind e, a => if kind.isLookaround then a.push (.fork []) else before e a
  | .backreference _ _, a => a.push (.fork [])
  | .assertion kind, a => a.push (.condition kind a.entry)
  | .char c, a => a.push (.one (.char c) a.entry)
  | .charClass negated ms, a => a.push (.one (.charClass negated ms) a.entry)
  | .classRange low high, a => a.push (.one (.classRange low high) a.entry)
  | .repetition e least most greedy, a =>
    repeated (before e) (consumes e) least most greedy a

/-- The states of all nodes in front of the entry, one node after the other. -/
def beforeAll : List Node → Automaton → Automaton
  | [], a => a
  | n :: ns, a => before n (beforeAll ns a)

/-- The states of each node in front of the same entry, with the states where the nodes
begin. -/
def beforeEach : List Node → Automaton → Array State × List Nat
  | [], a => (a.states, [])
  | n :: ns, a =>
    let on := a.entry
    let first := before n a
    let entry := first.entry
    let rest := beforeEach ns ⟨first.states, on⟩
    (rest.1, entry :: rest.2)

end

/-- The automaton of a tree. -/
def ofNode (n : Node) : Automaton := before (normalForm n) ⟨#[.accept], 0⟩

end Automaton

end RegexKit.Linear
