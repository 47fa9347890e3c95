import RegexKit.Host.Dialect
import RegexKit.Node.Printer
import RegexKit.Source

/-! Patterns compiled for a host engine and run by it. The host has no lookaround and no
backreferences; a tree that holds one is refused with the position of the first of them. The
engine is given: what it accepts and what it finds is its own affair. A pattern with the
flag `y` has to match where the search starts, which is looked at here; `g` is only kept.
Places are reported in bytes. -/

namespace RegexKit.Host

/-- An engine for trees in the dialect of the host. Positions count characters. -/
structure Engine where
  /-- The pattern is built. -/
  accepts : Node → Bool
  /-- The first match at a position or behind it. -/
  search : Node → Text → Nat → Option (Nat × Nat)
  /-- There is a match in the text. -/
  holds : Node → Text → Bool

/-- What is documented of an engine: matches lie in the text at the start of the search or
behind it, and a text has a match when a search from its beginning finds one. -/
structure Engine.Lawful (e : Engine) : Prop where
  inside {n : Node} {input : Text} {start i j : Nat} :
    e.search n input start = some (i, j) → start ≤ i ∧ i ≤ j ∧ j ≤ input.length
  holds_eq (n : Node) (input : Text) : e.holds n input = (e.search n input 0).isSome

/-- What the host cannot do. -/
inductive Construct
  | lookaround
  | backreference
  deriving DecidableEq, Repr

/-- Why a tree is not compiled. -/
inductive MatcherError
  | notARoot (found : NodeType)
  | unsupported (construct : Construct) (index : Nat)
  /-- The host refuses the pattern in its dialect. -/
  | build
  /-- The tree cannot be printed. -/
  | bounds (e : BoundsError)
  deriving DecidableEq, Repr

/-! ### Support -/

/-- The construct that a node is, if the host lacks it. -/
def construct? : Node → Option Construct
  | .group kind _ => if kind.isLookaround then some .lookaround else none
  | .backreference _ _ => some .backreference
  | _ => none

/-- The nodes entered so far, and the first construct that the host lacks with its
position. -/
structure Scan where
  position : Nat := 0
  found : Option (Construct × Nat) := none
  deriving DecidableEq, Repr

/-- Stops at the first construct that the host lacks. -/
def scanning : Handlers Scan :=
  ({} : Handlers Scan).on none .enter fun p s =>
    match construct? p.node with
    | some c => (p.stop, ⟨s.position + 1, some (c, s.position)⟩)
    | none => (p.keep, { s with position := s.position + 1 })

/-- The first construct that the host lacks, with its position in preorder. -/
def firstUnsupported? (n : Node) : Option (Construct × Nat) :=
  (Walk.run? n.height scanning n {}).bind fun o => o.state.found

/-! ### Compiling -/

/-- A compiled pattern: its text, its flags, and its tree in the dialect of the host. -/
structure Matcher where
  source : Text
  flags : Flags
  host : Node
  deriving DecidableEq, Repr

namespace Matcher

/-- The pattern text as the host gets it. -/
def hostText (m : Matcher) : Text := m.host.pattern

/-- The pattern between slashes, with its flags. -/
def display (m : Matcher) : Text := '/' :: m.source ++ '/' :: m.flags.text

def isSticky (m : Matcher) : Bool := m.flags.sticky

def isGlobal (m : Matcher) : Bool := m.flags.global

end Matcher

/-- Compiles a root. -/
def compile (e : Engine) (n : Node) : Except MatcherError Matcher :=
  if !n.isRoot then .error (.notARoot n.type)
  else
    match n.badBounds? with
    | some bounds => .error (.bounds bounds)
    | none =>
      match firstUnsupported? n with
      | some (c, i) => .error (.unsupported c i)
      | none =>
        let host := adapt n.flags n
        if e.accepts host then .ok ⟨n.pattern, n.flags, host⟩ else .error .build

/-! ### Searching -/

/-- The byte offset of a position. -/
def byteOffset (input : Text) (i : Nat) : Nat := Text.bytes (input.take i)

namespace Matcher

/-- The match that a search from a position finds, in bytes. -/
def findAt (m : Matcher) (e : Engine) (input : Text) (start : Nat) : Option (Nat × Nat) :=
  ((e.search m.host input start).map fun found =>
    (byteOffset input found.1, byteOffset input found.2)).filter fun found =>
      !m.isSticky || found.1 == byteOffset input start

/-- The first match in bytes. -/
def find (m : Matcher) (e : Engine) (input : Text) : Option (Nat × Nat) := m.findAt e input 0

/-- There is a match; the engine is asked for one only when it may be anywhere. -/
def isMatch (m : Matcher) (e : Engine) (input : Text) : Bool :=
  if m.isSticky then (m.findAt e input 0).isSome else e.holds m.host input

/-- The results of searches from every position, the end included. -/
def findAll (m : Matcher) (e : Engine) (input : Text) : List (Option (Nat × Nat)) :=
  (List.range (input.length + 1)).map (m.findAt e input)

end Matcher

end RegexKit.Host
