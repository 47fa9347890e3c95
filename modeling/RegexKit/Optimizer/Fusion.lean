import RegexKit.Walk.Pipeline

/-! An atom directly before a repetition of the same atom is one more mandatory copy. Atoms
with capturing groups stay, and so do bounds that would leave 32 bits. -/

namespace RegexKit.Optimizer.Fusion

/-- The nodes that can be a copy of a repeated one. -/
def isCopy : Node → Bool
  | .char _ | .charClass _ _ | .backreference _ _ => true
  | .group kind _ => !kind.isLookaround
  | _ => false

/-- A bound that can be raised by one. -/
def canRaise (n : Nat) : Bool := n < Numeral.max32

/-- The repetition `n` with one more copy, when the node before it is such a copy. -/
def fuse? (previous n : Node) : Option Node :=
  match n with
  | .repetition e min max greedy =>
    if isCopy previous && e == previous && !previous.hasCapture && canRaise min &&
        max.all canRaise then
      some (.repetition e (min + 1) (max.map (· + 1)) greedy)
    else none
  | _ => none

/-- Takes the nodes of a sequence one by one onto those already done, latest first. -/
def fuseOnto (done : List Node) : List Node → List Node
  | [] => done.reverse
  | n :: ns =>
    match done with
    | previous :: rest =>
      match fuse? previous n with
      | some fused => fuseOnto (fused :: rest) ns
      | none => fuseOnto (n :: done) ns
    | [] => fuseOnto [n] ns

/-- Some node of the sequence fuses with the one after it. -/
def canFuse : List Node → Bool
  | n :: m :: ns => (fuse? n m).isSome || canFuse (m :: ns)
  | _ => false

/-- A sequence with all fusions made, when there is one to make. -/
def fused? (n : Node) : Option Node :=
  match n with
  | .alternative es =>
    if canFuse es then
      match fuseOnto [] es with
      | [e] => some e
      | es => some (.alternative es)
    else none
  | _ => none

def rule : Rule where
  name := "quantifier-fusion"
  handlers := ({} : Handlers Unit).on (some .alternative) .exit fun p s =>
    match fused? p.node with
    | some n => (p.replace n, s)
    | none => (p.keep, s)

end RegexKit.Optimizer.Fusion
