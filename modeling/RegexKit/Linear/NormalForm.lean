import RegexKit.Host.Dialect

/-! The normal form in which the engine runs a tree. Groups that capture nothing are
gone, sequences and choices are spliced into their like, and what all branches of a choice
begin with stands once in front of it. A repetition of something that consumes nothing is
made at most once. The order in which matches are found is that of the normal form. -/

namespace RegexKit.Linear

open Host (allCodePoints memberOf)

/-! ### What a match consumes -/

/-- The class that no character belongs to. -/
def nothing : Node := .charClass true (allCodePoints.map memberOf)

mutual

/-- No match of the node consumes anything. -/
def consumesNothing : Node → Bool
  | .regExp b _ => consumesNothing b
  | .alternative es => allConsumeNothing es
  | .disjunction bs => allConsumeNothing bs
  | .group _ e => consumesNothing e
  | .repetition e _ _ _ => consumesNothing e
  | .assertion _ => true
  | .backreference _ _ | .char _ | .charClass _ _ | .classRange _ _ => false

def allConsumeNothing : List Node → Bool
  | [] => true
  | n :: ns => consumesNothing n && allConsumeNothing ns

end

mutual

/-- A lower bound on what a match of the node consumes; there is none for a node with a
part that never matches. -/
def leastLength? : Node → Option Nat
  | .regExp b _ => leastLength? b
  | .alternative es => leastSum? es
  | .disjunction bs => leastOf? bs
  | .group _ e => leastLength? e
  | .repetition e min _ _ => (leastLength? e).map (· * min)
  | .assertion _ | .backreference _ _ => some 0
  | .char _ | .classRange _ _ => some 1
  | .charClass negated ms => if .charClass negated ms = nothing then none else some 1

/-- The sum of the bounds. -/
def leastSum? : List Node → Option Nat
  | [] => some 0
  | n :: ns => (leastLength? n).bind fun x => (leastSum? ns).map (x + ·)

/-- The least of the bounds. -/
def leastOf? : List Node → Option Nat
  | [] => none
  | [n] => leastLength? n
  | n :: ns => (leastLength? n).bind fun x => (leastOf? ns).map (min x)

end

/-- Every match of the node is known to consume something. -/
def consumes (n : Node) : Bool := (leastLength? n).any (0 < ·)

/-! ### Sequences -/

/-- The parts of a sequence; any other node is its only part. -/
def parts : Node → List Node
  | .alternative es => es
  | n => [n]

/-- One node after the other. -/
def sequence (ns : List Node) : Node :=
  match ns.flatMap parts with
  | [n] => n
  | ns => .alternative ns

/-- A sequence of at least two parts. -/
def isSequence : Node → Bool
  | .alternative (_ :: _ :: _) => true
  | _ => false

/-! ### Choices -/

/-- The branches of a choice; any other node is its only branch. -/
def branches : Node → List Node
  | .disjunction bs => bs
  | n => [n]

/-- The node stands for one character. -/
def isOne : Node → Bool
  | .char _ | .charClass _ _ | .classRange _ _ => true
  | _ => false

/-- A choice of single characters without the classes that none belongs to, unless there
are no others. -/
def possible (bs : List Node) : List Node :=
  let kept := bs.filter (· ≠ nothing)
  if bs.all isOne && !kept.isEmpty then kept else bs

/-- A choice of nodes, with the choices among them spliced. -/
def spliced (ns : List Node) : Node :=
  match possible (ns.flatMap branches) with
  | [n] => n
  | bs => .disjunction bs

/-- What both lists begin with. -/
def commonFront : List Node → List Node → List Node
  | a :: as, b :: bs => if a = b then a :: commonFront as bs else []
  | _, _ => []

/-- What all lists begin with. -/
def sharedFront : List (List Node) → List Node
  | [] => []
  | ns :: nss => nss.foldl commonFront ns

/-- A choice of nodes. When all are sequences that begin alike, the choice is made only
behind their common front. -/
def choice (ns : List Node) : Node :=
  match spliced ns with
  | .disjunction bs =>
    let front := if bs.all isSequence then sharedFront (bs.map parts) else []
    if front.isEmpty then .disjunction bs
    else
      let rests := bs.map fun b => sequence ((parts b).drop front.length)
      sequence (front ++ [spliced rests])
  | n => n

/-! ### Repetitions -/

/-- Copies of a node. More than one copy of something that consumes nothing says no more
than one. -/
def repetition (n : Node) (least : Nat) (most : Option Nat) (greedy : Bool) : Node :=
  let once := consumesNothing n
  let least := if once then min least 1 else least
  let most := if once then some (min (most.getD 1) 1) else most
  if most = some 0 then .empty
  else if least = 1 ∧ most = some 1 then n
  else .repetition n least most greedy

/-! ### Trees -/

mutual

def normalForm : Node → Node
  | .regExp b _ => normalForm b
  | .alternative es => sequence (normalForms es)
  | .disjunction bs => choice (normalForms bs)
  | .group .nonCapturing e => normalForm e
  | .group kind e => .group kind (normalForm e)
  | .repetition e least most greedy => repetition (normalForm e) least most greedy
  | .backreference target number => .backreference target number
  | .assertion kind => .assertion kind
  | .char c => .char c
  | .charClass negated ms => .charClass negated ms
  | .classRange low high => .classRange low high

def normalForms : List Node → List Node
  | [] => []
  | n :: ns => normalForm n :: normalForms ns

end

end RegexKit.Linear
