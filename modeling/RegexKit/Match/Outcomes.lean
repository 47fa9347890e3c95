import RegexKit.Match.Subject

/-! The meaning of a tree: for an input, a position and captures, the list of its outcomes
in order of priority. A sequence continues every outcome of its first part; a choice lists
the outcomes of its branches one after the other; a repetition makes its mandatory
iterations, then optional ones, each of which has to consume. Positions count characters. -/

namespace RegexKit.Match

/-- The spans of the capturing groups by number, latest first. -/
abbrev Captures := List (Nat × Nat × Nat)

/-- Where a match ends, with the captures made. -/
structure Outcome where
  position : Nat
  captures : Captures
  deriving DecidableEq, Repr

/-- What a part of a pattern does from a position with given captures. -/
abbrev Meaning := Outcome → List Outcome

/-! ### Sequence and repetition -/

/-- First one part, then the other from each of its outcomes. -/
def andThen (f g : Meaning) : Meaning := fun o => (f o).flatMap g

/-- Exactly `n` iterations. -/
def iterate (f : Meaning) : Nat → Meaning
  | 0 => fun o => [o]
  | n + 1 => andThen f (iterate f n)

/-- Up to `n` iterations that consume, as many as possible first when greedy, as few as
possible first when lazy. -/
def upTo (f : Meaning) (greedy : Bool) : Nat → Meaning
  | 0 => fun o => [o]
  | n + 1 => fun o =>
    let more := (f o).flatMap fun o' =>
      if o'.position = o.position then [] else upTo f greedy n o'
    if greedy then more ++ [o] else o :: more

/-- At least `min` iterations, and at most `max`. Without an upper bound the input that is
left bounds the optional iterations, as each of them consumes. -/
def repeated (length : Nat) (f : Meaning) (min : Nat) (max : Option Nat) (greedy : Bool) :
    Meaning :=
  andThen (iterate f min) fun o =>
    upTo f greedy (match max with
      | none => length - o.position
      | some m => m - min) o

/-! ### Characters -/

namespace Subject

/-- Consumes a character that the node accepts. -/
def one (s : Subject) (n : Node) : Meaning := fun o =>
  if s.accepts n o.position then [{ o with position := o.position + 1 }] else []

/-- Consumes a copy of what a group captured; a group that captured nothing matches the
empty text. -/
def copy (s : Subject) (number : Nat) : Meaning := fun o =>
  match o.captures.lookup number with
  | none => [o]
  | some (from_, to_) =>
    let text := (s.input.drop from_).take (to_ - from_)
    if (s.input.drop o.position).take text.length = text then
      [{ o with position := o.position + text.length }]
    else []

end Subject

/-! ### Groups -/

/-- Consumes what the part consumes and records its span. -/
def capture (number : Nat) (f : Meaning) : Meaning := fun o =>
  (f o).map fun o' =>
    { o' with captures := (number, o.position, o'.position) :: o'.captures }

/-- Consumes nothing when the part matches here, and keeps the captures of its first
outcome. -/
def ahead (f : Meaning) : Meaning := fun o =>
  match f o with
  | [] => []
  | o' :: _ => [{ o with captures := o'.captures }]

/-- The outcomes that end at a position of the part begun there or before, the nearest
beginnings first. -/
def endingAt (f : Meaning) (o : Outcome) : Nat → List Outcome
  | 0 => (f { o with position := 0 }).filter (·.position == o.position)
  | i + 1 =>
    (f { o with position := i + 1 }).filter (·.position == o.position) ++ endingAt f o i

/-- Consumes nothing when the part matches up to here. -/
def behind (f : Meaning) : Meaning := ahead fun o => endingAt f o o.position

/-- Consumes nothing when the part does not match. -/
def absent (f : Meaning) : Meaning := fun o => if (f o).isEmpty then [o] else []

/-- What a group of a kind makes of its expression. -/
def grouped : GroupKind → Meaning → Meaning
  | .capturing number _, f => capture number f
  | .nonCapturing, f => f
  | .lookahead, f => ahead f
  | .negativeLookahead, f => absent f
  | .lookbehind, f => behind f
  | .negativeLookbehind, f => absent (behind f)

/-! ### Trees -/

mutual

/-- The outcomes of a tree in order of priority. -/
def outcomes (s : Subject) : Node → Meaning
  | .regExp b _ => outcomes s b
  | .alternative es => inSequence s es
  | .disjunction bs => anyOf s bs
  | .group kind e => grouped kind (outcomes s e)
  | .backreference _ number => s.copy number
  | .assertion kind => fun o => if s.holds kind o.position then [o] else []
  | .char c => s.one (.char c)
  | .charClass negated ms => s.one (.charClass negated ms)
  | .classRange low high => s.one (.classRange low high)
  | .repetition e min max greedy =>
    repeated s.input.length (outcomes s e) min max greedy

/-- One tree after the other. -/
def inSequence (s : Subject) : List Node → Meaning
  | [] => fun o => [o]
  | n :: ns => andThen (outcomes s n) (inSequence s ns)

/-- The outcomes of all trees, those of the first ones first. -/
def anyOf (s : Subject) : List Node → Meaning
  | [] => fun _ => []
  | n :: ns => fun o => outcomes s n o ++ anyOf s ns o

end

end RegexKit.Match
