import RegexKit.Token.Lexer

/-! The tree of a token list. The reader takes one token at a time: its state holds the
groups that are open, what has been read of the innermost choice, and the open class, if
any. References are checked against the complete table of groups after the last token, so
every earlier error is decided by the tokens before it. -/

namespace RegexKit

/-! ### Errors -/

/-- Why a token list has no tree. -/
inductive ParseCause
  | unterminatedGroup
  | unmatchedClosingParen
  | unterminatedClass
  | nothingToRepeat
  | repetitionOutOfOrder (min max : Nat)
  | rangeOutOfOrder (low high : Text)
  | duplicateGroupName (name : Text)
  | unresolvedReference (target : RefTarget)
  | nestingTooDeep
  | unexpectedToken (found : Text)
  deriving DecidableEq, Repr

/-- A cause and the byte offset of the token at fault. -/
structure ParseError where
  cause : ParseCause
  offset : Nat
  deriving DecidableEq, Repr

namespace Parser

/-- Groups nest at most this deep. -/
def maxDepth : Nat := 256

/-! ### State -/

/-- What has been read of a choice, latest first, and whether a quantifier may follow the
last item. -/
structure Level where
  branches : List Node := []
  items : List Node := []
  repeatable : Bool := false
  deriving DecidableEq, Repr

/-- A group that is open, and what was read around it before it began. -/
structure Frame where
  kind : GroupKind
  offset : Nat
  outer : Level
  deriving DecidableEq, Repr

/-- The end of the members read so far: nothing, a character that may begin a range, or
such a character and the dash after it. -/
inductive Pending
  | nothing
  | first (c : PatternChar) (offset : Nat)
  | dashed (c : PatternChar) (offset : Nat) (dash : PatternChar) (dashOffset : Nat)
  deriving DecidableEq, Repr

/-- A class that is open, with its members latest first. -/
structure OpenClass where
  negated : Bool
  offset : Nat
  members : List Node := []
  pending : Pending := .nothing
  deriving DecidableEq, Repr

structure State where
  level : Level := {}
  frames : List Frame := []
  openClass : Option OpenClass := none
  /-- The number of capturing groups begun. -/
  captures : Nat := 0
  /-- The names of groups with their numbers, latest first. -/
  names : List (Text × Nat) := []
  /-- The references met with their offsets, latest first. -/
  references : List (RefTarget × Nat) := []
  deriving DecidableEq, Repr

/-! ### Finished parts -/

/-- A list of one node is that node. -/
def collapse (make : List Node → Node) : List Node → Node
  | [n] => n
  | ns => make ns

/-- The choice that a level holds: lists of one item or one branch are not wrapped. -/
def Level.close (l : Level) : Node :=
  collapse .disjunction (collapse .alternative l.items.reverse :: l.branches).reverse

/-- Ends the current branch and begins the next. -/
def Level.bar (l : Level) : Level :=
  { branches := collapse .alternative l.items.reverse :: l.branches }

def Level.push (l : Level) (n : Node) (repeatable : Bool) : Level :=
  { l with items := n :: l.items, repeatable }

def State.push (s : State) (n : Node) (repeatable : Bool) : State :=
  { s with level := s.level.push n repeatable }

/-! ### Classes -/

/-- Takes a character that stands where a member may begin. -/
def OpenClass.begin (k : OpenClass) (c : PatternChar) (offset : Nat) : OpenClass :=
  { k with pending := .first c offset }

/-- Takes a character after `first`, which stays a member of its own unless a dash
follows. -/
def OpenClass.follow (k : OpenClass) (first : PatternChar) (firstOffset : Nat)
    (c : PatternChar) (offset : Nat) : OpenClass :=
  if c.isDash then { k with pending := .dashed first firstOffset c offset }
  else { k with members := .char first :: k.members }.begin c offset

/-- Takes the next character of a class. A character, a dash and a character are a range
when both ends have code points; else the first and the dash are members. -/
def OpenClass.add (k : OpenClass) (c : PatternChar) (offset : Nat) :
    Except ParseError OpenClass :=
  match k.pending with
  | .nothing => .ok (k.begin c offset)
  | .first low lowOffset => .ok (k.follow low lowOffset c offset)
  | .dashed low lowOffset dash dashOffset =>
    match low.codePoint?, c.codePoint? with
    | some x, some y =>
      if x ≤ y then .ok { k with members := .classRange low c :: k.members, pending := .nothing }
      else .error ⟨.rangeOutOfOrder low.value c.value, lowOffset⟩
    | _, _ => .ok ({ k with members := .char low :: k.members }.follow dash dashOffset c offset)

/-- The class when its bracket closes. -/
def OpenClass.close (k : OpenClass) : Node :=
  match k.pending with
  | .nothing => .charClass k.negated k.members.reverse
  | .first c _ => .charClass k.negated (.char c :: k.members).reverse
  | .dashed c _ dash _ => .charClass k.negated (.char dash :: .char c :: k.members).reverse

/-! ### Groups -/

/-- Begins a group. A capturing group takes the next number and a name that is new. -/
def State.openGroup (s : State) (how : GroupOpen) (offset : Nat) : Except ParseError State :=
  if maxDepth ≤ s.frames.length then .error ⟨.nestingTooDeep, offset⟩
  else
    let enter (s : State) (kind : GroupKind) : State :=
      { s with frames := ⟨kind, offset, s.level⟩ :: s.frames, level := {} }
    let number := s.captures + 1
    match how with
    | .capturing => .ok (enter { s with captures := number } (.capturing number none))
    | .named name =>
      if (s.names.lookup name).isSome then .error ⟨.duplicateGroupName name, offset⟩
      else
        .ok (enter { s with captures := number, names := (name, number) :: s.names }
          (.capturing number (some name)))
    | .nonCapturing => .ok (enter s .nonCapturing)
    | .lookahead => .ok (enter s .lookahead)
    | .negativeLookahead => .ok (enter s .negativeLookahead)
    | .lookbehind => .ok (enter s .lookbehind)
    | .negativeLookbehind => .ok (enter s .negativeLookbehind)

/-- Ends the innermost group; a lookbehind may not be repeated. -/
def State.closeGroup (s : State) (offset : Nat) : Except ParseError State :=
  match s.frames with
  | [] => .error ⟨.unmatchedClosingParen, offset⟩
  | f :: fs =>
    .ok { s with
      frames := fs
      level := f.outer.push (.group f.kind s.level.close) (!f.kind.isLookbehind) }

/-! ### Quantifiers -/

/-- Applies a quantifier to the last item. -/
def State.quantify (s : State) (min : Nat) (max : Option Nat) (greedy : Bool) (offset : Nat) :
    Except ParseError State :=
  match s.level.items, s.level.repeatable with
  | n :: rest, true =>
    match max with
    | some x =>
      if x < min then .error ⟨.repetitionOutOfOrder min x, offset⟩
      else .ok { s with level := { s.level with items := rest }.push (.repetition n min max greedy) false }
    | none =>
      .ok { s with level := { s.level with items := rest }.push (.repetition n min max greedy) false }
  | _, _ => .error ⟨.nothingToRepeat, offset⟩

/-! ### Tokens -/

/-- Takes one token. A reference is entered with the number 0 until all groups are
known. -/
def step (s : State) (t : Token) : Except ParseError State :=
  match s.openClass, t.kind with
  | some k, .char c => (k.add c t.offset).map fun k => { s with openClass := some k }
  | some k, .classClose => .ok ({ s with openClass := none }.push k.close true)
  | some _, _ => .error ⟨.unexpectedToken t.raw, t.offset⟩
  | none, .char c => .ok (s.push (.char c) true)
  | none, .assertion kind => .ok (s.push (.assertion kind) false)
  | none, .backreference target =>
    .ok ({ s with references := (target, t.offset) :: s.references }.push
      (.backreference target 0) true)
  | none, .classOpen negated => .ok { s with openClass := some { negated, offset := t.offset } }
  | none, .classClose => .error ⟨.unexpectedToken t.raw, t.offset⟩
  | none, .groupOpen how => s.openGroup how t.offset
  | none, .groupClose => s.closeGroup t.offset
  | none, .bar => .ok { s with level := s.level.bar }
  | none, .quantifier min max greedy => s.quantify min max greedy t.offset

/-- Takes tokens in order up to the first error. -/
def run (s : State) : List Token → Except ParseError State
  | [] => .ok s
  | t :: ts =>
    match step s t with
    | .error e => .error e
    | .ok s => run s ts

@[simp] theorem run_nil (s : State) : run s [] = .ok s := rfl

theorem run_append (s : State) (ts us : List Token) :
    run s (ts ++ us) = (run s ts).bind fun s => run s us := by
  induction ts generalizing s with
  | nil => rfl
  | cons t ts ih =>
    simp only [List.cons_append, run]
    cases step s t with
    | error e => rfl
    | ok s => exact ih s

/-! ### References -/

/-- The number of the group that a target names: its own number up to the number of groups,
or the number of the group of that name. -/
def State.resolve? (s : State) : RefTarget → Option Nat
  | .number n => if 1 ≤ n ∧ n ≤ s.captures then some n else none
  | .name t => s.names.lookup t

mutual

/-- Enters the resolved numbers of all references of a tree. -/
def fillNumbers (resolve : RefTarget → Nat) : Node → Node
  | .regExp b flags => .regExp (fillNumbers resolve b) flags
  | .alternative es => .alternative (fillNumbersList resolve es)
  | .disjunction bs => .disjunction (fillNumbersList resolve bs)
  | .group kind e => .group kind (fillNumbers resolve e)
  | .backreference target _ => .backreference target (resolve target)
  | .charClass negated ms => .charClass negated (fillNumbersList resolve ms)
  | .repetition e min max greedy => .repetition (fillNumbers resolve e) min max greedy
  | .assertion kind => .assertion kind
  | .char c => .char c
  | .classRange low high => .classRange low high

def fillNumbersList (resolve : RefTarget → Nat) : List Node → List Node
  | [] => []
  | n :: ns => fillNumbers resolve n :: fillNumbersList resolve ns

end

/-! ### Bodies -/

/-- The tree of the tokens taken, once there are no more. -/
def State.finish (s : State) : Except ParseError Node :=
  match s.openClass, s.frames with
  | some k, _ => .error ⟨.unterminatedClass, k.offset⟩
  | none, f :: _ => .error ⟨.unterminatedGroup, f.offset⟩
  | none, [] =>
    match s.references.reverse.find? fun r => (s.resolve? r.1).isNone with
    | some (target, offset) => .error ⟨.unresolvedReference target, offset⟩
    | none => .ok (fillNumbers (fun target => (s.resolve? target).getD 0) s.level.close)

/-- The body tree of a token list. -/
def parseTokens (ts : List Token) : Except ParseError Node := (run {} ts).bind State.finish

end Parser

end RegexKit
