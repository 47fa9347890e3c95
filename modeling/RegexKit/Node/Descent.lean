import RegexKit.Source

/-! The tree of a token list by recursive descent. A choice is read branch by branch, a branch item
by item, and a group reads a choice of its own. Every function is given the tokens that remain and
returns those that it leaves, which are no more. It looks at one token at a time, at two more in a
class, and has an error for every token that it does not expect. -/

namespace RegexKit

def TokenKind.isQuantifier : TokenKind → Bool
  | quantifier _ _ _ => true
  | _ => false

namespace Descent

open RegexKit.Parser (collapse fillNumbers maxDepth)

/-- Why a token list has no tree: a group is not closed where its choice ends, with the text that
stands there, or there is another error. -/
inductive Refusal
  | unclosedGroup (offset : Nat) (found : Text)
  | fault (e : ParseError)
  deriving DecidableEq, Repr

/-- The error without the text that was found. -/
def Refusal.error : Refusal → ParseError
  | unclosedGroup offset _ => ⟨.unterminatedGroup, offset⟩
  | fault e => e

/-- What is said to be found after the last token. -/
def endOfInput : Text := "end of input".toList

/-- The groups and the references met so far. -/
structure Notes where
  /-- The number of capturing groups begun. -/
  captures : Nat := 0
  /-- The names of groups with their numbers, latest first. -/
  names : List (Text × Nat) := []
  /-- The references met with their offsets, latest first. -/
  references : List (RefTarget × Nat) := []
  deriving DecidableEq, Repr

/-! ### Readings -/

/-- What was read from a list of `n` tokens: a value, the tokens after it, and the notes. -/
structure Reading (α : Type) (n : Nat) where
  value : α
  rest : List Token
  notes : Notes
  length_le : rest.length ≤ n

abbrev Reads (α : Type) (n : Nat) := Except Refusal (Reading α n)

namespace Reads

variable {α β : Type} {n m : Nat}

/-- Reads nothing. -/
def stay (a : α) (ts : List Token) (ν : Notes) : Reads α ts.length := .ok ⟨a, ts, ν, Nat.le_refl _⟩

/-- A reading from a list is one from a longer list. -/
def within (x : Reads α m) (h : m ≤ n) : Reads α n :=
  x.map fun r => { r with length_le := Nat.le_trans r.length_le h }

/-- Goes on where a reading ends. -/
def andThen (x : Reads α n) (f : (r : Reading α n) → Reads β r.rest.length) : Reads β n :=
  x.bind fun r => (f r).within r.length_le

end Reads

/-! ### Classes -/

/-- The other end of the range that a character begins, with the code points of both ends. A dash
and a character come next, and both ends have code points. -/
def rangeEnd? (low : PatternChar) : List Token → Option (PatternChar × Nat × Nat)
  | dash :: t :: _ =>
    match dash.kind, t.kind, low.codePoint? with
    | .char d, .char high, some x =>
      if d.isDash then high.codePoint?.map fun y => (high, x, y) else none
    | _, _, _ => none
  | _ => none

/-- Reads the members of a class and its bracket. A character that begins no range is a member, and
reading goes on right after it. -/
def members (offset : Nat) (done : List Node) (ts : List Token) (ν : Notes) :
    Reads (List Node) ts.length :=
  match ts with
  | [] => .error (.fault ⟨.unterminatedClass, offset⟩)
  | t :: ts =>
    match t.kind with
    | .classClose => (Reads.stay done.reverse ts ν).within (Nat.le_succ _)
    | .char low =>
      match rangeEnd? low ts with
      | some (high, x, y) =>
        if x ≤ y then
          (members offset (.classRange low high :: done) (ts.drop 2) ν).within (by simp; omega)
        else .error (.fault ⟨.rangeOutOfOrder low.value high.value, t.offset⟩)
      | none => (members offset (.char low :: done) ts ν).within (Nat.le_succ _)
    | _ => .error (.fault ⟨.unexpectedToken t.raw, t.offset⟩)
termination_by ts.length
decreasing_by all_goals simp; try omega

/-! ### Items -/

/-- A reader of a group after its opening and up to its closing. -/
abbrev GroupReader :=
  GroupOpen → Nat → (ts : List Token) → Notes → Reads (GroupKind × Node) ts.length

section

variable (group : GroupReader)

/-- Reads the item that a token begins, and whether it may be repeated. -/
def atom (t : Token) (ts : List Token) (ν : Notes) : Reads (Node × Bool) ts.length :=
  match t.kind with
  | .char c => .stay (.char c, true) ts ν
  | .assertion kind => .stay (.assertion kind, false) ts ν
  | .backreference target =>
    .stay (.backreference target 0, true) ts
      { ν with references := (target, t.offset) :: ν.references }
  | .classOpen negated => (members t.offset [] ts ν).andThen fun r =>
    .stay (.charClass negated r.value, true) r.rest r.notes
  | .groupOpen how => (group how t.offset ts ν).andThen fun r =>
    .stay (.group r.value.1 r.value.2, !r.value.1.isLookbehind) r.rest r.notes
  | .quantifier _ _ _ => .error (.fault ⟨.nothingToRepeat, t.offset⟩)
  | .classClose | .groupClose | .bar => .error (.fault ⟨.unexpectedToken t.raw, t.offset⟩)

/-- Reads the quantifier of an item, if there is one. -/
def repeated (n : Node) (repeatable : Bool) (ts : List Token) (ν : Notes) : Reads Node ts.length :=
  match ts with
  | [] => .stay n [] ν
  | t :: ts =>
    match t.kind with
    | .quantifier min max greedy =>
      if !repeatable then .error (.fault ⟨.nothingToRepeat, t.offset⟩)
      else
        match max.filter (· < min) with
        | some x => .error (.fault ⟨.repetitionOutOfOrder min x, t.offset⟩)
        | none =>
          match ts.head?.filter (·.kind.isQuantifier) with
          | some next => .error (.fault ⟨.nothingToRepeat, next.offset⟩)
          | none => (Reads.stay (.repetition n min max greedy) ts ν).within (Nat.le_succ _)
    | _ => .stay n (t :: ts) ν

/-- Reads an item with its quantifier. -/
def term (t : Token) (ts : List Token) (ν : Notes) : Reads Node ts.length :=
  (atom group t ts ν).andThen fun r => repeated r.value.1 r.value.2 r.rest r.notes

/-! ### Branches -/

/-- Reads items up to a bar, a closing parenthesis or the end. -/
def alternative (done : List Node) (ts : List Token) (ν : Notes) : Reads Node ts.length :=
  match ts with
  | [] => .stay (collapse .alternative done.reverse) [] ν
  | t :: ts =>
    if t.kind = .bar ∨ t.kind = .groupClose then
      .stay (collapse .alternative done.reverse) (t :: ts) ν
    else
      ((term group t ts ν).andThen fun r =>
        alternative (r.value :: done) r.rest r.notes).within (Nat.le_succ _)
termination_by ts.length
decreasing_by exact Nat.lt_succ_of_le r.length_le

/-- Reads branches with bars between them. -/
def disjunction (done : List Node) (ts : List Token) (ν : Notes) : Reads Node ts.length :=
  (alternative group [] ts ν).andThen fun r =>
    match h : r.rest with
    | [] => .stay (collapse .disjunction (r.value :: done).reverse) [] r.notes
    | t :: us =>
      have : us.length < ts.length := by
        have hle := r.length_le
        rw [h] at hle
        exact hle
      if t.kind = .bar then
        (disjunction (r.value :: done) us r.notes).within (Nat.le_succ _)
      else .stay (collapse .disjunction (r.value :: done).reverse) (t :: us) r.notes
termination_by ts.length

end

/-! ### Groups -/

/-- The kind of a group that begins. A capturing group takes the next number and a name that is
new. -/
def Notes.begin (ν : Notes) (how : GroupOpen) (offset : Nat) :
    Except ParseError (GroupKind × Notes) :=
  let number := ν.captures + 1
  match how with
  | .capturing => .ok (.capturing number none, { ν with captures := number })
  | .named name =>
    if (ν.names.lookup name).isSome then .error ⟨.duplicateGroupName name, offset⟩
    else
      .ok (.capturing number (some name),
        { ν with captures := number, names := (name, number) :: ν.names })
  | .nonCapturing => .ok (.nonCapturing, ν)
  | .lookahead => .ok (.lookahead, ν)
  | .negativeLookahead => .ok (.negativeLookahead, ν)
  | .lookbehind => .ok (.lookbehind, ν)
  | .negativeLookbehind => .ok (.negativeLookbehind, ν)

/-- Reads a group where so many more may be open. -/
def group : Nat → GroupReader
  | 0, _, offset, _, _ => .error (.fault ⟨.nestingTooDeep, offset⟩)
  | room + 1, how, offset, ts, ν =>
    match ν.begin how offset with
    | .error e => .error (.fault e)
    | .ok (kind, ν) => (disjunction (group room) [] ts ν).andThen fun r =>
      match r.rest with
      | [] => .error (.unclosedGroup offset endOfInput)
      | t :: us =>
        if t.kind = .groupClose then
          (Reads.stay (kind, r.value) us r.notes).within (Nat.le_succ _)
        else .error (.unclosedGroup offset t.raw)

/-! ### Bodies -/

/-- The number of the group that a target names. -/
def Notes.resolve? (ν : Notes) : RefTarget → Option Nat
  | .number n => if 1 ≤ n ∧ n ≤ ν.captures then some n else none
  | .name t => ν.names.lookup t

/-- Enters the numbers of all references once every group is known. -/
def Notes.resolve (ν : Notes) (n : Node) : Except ParseError Node :=
  match ν.references.reverse.find? fun r => (ν.resolve? r.1).isNone with
  | some (target, offset) => .error ⟨.unresolvedReference target, offset⟩
  | none => .ok (fillNumbers (fun target => (ν.resolve? target).getD 0) n)

/-- The body tree of a token list. -/
def descend (ts : List Token) : Except Refusal Node :=
  match disjunction (group maxDepth) [] ts {} with
  | .error e => .error e
  | .ok r =>
    match r.rest with
    | t :: _ => .error (.fault ⟨.unmatchedClosingParen, t.offset⟩)
    | [] => (r.notes.resolve r.value).mapError .fault

/-- Why a body has no tree. -/
inductive BodyError
  | lex (e : LexError)
  | parse (e : Refusal)
  deriving DecidableEq, Repr

/-- The error without the text that was found. -/
def BodyError.error : BodyError → SourceError
  | lex e => .lex e
  | parse e => .parse e.error

/-- The root of a body with flags that are already read. -/
def parseBody (body : Text) (flags : Flags) : Except BodyError Node := do
  let tokens ← (Token.tokenize body).mapError .lex
  let tree ← (descend tokens).mapError .parse
  return .regExp tree flags

end Descent

end RegexKit
