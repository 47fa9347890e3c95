import RegexKit.Json
import RegexKit.Node

/-! The JSON form of trees. Every node is an object whose member `type` names its kind; the
member `escaped` of a character is left out when false and the member `name` of a group
when absent. Reading ignores members it does not know, takes a missing `escaped` or
`negated` as false and a missing `max` or `name` as absent, and refuses the rest. Two
spellings that a looser decoder takes as well are among what is refused: a record as the list
of its fields, with the type first for a node, and a kind without fields as an object whose
one member is named by it. Neither is ever written. -/

namespace RegexKit

/-! ### Words -/

namespace CharKind

def all : List CharKind := [simple, special, unicode, hex, control, octal]

def name : CharKind → String
  | simple => "simple"
  | special => "meta"
  | unicode => "unicode"
  | hex => "hex"
  | control => "control"
  | octal => "oct"

def ofName? (s : String) : Option CharKind := all.find? fun k => k.name == s

@[simp] theorem ofName?_name (k : CharKind) : ofName? k.name = some k := by cases k <;> decide

end CharKind

namespace AssertionKind

def all : List AssertionKind := [start, finish, wordBoundary, nonWordBoundary]

def name : AssertionKind → String
  | start => "start"
  | finish => "end"
  | wordBoundary => "word-boundary"
  | nonWordBoundary => "non-word-boundary"

def ofName? (s : String) : Option AssertionKind := all.find? fun k => k.name == s

@[simp] theorem ofName?_name (k : AssertionKind) : ofName? k.name = some k := by
  cases k <;> decide

end AssertionKind

/-! ### Parts of nodes -/

namespace PatternChar

/-- The members of a character, without a `type`. -/
def members (c : PatternChar) : List (String × Json) :=
  [("value", .str c.value.toString), ("kind", .str c.kind.name)] ++
    if c.escaped then [("escaped", .bool true)] else []

def ofJson? (j : Json) : Option PatternChar := do
  let value ← (← j.get? "value").str?
  let kind ← CharKind.ofName? (← (← j.get? "kind").str?)
  let escaped ← j.getD? "escaped" false Json.bool?
  some ⟨Text.ofString value, kind, escaped⟩

end PatternChar

namespace GroupKind

/-- The members of a group besides its expression. -/
def members : GroupKind → List (String × Json)
  | capturing number none => [("kind", .str "capturing"), ("number", .nat number)]
  | capturing number (some name) =>
    [("kind", .str "capturing"), ("number", .nat number), ("name", .str name.toString)]
  | nonCapturing => [("kind", .str "non-capturing")]
  | lookahead => [("kind", .str "lookahead")]
  | negativeLookahead => [("kind", .str "negative-lookahead")]
  | lookbehind => [("kind", .str "lookbehind")]
  | negativeLookbehind => [("kind", .str "negative-lookbehind")]

/-- A name that may also be null. -/
def nameOf? : Json → Option (Option Text)
  | .null => some none
  | .str s => some (some (Text.ofString s))
  | _ => none

def ofJson? (j : Json) : Option GroupKind := do
  match ← (← j.get? "kind").str? with
  | "capturing" =>
    let number ← (← j.get? "number").nat? Numeral.max64
    let name ← j.getD? "name" none nameOf?
    some (capturing number name)
  | "non-capturing" => some nonCapturing
  | "lookahead" => some lookahead
  | "negative-lookahead" => some negativeLookahead
  | "lookbehind" => some lookbehind
  | "negative-lookbehind" => some negativeLookbehind
  | _ => none

end GroupKind

namespace RefTarget

def toJson : RefTarget → Json
  | number n => .obj [("number", .nat n)]
  | name t => .obj [("name", .str t.toString)]

/-- An object with exactly one member, which is either the number or the name. -/
def ofJson? : Json → Option RefTarget
  | .obj [("number", j)] => (j.nat? Numeral.max64).map number
  | .obj [("name", j)] => j.str?.map fun s => name (Text.ofString s)
  | _ => none

end RefTarget

namespace Node

/-- An upper bound that may also be null. -/
def boundOf? : Json → Option (Option Nat)
  | .null => some none
  | j => (j.nat? Numeral.max32).map some

/-! ### Writing -/

mutual

def toJson : Node → Json
  | regExp body flags => .obj [("type", .str NodeType.regExp.name), ("body", body.toJson),
      ("flags", .str flags.text.toString)]
  | alternative es => .obj [("type", .str NodeType.alternative.name),
      ("expressions", .arr (toJsonList es))]
  | disjunction bs => .obj [("type", .str NodeType.disjunction.name),
      ("branches", .arr (toJsonList bs))]
  | group kind e => .obj (("type", .str NodeType.group.name) :: kind.members ++
      [("expression", e.toJson)])
  | backreference target number => .obj [("type", .str NodeType.backreference.name),
      ("target", target.toJson), ("number", .nat number)]
  | assertion kind => .obj [("type", .str NodeType.assertion.name), ("kind", .str kind.name)]
  | char c => .obj (("type", .str NodeType.char.name) :: c.members)
  | charClass negated ms => .obj [("type", .str NodeType.charClass.name),
      ("negated", .bool negated), ("members", .arr (toJsonList ms))]
  | classRange low high => .obj [("type", .str NodeType.classRange.name),
      ("from", .obj low.members), ("to", .obj high.members)]
  | repetition e min max greedy => .obj [("type", .str NodeType.repetition.name),
      ("expression", e.toJson), ("min", .nat min),
      ("max", match max with
        | some n => .nat n
        | none => .null),
      ("greedy", .bool greedy)]

def toJsonList : List Node → List Json
  | [] => []
  | n :: ns => n.toJson :: toJsonList ns

end

/-! ### Reading -/

mutual

/-- The tree that an object with a `type` stands for. Only objects are read, and only a string
names a kind. -/
def ofJson? (j : Json) : Option Node := do
  match ← NodeType.ofName? (← (← j.get? "type").str?) with
  | .regExp =>
    let flags ← (← j.get? "flags").str?
    let body ← match _h : j.get? "body" with
      | some v => ofJson? v
      | none => none
    some (.regExp body (← (Flags.parse (Text.ofString flags)).toOption))
  | .alternative =>
    match _h : j.get? "expressions" with
    | some (.arr items) => (ofJsonList? items).map .alternative
    | _ => none
  | .disjunction =>
    match _h : j.get? "branches" with
    | some (.arr items) => (ofJsonList? items).map .disjunction
    | _ => none
  | .group =>
    let kind ← GroupKind.ofJson? j
    match _h : j.get? "expression" with
    | some v => (ofJson? v).map (.group kind)
    | none => none
  | .backreference =>
    let target ← RefTarget.ofJson? (← j.get? "target")
    let number ← (← j.get? "number").nat? Numeral.max64
    some (.backreference target number)
  | .assertion =>
    let kind ← AssertionKind.ofName? (← (← j.get? "kind").str?)
    some (.assertion kind)
  | .char => (PatternChar.ofJson? j).map .char
  | .charClass =>
    let negated ← j.getD? "negated" false Json.bool?
    match _h : j.get? "members" with
    | some (.arr items) => (ofJsonList? items).map (.charClass negated)
    | _ => none
  | .classRange =>
    let low ← PatternChar.ofJson? (← j.get? "from")
    let high ← PatternChar.ofJson? (← j.get? "to")
    some (.classRange low high)
  | .repetition =>
    let min ← (← j.get? "min").nat? Numeral.max32
    let max ← j.getD? "max" none boundOf?
    let greedy ← (← j.get? "greedy").bool?
    match _h : j.get? "expression" with
    | some v => (ofJson? v).map fun e => .repetition e min max greedy
    | none => none
termination_by sizeOf j
decreasing_by
  all_goals
    have := Json.sizeOf_get?_lt _h
    try simp only [Json.arr.sizeOf_spec] at this
    omega

def ofJsonList? (js : List Json) : Option (List Node) :=
  match js with
  | [] => some []
  | j :: rest => do
    let n ← ofJson? j
    let ns ← ofJsonList? rest
    some (n :: ns)
termination_by sizeOf js

end

end Node

end RegexKit
