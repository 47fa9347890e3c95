import RegexKit.Text.Interval
import RegexKit.Walk.Pipeline

/-! The dialect of the host engine. Digits and word characters are ASCII in patterns, and
the dot passes over four line terminators, so the dot and these class escapes are spelled
out as classes. Octal and control escapes and the class escape for a backspace are spelled
by their code points. The empty class matches nothing, and its negation everything. -/

namespace RegexKit.Host

/-! ### Sets of code points -/

def digits : List Interval := [⟨0x30, 0x39⟩]

def wordChars : List Interval := [⟨0x30, 0x39⟩, ⟨0x41, 0x5A⟩, ⟨0x5F, 0x5F⟩, ⟨0x61, 0x7A⟩]

/-- What the dot does not match without the flag `s`. -/
def lineTerminators : List Interval := [⟨0x0A, 0x0A⟩, ⟨0x0D, 0x0D⟩, ⟨0x2028, 0x2029⟩]

def allCodePoints : List Interval := [⟨0, Interval.maxCodePoint⟩]

/-- A class member for each interval. -/
def memberOf (i : Interval) : Node :=
  if i.low = i.high then .char (.ofCodePoint i.low)
  else .classRange (.ofCodePoint i.low) (.ofCodePoint i.high)

/-- The set of a class escape, and whether the escape denotes its complement. -/
def classEscape? : Text → Option (List Interval × Bool)
  | ['\\', 'd'] => some (digits, false)
  | ['\\', 'D'] => some (digits, true)
  | ['\\', 'w'] => some (wordChars, false)
  | ['\\', 'W'] => some (wordChars, true)
  | _ => none

/-! ### Characters -/

/-- The host reads the spelling differently or not at all. -/
def isForeign (c : PatternChar) : Bool :=
  match c.kind with
  | .octal | .control => true
  | .special => c.value == ['\\', 'b']
  | _ => false

/-- A foreign spelling of a code point replaced by its own. -/
def respell? (c : PatternChar) : Option PatternChar :=
  if isForeign c then c.codePoint?.map .ofCodePoint else none

/-- What stands for a character outside a class, when it has to change. -/
def adaptChar? (flags : Flags) (c : PatternChar) : Option Node :=
  if c.kind = .special ∧ c.value = ['.'] then
    if flags.dotAll then none else some (.charClass true (lineTerminators.map memberOf))
  else
    match classEscape? c.value with
    | some (is, negated) => some (.charClass negated (is.map memberOf))
    | none => (respell? c).map .char

/-! ### Classes -/

/-- What stands for a member of a class, and whether it changed. -/
def adaptMember : Node → List Node × Bool
  | .char c =>
    match classEscape? c.value with
    | some (is, negated) =>
      ((if negated then Interval.complement is else is).map memberOf, true)
    | none =>
      match respell? c with
      | some d => ([.char d], true)
      | none => ([.char c], false)
  | .classRange low high =>
    ([.classRange ((respell? low).getD low) ((respell? high).getD high)],
      (respell? low).isSome || (respell? high).isSome)
  | n => ([n], false)

/-- What stands for a class, when it has to change. -/
def adaptClass? : Node → Option Node
  | .charClass negated [] => some (.charClass (!negated) (allCodePoints.map memberOf))
  | .charClass negated ms =>
    if ms.any fun m => (adaptMember m).2 then
      some (.charClass negated (ms.flatMap fun m => (adaptMember m).1))
    else none
  | _ => none

/-! ### Trees -/

/-- Adapts characters outside classes on entering them and classes on leaving them. -/
def dialect (flags : Flags) : Rule where
  name := "host-dialect"
  handlers :=
    (({} : Handlers Unit).on (some .char) .enter fun p s =>
      match p.parent?, p.node with
      | some .charClass, _ => (p.keep, s)
      | _, .char c =>
        match adaptChar? flags c with
        | some n => (p.replaceAndSkip n, s)
        | none => (p.keep, s)
      | _, _ => (p.keep, s)).on (some .charClass) .exit fun p s =>
      match adaptClass? p.node with
      | some n => (p.replace n, s)
      | none => (p.keep, s)

/-- A tree in the dialect of the host. -/
def adapt (flags : Flags) (n : Node) : Node := ((dialect flags).run n).1

end RegexKit.Host
