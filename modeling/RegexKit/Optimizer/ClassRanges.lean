import RegexKit.Text.Interval
import RegexKit.Walk.Pipeline

/-! Classes with their members in order. Members without code points come first as they
were; the others become disjoint intervals in increasing order, each end spelled as it was
first spelled in the class. -/

namespace RegexKit.Optimizer.ClassRanges

/-! ### Members -/

/-- The interval of a member: a character with a code point, or a range whose ends have
code points in order. -/
def interval? : Node → Option Interval
  | .char c => c.codePoint?.map fun n => ⟨n, n⟩
  | .classRange low high =>
    match low.codePoint?, high.codePoint? with
    | some x, some y => if x ≤ y then some ⟨x, y⟩ else none
    | _, _ => none
  | _ => none

/-- The code points that a member spells, with their spellings. -/
def spellings (n : Node) : List (Nat × PatternChar) :=
  match n, interval? n with
  | .char c, some i => [(i.low, c)]
  | .classRange low high, some i => [(i.low, low), (i.high, high)]
  | _, _ => []

/-- The first spelling of a code point, or its own. -/
def spell (known : List (Nat × PatternChar)) (n : Nat) : PatternChar :=
  (known.lookup n).getD (.ofCodePoint n)

/-- The members for an interval: one or two code points are written singly. -/
def membersOf (known : List (Nat × PatternChar)) (i : Interval) : List Node :=
  if i.high = i.low then [.char (spell known i.low)]
  else if i.high = i.low + 1 then [.char (spell known i.low), .char (spell known i.high)]
  else [.classRange (spell known i.low) (spell known i.high)]

/-- The members of a class in order. -/
def normalForm (ms : List Node) : List Node :=
  ms.filter (fun m => (interval? m).isNone) ++
    (Interval.coalesce (ms.filterMap interval?)).flatMap (membersOf (ms.flatMap spellings))

/-- A class with its members in order, when they were not. -/
def normalized? : Node → Option Node
  | .charClass negated ms =>
    if normalForm ms = ms then none else some (.charClass negated (normalForm ms))
  | _ => none

/-! ### Surrogates -/

/-- The character denotes half of a surrogate pair. -/
def isSurrogate (c : PatternChar) : Bool :=
  c.codePoint?.any fun n => 0xD800 ≤ n && n ≤ 0xDFFF

/-- A member of the class is half of a pair, or ends in one. -/
def hasSurrogate : Node → Bool
  | .charClass _ ms => ms.any fun m =>
      match m with
      | .char c => isSurrogate c
      | .classRange low high => isSurrogate low || isSurrogate high
      | _ => false
  | _ => false

/-- Under the flag `u` two halves that become neighbours would be read as one character, so
a class that holds one stays as it is. -/
def rule (flags : Flags) : Rule where
  name := "normalize-class-ranges"
  handlers := ({} : Handlers Unit).on (some .charClass) .exit fun p s =>
    if flags.unicode && hasSurrogate p.node then (p.keep, s)
    else
      match normalized? p.node with
      | some n => (p.replace n, s)
      | none => (p.keep, s)

end RegexKit.Optimizer.ClassRanges
