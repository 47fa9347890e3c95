import RegexKit.Walk.Pipeline

/-! Non-capturing groups that change nothing are taken away. Within a sequence the items of
the group join the sequence; elsewhere the group gives way to its body when the body reads
the same without it. -/

namespace RegexKit.Optimizer.Ungroup

/-! ### Within a sequence -/

/-- The items that a group adds to the sequence around it; a choice has to stay grouped. -/
def items? : Node → Option (List Node)
  | .group .nonCapturing (.disjunction _) => none
  | .group .nonCapturing (.alternative es) => some es
  | .group .nonCapturing e => some [e]
  | _ => none

/-- A sequence with the items of its groups, when it has such a group. -/
def spliced? : Node → Option Node
  | .alternative es =>
    if es.any fun e => (items? e).isSome then
      some (.alternative (es.flatMap fun e => (items? e).getD [e]))
    else none
  | _ => none

/-! ### Elsewhere -/

/-- The nodes that a quantifier may follow directly. -/
def canRepeat : Node → Bool
  | .char _ | .charClass _ _ | .backreference _ _ => true
  | .group kind _ => !kind.isLookaround
  | _ => false

/-- A body reads the same under the parent without the group around it. -/
def readsBare (parent : Option NodeType) (body : Node) : Bool :=
  match parent with
  | some .repetition => canRepeat body
  | some .disjunction => body.type != .disjunction
  | some .regExp | some .group | none => true
  | _ => false

/-- The body of a group that can be left out under the parent. -/
def unwrapped? (parent : Option NodeType) : Node → Option Node
  | .group .nonCapturing body =>
    if !body.isEmptyAlternative && readsBare parent body then some body else none
  | _ => none

def rule : Rule where
  name := "ungroup"
  handlers :=
    (({} : Handlers Unit).on (some .alternative) .exit fun p s =>
      match spliced? p.node with
      | some n => (p.replace n, s)
      | none => (p.keep, s)).on (some .group) .exit fun p s =>
      match unwrapped? p.parent? p.node with
      | some n => (p.replace n, s)
      | none => (p.keep, s)

end RegexKit.Optimizer.Ungroup
