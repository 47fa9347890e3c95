import RegexKit.Walk.Pipeline

/-! Repetitions of exactly one copy, greedy or lazy, give way to what they repeat. -/

namespace RegexKit.Optimizer.Degenerate

/-- What a repetition of exactly one copy repeats. -/
def once? : Node → Option Node
  | .repetition e 1 (some 1) _ => some e
  | _ => none

def rule : Rule where
  name := "remove-degenerate-quantifiers"
  handlers := ({} : Handlers Unit).on (some .repetition) .exit fun p s =>
    match once? p.node with
    | some e => (p.replace e, s)
    | none => (p.keep, s)

end RegexKit.Optimizer.Degenerate
