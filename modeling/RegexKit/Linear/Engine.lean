import RegexKit.Host.Matcher
import RegexKit.Linear.Acceptance
import RegexKit.Linear.Reading
import RegexKit.Linear.Search

/-! An engine that searches in linear time. The library only hands patterns to an engine and
asks it for matches; this one stands for the engine that it is used with, so that compiled
patterns can be run. -/

namespace RegexKit.Linear

def search (n : Node) (input : Text) (start : Nat) : Option (Nat × Nat) :=
  (Automaton.ofNode n).search ⟨input, reading n.flags⟩ start

def engine : Host.Engine where
  accepts := accepts
  search := search
  holds n input := (search n input 0).isSome

end RegexKit.Linear
