import RegexKit.Linear.Automaton
import RegexKit.Match.Subject

/-! Searching with an automaton. A search tries every position from its start on; from each
it follows the paths of the automaton in order of preference and takes the first that
reaches the end. No path goes on from a state that was entered before at the same position,
as what lies behind it is tried already or being tried. Conditions still see the text before
the start. -/

namespace RegexKit.Linear

open Match

/-! ### Paths -/

/-- The last place of a path: where the path begins, its state and its position. -/
structure Thread where
  start : Nat
  state : Nat
  position : Nat
  deriving DecidableEq, Repr

namespace Thread

/-- The thread in state `q`. -/
def goTo (t : Thread) (q : Nat) : Thread := { t with state := q }

/-- The threads that go on from a thread in the state given, in order of preference. -/
def next (t : Thread) (s : Subject) : State → List Thread
  | .accept => []
  | .one n q => if s.accepts n t.position then [⟨t.start, q, t.position + 1⟩] else []
  | .condition kind q => if s.holds kind t.position then [t.goTo q] else []
  | .fork qs => qs.map t.goTo

/-- The number of a thread's place among all states at all positions of the input. -/
def place (t : Thread) (s : Subject) : Nat := t.state * (s.input.length + 1) + t.position

end Thread

/-- Entering a place for the first time leaves fewer that were never entered. -/
theorem count_fresh_lt {fresh : Array Bool} {k : Nat} (h : fresh[k]? = some true) :
    (fresh.setIfInBounds k false).count true < fresh.count true := by
  obtain ⟨hk, hv⟩ := Array.getElem?_eq_some_iff.mp h
  have hpos : 0 < fresh.count true :=
    Array.count_pos_iff.mpr (hv ▸ Array.getElem_mem hk)
  rw [Array.setIfInBounds_def, dif_pos hk, Array.count_set hk, hv]
  simp only [beq_iff_eq, Bool.false_eq_true, ↓reduceIte, Nat.add_zero]
  omega

namespace Automaton

/-- The start and the end of the first path to the end among the threads and those that go
on from them. The places that are fresh were never entered. -/
def follow (a : Automaton) (s : Subject) (fresh : Array Bool) :
    List Thread → Option (Nat × Nat)
  | [] => none
  | t :: ts =>
    if h : fresh[t.place s]? = some true then
      match a.states[t.state]? with
      | none => a.follow s fresh ts
      | some .accept => some (t.start, t.position)
      | some state =>
        have := count_fresh_lt h
        a.follow s (fresh.setIfInBounds (t.place s) false) (t.next s state ++ ts)
    else a.follow s fresh ts
termination_by ts => (fresh.count true, ts.length)

/-- The first match that begins at `start` or behind it. -/
def search (a : Automaton) (s : Subject) (start : Nat) : Option (Nat × Nat) :=
  a.follow s (Array.replicate (a.states.size * (s.input.length + 1)) true)
    ((List.range' start (s.input.length + 1 - start)).map fun i => ⟨i, a.entry, i⟩)

end Automaton

end RegexKit.Linear
