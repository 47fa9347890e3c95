import RegexKit.Match.Outcomes

/-! Laws of sequence and repetition. Meanings under `andThen` are a monoid, so sequences may
be regrouped, and a copy in front of a repetition is one more mandatory iteration. -/

namespace RegexKit.Match

/-! ### Sequence -/

/-- The meaning that leaves an outcome as it is. -/
def still : Meaning := fun o => [o]

theorem andThen_assoc (f g h : Meaning) : andThen (andThen f g) h = andThen f (andThen g h) := by
  funext o
  simp only [andThen, List.flatMap_assoc]
  rfl

@[simp] theorem still_andThen (f : Meaning) : andThen still f = f := by
  funext o
  simp [andThen, still]

@[simp] theorem andThen_still (f : Meaning) : andThen f still = f := by
  funext o
  change (f o).flatMap (fun o' => [o']) = f o
  exact List.flatMap_singleton' (f o)

variable (s : Subject)

@[simp] theorem inSequence_nil : inSequence s [] = still := rfl

theorem inSequence_cons (n : Node) (ns : List Node) :
    inSequence s (n :: ns) = andThen (outcomes s n) (inSequence s ns) := by
  rw [inSequence]

theorem inSequence_append (ns ms : List Node) :
    inSequence s (ns ++ ms) = andThen (inSequence s ns) (inSequence s ms) := by
  induction ns with
  | nil => simp
  | cons n ns ih => rw [List.cons_append, inSequence_cons, ih, inSequence_cons, andThen_assoc]

@[simp] theorem inSequence_singleton (n : Node) : inSequence s [n] = outcomes s n := by
  simp [inSequence_cons]

@[simp] theorem outcomes_alternative (es : List Node) :
    outcomes s (.alternative es) = inSequence s es := by
  rw [outcomes]

@[simp] theorem outcomes_disjunction (bs : List Node) :
    outcomes s (.disjunction bs) = anyOf s bs := by
  rw [outcomes]

@[simp] theorem outcomes_group (kind : GroupKind) (e : Node) :
    outcomes s (.group kind e) = grouped kind (outcomes s e) := by
  rw [outcomes]

@[simp] theorem outcomes_repetition (e : Node) (min : Nat) (max : Option Nat) (greedy : Bool) :
    outcomes s (.repetition e min max greedy) =
      repeated s.input.length (outcomes s e) min max greedy := by
  rw [outcomes]

@[simp] theorem grouped_nonCapturing (f : Meaning) : grouped .nonCapturing f = f := rfl

/-! ### Choice -/

@[simp] theorem anyOf_nil : anyOf s [] = fun _ => [] := rfl

theorem anyOf_cons (n : Node) (ns : List Node) :
    anyOf s (n :: ns) = fun o => outcomes s n o ++ anyOf s ns o := by
  rw [anyOf]

theorem anyOf_append (ns ms : List Node) :
    anyOf s (ns ++ ms) = fun o => anyOf s ns o ++ anyOf s ms o := by
  induction ns with
  | nil => simp
  | cons n ns ih => simp [anyOf_cons, ih]

@[simp] theorem anyOf_singleton (n : Node) : anyOf s [n] = outcomes s n := by
  simp [anyOf_cons]

/-! ### Repetition -/

variable (length : Nat) (f : Meaning) (greedy : Bool)

theorem iterate_zero : iterate f 0 = still := rfl

theorem iterate_succ (n : Nat) : iterate f (n + 1) = andThen f (iterate f n) := rfl

/-- One copy is the part itself. -/
theorem repeated_one : repeated length f 1 (some 1) greedy = f := by
  have hstop : (fun o => upTo f greedy (1 - 1) o) = still := rfl
  rw [repeated, hstop, andThen_still, iterate_succ, iterate_zero, andThen_still]

/-- A copy in front of a repetition raises both bounds by one. -/
theorem andThen_repeated (min : Nat) (max : Option Nat) :
    andThen f (repeated length f min max greedy) =
      repeated length f (min + 1) (max.map (· + 1)) greedy := by
  cases max with
  | none => rw [repeated, ← andThen_assoc, ← iterate_succ, repeated, Option.map_none]
  | some m =>
    rw [repeated, ← andThen_assoc, ← iterate_succ, repeated, Option.map_some]
    simp only [Nat.add_sub_add_right]

end RegexKit.Match
