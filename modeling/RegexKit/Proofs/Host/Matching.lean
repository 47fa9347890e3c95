import RegexKit.Linear.Engine

/-! Compiled patterns with an engine. What a compilation checks and makes is fixed up to the
verdict of the engine, and the matcher is shown as the tree was printed. With an engine that does
what is documented of engines, the matches are spans of bytes in the text; the start that a sticky
pattern is held to may be compared in bytes, since different positions have different offsets; and
there is a match exactly when one is found. The engine that searches in linear time is one of these:
a thread never leaves the text, and it begins no earlier than its search. -/

namespace RegexKit

open Match

namespace Host

variable {e : Engine} {n : Node} {m : Matcher} {input : Text} {start i j a b : Nat}

/-! ### Compiling -/

/-- A tree is compiled when it is a root that can be printed, nothing in it is lacking in the host
and the engine accepts it in its dialect. -/
theorem compile_eq_ok_iff : compile e n = .ok m ↔
    n.isRoot = true ∧ n.badBounds? = none ∧ firstUnsupported? n = none ∧
      e.accepts (adapt n.flags n) = true ∧ ⟨n.pattern, n.flags, adapt n.flags n⟩ = m := by
  rw [compile]
  cases n.isRoot with
  | false => simp
  | true =>
    cases n.badBounds? with
    | some bounds => simp
    | none =>
      cases firstUnsupported? n with
      | some x => simp
      | none =>
        simp only [Bool.not_true, Bool.false_eq_true, if_false, true_and]
        split <;> simp [*]

theorem compile_ne_bounds (h : n.badBounds? = none) (b : BoundsError) :
    compile e n ≠ .error (.bounds b) := by
  rw [compile, h]
  cases n.isRoot with
  | false => simp
  | true =>
    cases firstUnsupported? n with
    | some x => simp
    | none =>
      simp only [Bool.not_true, Bool.false_eq_true, if_false]
      split <;> simp

/-- A matcher is shown as the tree that it was compiled from was printed. -/
theorem render_of_compile (h : compile e n = .ok m) : n.render = .ok m.display := by
  obtain ⟨hroot, hbounds, -, -, rfl⟩ := compile_eq_ok_iff.1 h
  cases n with
  | regExp body flags =>
    rw [Node.render, hbounds]
    rfl
  | _ => cases hroot

/-! ### Offsets -/

theorem byteOffset_succ {c : Char} (h : input[i]? = some c) :
    byteOffset input (i + 1) = byteOffset input i + c.utf8Size := by
  obtain ⟨hi, rfl⟩ := List.getElem?_eq_some_iff.1 h
  rw [byteOffset, List.take_succ_eq_append_getElem hi, Text.bytes_append]
  rfl

/-- Later positions of a text have larger offsets. -/
theorem byteOffset_lt (h : i < j) (hj : j ≤ input.length) :
    byteOffset input i < byteOffset input j := by
  induction h with
  | refl =>
    rw [byteOffset_succ (List.getElem?_eq_getElem hj)]
    exact Nat.lt_add_of_pos_right (Char.utf8Size_pos _)
  | step _ ih =>
    rw [byteOffset_succ (List.getElem?_eq_getElem hj)]
    exact Nat.lt_trans (ih (Nat.le_of_succ_le hj))
      (Nat.lt_add_of_pos_right (Char.utf8Size_pos _))

theorem byteOffset_le (h : i ≤ j) (hj : j ≤ input.length) :
    byteOffset input i ≤ byteOffset input j := by
  rcases Nat.eq_or_lt_of_le h with rfl | h
  · exact Nat.le_refl _
  · exact Nat.le_of_lt (byteOffset_lt h hj)

theorem byteOffset_injective (hi : i ≤ input.length) (hj : j ≤ input.length)
    (h : byteOffset input i = byteOffset input j) : i = j := by
  rcases Nat.lt_trichotomy i j with hlt | rfl | hlt
  · exact absurd h (Nat.ne_of_lt (byteOffset_lt hlt hj))
  · rfl
  · exact absurd h.symm (Nat.ne_of_lt (byteOffset_lt hlt hi))

theorem byteOffset_length : byteOffset input input.length = Text.bytes input := by
  rw [byteOffset, List.take_length]

/-! ### Searching -/

namespace Matcher

/-- A search finds what the engine finds, in bytes; a sticky pattern only finds it where the search
starts. -/
theorem findAt_eq_some_iff (he : e.Lawful) : m.findAt e input start = some (a, b) ↔
    ∃ i j, e.search m.host input start = some (i, j) ∧ byteOffset input i = a ∧
      byteOffset input j = b ∧ (m.isSticky = true → i = start) := by
  rw [findAt, Option.filter_eq_some_iff, Option.map_eq_some_iff]
  constructor
  · rintro ⟨⟨⟨i, j⟩, hsearch, hspan⟩, hstart⟩
    obtain ⟨ha, hb⟩ := Prod.mk.inj hspan
    refine ⟨i, j, hsearch, ha, hb, fun hsticky => ?_⟩
    obtain ⟨hi, hij, hj⟩ := he.inside hsearch
    have hin : i ≤ input.length := Nat.le_trans hij hj
    have hoffset : a = byteOffset input start := by simpa [hsticky] using hstart
    exact byteOffset_injective hin (Nat.le_trans hi hin) (ha.trans hoffset)
  · rintro ⟨i, j, hsearch, rfl, rfl, hsticky⟩
    refine ⟨⟨(i, j), hsearch, rfl⟩, ?_⟩
    cases hs : m.isSticky with
    | false => rfl
    | true => simp [hsticky hs]

/-- A match is a span of the text that begins where the search starts or behind that. -/
theorem findAt_inside (he : e.Lawful) (h : m.findAt e input start = some (a, b)) :
    byteOffset input start ≤ a ∧ a ≤ b ∧ b ≤ Text.bytes input := by
  obtain ⟨i, j, hsearch, rfl, rfl, -⟩ := (findAt_eq_some_iff he).1 h
  obtain ⟨hi, hij, hj⟩ := he.inside hsearch
  exact ⟨byteOffset_le hi (Nat.le_trans hij hj), byteOffset_le hij hj,
    byteOffset_length ▸ byteOffset_le hj (Nat.le_refl _)⟩

/-- A sticky pattern finds nothing behind the start of a search. -/
theorem findAt_of_isSticky (he : e.Lawful) (hsticky : m.isSticky = true)
    (h : m.findAt e input start = some (a, b)) : a = byteOffset input start := by
  obtain ⟨i, j, -, rfl, -, hi⟩ := (findAt_eq_some_iff he).1 h
  rw [hi hsticky]

/-- A text has a match exactly when one is found from its beginning on, also for sticky patterns,
which the engine is not asked about. -/
theorem isMatch_eq (he : e.Lawful) : m.isMatch e input = (m.find e input).isSome := by
  rw [isMatch, find]
  cases hs : m.isSticky with
  | true => rfl
  | false =>
    rw [if_neg Bool.false_ne_true, he.holds_eq, findAt, hs]
    cases e.search m.host input 0 <;> rfl

end Matcher

end Host

/-! ### The engine in linear time -/

namespace Linear

/-- A thread that began at `start` or behind it and is in the text. -/
structure Thread.Inside (s : Subject) (start : Nat) (t : Thread) : Prop where
  start : start ≤ t.start
  forward : t.start ≤ t.position
  inside : t.position ≤ s.input.length

variable {s : Subject} {start : Nat}

/-- The threads that go on from one inside the text are inside: only a state that accepts the
character at the position moves it. -/
theorem Thread.Inside.next {t : Thread} (h : t.Inside s start) (state : State) :
    ∀ u ∈ t.next s state, u.Inside s start := by
  cases state with
  | accept => exact List.forall_mem_nil _
  | one n q =>
    intro u hu
    rw [Thread.next] at hu
    split at hu
    · rename_i haccepts
      rw [List.mem_singleton] at hu
      subst hu
      obtain ⟨c, hc, -⟩ := (Option.any_eq_true _ _).1 haccepts
      have hlt : t.position < s.input.length := (List.getElem?_eq_some_iff.1 hc).1
      exact ⟨h.start, Nat.le_succ_of_le h.forward, hlt⟩
    · cases hu
  | condition kind q =>
    intro u hu
    rw [Thread.next] at hu
    split at hu
    · rw [List.mem_singleton] at hu
      subst hu
      exact ⟨h.start, h.forward, h.inside⟩
    · cases hu
  | fork qs =>
    intro u hu
    obtain ⟨q, -, rfl⟩ := List.mem_map.1 hu
    exact ⟨h.start, h.forward, h.inside⟩

/-- So is the match that threads inside the text reach the end with. -/
theorem follow_inside (a : Automaton) {fresh : Array Bool} {ts : List Thread}
    (hts : ∀ t ∈ ts, t.Inside s start) {i j : Nat} (h : a.follow s fresh ts = some (i, j)) :
    start ≤ i ∧ i ≤ j ∧ j ≤ s.input.length := by
  fun_induction Automaton.follow a s fresh ts with
  | case1 => cases h
  | case2 fresh t ts _ _ ih => exact ih (fun u hu => hts u (List.mem_cons_of_mem _ hu)) h
  | case3 fresh t ts _ _ =>
    cases h
    obtain ⟨hstart, hforward, hinside⟩ := hts t List.mem_cons_self
    exact ⟨hstart, hforward, hinside⟩
  | case4 fresh t ts _ state _ _ _ ih =>
    refine ih (fun u hu => ?_) h
    rcases List.mem_append.1 hu with hu | hu
    · exact (hts t List.mem_cons_self).next state u hu
    · exact hts u (List.mem_cons_of_mem _ hu)
  | case5 fresh t ts _ ih => exact ih (fun u hu => hts u (List.mem_cons_of_mem _ hu)) h

theorem engine_lawful : engine.Lawful where
  inside {n input start i j} h := by
    refine follow_inside (s := ⟨input, reading n.flags⟩) _ (fun t ht => ?_) h
    obtain ⟨k, hk, rfl⟩ := List.mem_map.1 ht
    obtain ⟨hstart, hend⟩ := List.mem_range'_1.1 hk
    have hin : k ≤ input.length := by
      change k < start + (input.length + 1 - start) at hend
      omega
    exact ⟨hstart, Nat.le_refl _, hin⟩
  holds_eq _ _ := rfl

end Linear

end RegexKit
