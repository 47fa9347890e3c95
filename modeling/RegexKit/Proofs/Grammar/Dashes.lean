import RegexKit.Proofs.Grammar.Descent

/-! Dashes next to characters without a code point. Such a character and a dash begin no range, and
reading goes on at the dash, which may then begin a range itself, or leave the next character to
begin one. So a class escape, a dash and a character are three members only when what comes after
them makes no range with the dash or with the character. -/

namespace RegexKit.Descent

open RegexKit.Parser (Frame Level)
open Descent.Reads

namespace Reads

variable {α β : Type} {n m : Nat}

/-- A reading without the bound on what it leaves. -/
def outcome (x : Reads α n) : Except Refusal (α × List Token × Notes) :=
  x.map fun r => (r.value, r.rest, r.notes)

@[simp] theorem outcome_within {x : Reads α m} {h : m ≤ n} : (x.within h).outcome = x.outcome := by
  cases x <;> rfl

end Reads

variable {offset : Nat} {done : List Node} {ts rest : List Token} {ν : Notes} {t : Token}
  {c : PatternChar}

/-! ### One member -/

/-- Reading at a character of a class, with what is done about a range that it may begin. -/
theorem outcome_members_char (ht : t.kind = .char c) :
    (members offset done (t :: ts) ν).outcome =
      match rangeEnd? c ts with
      | some (e, x, y) =>
        if x ≤ y then (members offset (.classRange c e :: done) (ts.drop 2) ν).outcome
        else .error (.fault ⟨.rangeOutOfOrder c.value e.value, t.offset⟩)
      | none => (members offset (.char c :: done) ts ν).outcome := by
  rw [members, ht]
  dsimp only
  cases rangeEnd? c ts with
  | none => exact outcome_within
  | some found =>
    obtain ⟨e, x, y⟩ := found
    dsimp only
    split
    · exact outcome_within
    · rfl

/-- What is done stays done. -/
theorem members_prefix (offset : Nat) (done : List Node) (ts : List Token) (ν : Notes) :
    (members offset done ts ν).Sat (fun _ => True) fun ms _ _ => done.reverse <+: ms := by
  have earlier {n : Node} {done ms : List Node} (h : (n :: done).reverse <+: ms) :
      done.reverse <+: ms := by
    rw [List.reverse_cons] at h
    exact (List.prefix_append _ _).trans h
  fun_induction members offset done ts ν with
  | case1 done => exact trivial
  | case2 done t ts hkind => exact List.prefix_rfl
  | case3 done t ts low hkind high x y hrange hle ih =>
    exact sat_within.2 (ih.imp fun _ _ _ => earlier)
  | case4 done t ts low hkind high x y hrange hle => exact trivial
  | case5 done t ts low hkind hrange ih => exact sat_within.2 (ih.imp fun _ _ _ => earlier)
  | case6 done t ts hclose hchar => exact trivial

theorem prefix_of_outcome {ms : List Node} {us : List Token} {ν' : Notes}
    (h : (members offset done ts ν).outcome = .ok (ms, us, ν')) : done.reverse <+: ms := by
  have hprefix := members_prefix offset done ts ν
  cases hread : members offset done ts ν with
  | error e =>
    rw [hread] at h
    cases h
  | ok r =>
    rw [hread] at h hprefix
    cases h
    exact hprefix

/-- Where a class is read, the reader that takes one token at a time pushes it with its members. -/
theorem answer_of_outcome {ms : List Node} {us : List Token} {ν' : Notes}
    (h : (members offset done ts ν).outcome = .ok (ms, us, ν')) (fs : List Frame) (l : Level)
    (negated : Bool) :
    answer (inClass fs l ν ⟨negated, offset, done, .nothing⟩) ts =
      answer (standing fs (l.push (.charClass negated ms) true) ν') us := by
  have hanswer := members_sat (rfl : answer (inClass fs l ν ⟨negated, offset, done, .nothing⟩) ts = _)
  cases hread : members offset done ts ν with
  | error e =>
    rw [hread] at h
    cases h
  | ok r =>
    rw [hread] at h hanswer
    cases h
    exact hanswer

/-- A range that was read is a member. -/
theorem prefix_of_range {ms : List Node} {us : List Token} {ν' : Notes} {low high : PatternChar}
    {x y : Nat} {e : Refusal}
    (h : (if x ≤ y then (members offset (.classRange low high :: done) ts ν).outcome
      else .error e) = .ok (ms, us, ν')) : done.reverse ++ [.classRange low high] <+: ms := by
  split at h
  · have hprefix := prefix_of_outcome h
    rwa [List.reverse_cons] at hprefix
  · cases h

/-- Members that begin with a range in some place do not begin with a character there. -/
theorem not_prefix_of_range {ns ms : List Node} {low high : PatternChar}
    (h : ns ++ [.classRange low high] <+: ms) (d : PatternChar) (ns' : List Node) :
    ¬ns ++ .char d :: ns' <+: ms := by
  intro h'
  have hle : (ns ++ [Node.classRange low high]).length ≤ (ns ++ .char d :: ns').length := by
    simp only [List.length_append, List.length_cons, List.length_nil]
    omega
  have hboth := (List.prefix_append_right_inj ns).1 (List.prefix_of_prefix_length_le h h' hle)
  cases (List.cons_prefix_cons.1 hboth).1

/-! ### A character, a dash and a character -/

variable {d dash : PatternChar} {tc tdash td : Token}

/-- Two characters one of which has no code point are not the ends of a range. -/
theorem rangeEnd?_of_no_codePoint (hdash : tdash.kind = .char dash) (hd : td.kind = .char d)
    (hnone : c.codePoint? = none ∨ d.codePoint? = none) :
    rangeEnd? c (tdash :: td :: rest) = none := by
  rw [rangeEnd?, hdash, hd]
  rcases hnone with hnone | hnone
  · rw [hnone]
  · cases c.codePoint? with
    | none => rfl
    | some x => simp [hnone]

/-- After a character that begins no range, the dash and the other character are members too exactly
when they begin no range. -/
theorem prefix_iff_of_no_range {ms : List Node} {us : List Token} {ν' : Notes}
    (hc : tc.kind = .char c) (hdash : tdash.kind = .char dash) (hd : td.kind = .char d)
    (hfirst : rangeEnd? c (tdash :: td :: rest) = none)
    (h : (members offset done (tc :: tdash :: td :: rest) ν).outcome = .ok (ms, us, ν')) :
    done.reverse ++ [.char c, .char dash, .char d] <+: ms ↔
      rangeEnd? dash (td :: rest) = none ∧ rangeEnd? d rest = none := by
  rw [outcome_members_char hc, hfirst] at h
  dsimp only at h
  rw [outcome_members_char hdash] at h
  cases hsecond : rangeEnd? dash (td :: rest) with
  | some found =>
    rw [hsecond] at h
    have hnot := not_prefix_of_range (prefix_of_range h) dash [.char d]
    rw [List.reverse_cons, List.append_assoc] at hnot
    exact iff_of_false hnot fun hboth => by cases hboth.1
  | none =>
    rw [hsecond] at h
    dsimp only at h
    rw [outcome_members_char hd] at h
    cases hthird : rangeEnd? d rest with
    | some found =>
      rw [hthird] at h
      have hnot := not_prefix_of_range (prefix_of_range h) d []
      rw [List.reverse_cons, List.reverse_cons, List.append_assoc, List.append_assoc] at hnot
      exact iff_of_false hnot fun hboth => by cases hboth.2
    | none =>
      rw [hthird] at h
      have hprefix := prefix_of_outcome h
      simp only [List.reverse_cons, List.append_assoc] at hprefix
      exact iff_of_true hprefix ⟨rfl, rfl⟩

/-- A character, a dash and another character, one of them without a code point, are no range. The
first is a member of its own, and reading goes on at the dash. Exactly when the dash begins no range
with what follows, nor does the other character, the three are members one after another and
reading goes on after them. These are the members of the class in the tree. -/
theorem members_declined_range (hc : tc.kind = .char c) (hdash : tdash.kind = .char dash)
    (hd : td.kind = .char d) (hnone : c.codePoint? = none ∨ d.codePoint? = none) :
    (members offset done (tc :: tdash :: td :: rest) ν).outcome =
      (match rangeEnd? dash (td :: rest), rangeEnd? d rest with
        | some (e, x, y), _ =>
          if x ≤ y then
            (members offset (.classRange dash e :: .char c :: done) (rest.drop 1) ν).outcome
          else .error (.fault ⟨.rangeOutOfOrder dash.value e.value, tdash.offset⟩)
        | none, some (e, x, y) =>
          if x ≤ y then
            (members offset (.classRange d e :: .char dash :: .char c :: done)
              (rest.drop 2) ν).outcome
          else .error (.fault ⟨.rangeOutOfOrder d.value e.value, td.offset⟩)
        | none, none =>
          (members offset (.char d :: .char dash :: .char c :: done) rest ν).outcome) ∧
    ∀ ms us ν', (members offset done (tc :: tdash :: td :: rest) ν).outcome = .ok (ms, us, ν') →
      (done.reverse ++ [.char c, .char dash, .char d] <+: ms ↔
        rangeEnd? dash (td :: rest) = none ∧ rangeEnd? d rest = none) ∧
      ∀ fs l negated,
        answer (inClass fs l ν ⟨negated, offset, done, .nothing⟩) (tc :: tdash :: td :: rest) =
          answer (standing fs (l.push (.charClass negated ms) true) ν') us := by
  have hfirst : rangeEnd? c (tdash :: td :: rest) = none :=
    rangeEnd?_of_no_codePoint hdash hd hnone
  refine ⟨?_, fun ms us ν' h =>
    ⟨prefix_iff_of_no_range hc hdash hd hfirst h, answer_of_outcome h⟩⟩
  rw [outcome_members_char hc, hfirst]
  dsimp only
  rw [outcome_members_char hdash]
  cases rangeEnd? dash (td :: rest) with
  | some found => rfl
  | none =>
    dsimp only
    rw [outcome_members_char hd]
    cases rangeEnd? d rest <;> rfl

/-- In `[\d-a-z]` the escape and the dash are members, and the letter after the dash begins a
range. -/
theorem members_declined_range_letter :
    (members 0 [] [⟨.char ⟨['\\', 'd'], .special, false⟩, ['\\', 'd'], 1⟩,
      ⟨.char (.simple '-'), ['-'], 3⟩, ⟨.char (.simple 'a'), ['a'], 4⟩,
      ⟨.char (.simple '-'), ['-'], 5⟩, ⟨.char (.simple 'z'), ['z'], 6⟩,
      ⟨.classClose, [']'], 7⟩] {}).outcome =
      .ok ([.char ⟨['\\', 'd'], .special, false⟩, .char (.simple '-'),
        .classRange (.simple 'a') (.simple 'z')], [], {}) := by
  refine (members_declined_range rfl rfl rfl (.inl rfl)).1.trans ?_
  change (members 0 [.classRange (.simple 'a') (.simple 'z'), .char (.simple '-'),
    .char ⟨['\\', 'd'], .special, false⟩] [⟨.classClose, [']'], 7⟩] {}).outcome = _
  rw [members]
  rfl

/-- The pattern `/[\d-a-z]/` does not have the escape, the dash and the letter as members one after
another, although a class escape has no code point. -/
theorem letter_after_escape_and_dash_begins_range :
    Source.parse ['/', '[', '\\', 'd', '-', 'a', '-', 'z', ']', '/'] =
        .ok (.regExp (.charClass false [.char ⟨['\\', 'd'], .special, false⟩, .char (.simple '-'),
          .classRange (.simple 'a') (.simple 'z')]) {}) ∧
      PatternChar.codePoint? ⟨['\\', 'd'], .special, false⟩ = none ∧
      ¬[Node.char ⟨['\\', 'd'], .special, false⟩, .char (.simple '-'), .char (.simple 'a')] <:+:
        [.char ⟨['\\', 'd'], .special, false⟩, .char (.simple '-'),
          .classRange (.simple 'a') (.simple 'z')] := by
  decide +kernel

end RegexKit.Descent
