import RegexKit.Proofs.Grammar.Brackets

/-! Errors that the first tokens decide. The reader takes one token at a time and stops at the first
that it refuses, whatever comes after. Only three errors wait for the last token: a class or a group
that is still open, and a reference to a group that is not among them. The descent looks ahead in
its classes and after its quantifiers, and comes to its errors in another order of calls, but it
answers as the reader does. -/

namespace RegexKit.Parser

variable {s : State} {ts us : List Token} {e : ParseError}

/-- A token that is refused is refused whatever follows. -/
theorem run_append_error (h : run s ts = .error e) (us : List Token) :
    run s (ts ++ us) = .error e := by
  rw [run_append, h]
  rfl

/-- The errors that are known after the last token only. -/
theorem finish_eq_error (h : s.finish = .error e) :
    e.cause = .unterminatedClass ∨ e.cause = .unterminatedGroup ∨
      ∃ target, e.cause = .unresolvedReference target := by
  unfold State.finish at h
  split at h
  · cases h
    exact .inl rfl
  · cases h
    exact .inr (.inl rfl)
  · split at h
    · cases h
      exact .inr (.inr ⟨_, rfl⟩)
    · cases h

/-- Any other error of a token list is that of every list that begins with it. -/
theorem parseTokens_error_of_prefix (h : parseTokens ts = .error e)
    (hclass : e.cause ≠ .unterminatedClass) (hgroup : e.cause ≠ .unterminatedGroup)
    (hreference : ∀ target, e.cause ≠ .unresolvedReference target) (hbegins : ts <+: us) :
    parseTokens us = .error e := by
  obtain ⟨vs, rfl⟩ := hbegins
  cases hrun : run {} ts with
  | error e' =>
    obtain rfl : e' = e := by
      rw [parseTokens, hrun] at h
      exact Except.error.inj h
    rw [parseTokens, run_append_error hrun]
    rfl
  | ok s =>
    rw [parseTokens, hrun] at h
    rcases finish_eq_error h with hcause | hcause | ⟨target, hcause⟩
    · exact absurd hcause hclass
    · exact absurd hcause hgroup
    · exact absurd hcause (hreference target)

end RegexKit.Parser

namespace RegexKit.Descent

open RegexKit.Parser

/-- Apart from groups that are not closed, the descent makes the errors of the reader. -/
theorem descend_eq_fault_iff {ts : List Token} {e : ParseError}
    (hgroup : e.cause ≠ .unterminatedGroup) :
    descend ts = .error (.fault e) ↔ parseTokens ts = .error e := by
  have hanswers := descend_answers ts
  cases hdescend : descend ts with
  | ok n =>
    rw [hdescend] at hanswers
    have hparse : parseTokens ts = .ok n := hanswers
    rw [hparse]
    exact ⟨(by cases ·), (by cases ·)⟩
  | error r =>
    rw [hdescend] at hanswers
    rw [hanswers.eq]
    cases r with
    | fault e' => simp [Refusal.error]
    | unclosedGroup offset found =>
      refine ⟨by simp, fun h => ?_⟩
      cases h
      exact absurd rfl hgroup

theorem parseBody_eq_parse_iff {body : Text} {flags : Flags} {ts : List Token} {r : Refusal}
    (h : Token.tokenize body = .ok ts) :
    parseBody body flags = .error (.parse r) ↔ descend ts = .error r := by
  simp only [parseBody, h, Except.mapError, bind, Except.bind]
  cases hdescend : descend ts with
  | ok n => exact ⟨(by cases ·), (by cases ·)⟩
  | error r' => simp

/-- An error of a body, unless a group is left open or a reference names no group, is made again at
the same offset by every body whose tokens begin with its tokens, in the descent as in the reader of
tokens. What is appended neither cures nor changes it. -/
theorem parseBody_error_of_prefix {body body' : Text} {flags flags' : Flags} {ts us : List Token}
    {r : Refusal} (hts : Token.tokenize body = .ok ts) (hus : Token.tokenize body' = .ok us)
    (hbegins : ts <+: us) (h : parseBody body flags = .error (.parse r))
    (hgroup : r.error.cause ≠ .unterminatedGroup)
    (hreference : ∀ target, r.error.cause ≠ .unresolvedReference target) :
    parseBody body' flags' = .error (.parse r) ∧
      Source.parseBody body' flags' = .error (.parse r.error) := by
  have hclass : r.error.cause ≠ .unterminatedClass := (refused_of_parseBody h).2.1
  cases r with
  | unclosedGroup offset found => exact absurd rfl hgroup
  | fault e =>
    have hfirst : parseTokens ts = .error e :=
      (descend_eq_fault_iff hgroup).1 ((parseBody_eq_parse_iff hts).1 h)
    have hsecond : parseTokens us = .error e :=
      parseTokens_error_of_prefix hfirst hclass hgroup hreference hbegins
    have hbody : parseBody body' flags' = .error (.parse (.fault e)) :=
      (parseBody_eq_parse_iff hus).2 ((descend_eq_fault_iff hgroup).2 hsecond)
    refine ⟨hbody, ?_⟩
    rw [← parseBody_eq, hbody]
    rfl

/-- In the class of `[b-a]` the ends are out of order, and so they are when a group follows that is
left open. -/
theorem parseBody_error_of_prefix_range :
    parseBody ['[', 'b', '-', 'a', ']'] {} =
        .error (.parse (.fault ⟨.rangeOutOfOrder ['b'] ['a'], 1⟩)) ∧
      parseBody ['[', 'b', '-', 'a', ']', '('] {} =
        .error (.parse (.fault ⟨.rangeOutOfOrder ['b'] ['a'], 1⟩)) := by
  have htokens : Token.tokenize ['[', 'b', '-', 'a', ']'] = .ok [⟨.classOpen false, ['['], 0⟩,
      ⟨.char (.simple 'b'), ['b'], 1⟩, ⟨.char (.simple '-'), ['-'], 2⟩,
      ⟨.char (.simple 'a'), ['a'], 3⟩, ⟨.classClose, [']'], 4⟩] := by
    decide +kernel
  have htokens' : Token.tokenize ['[', 'b', '-', 'a', ']', '('] =
      .ok [⟨.classOpen false, ['['], 0⟩, ⟨.char (.simple 'b'), ['b'], 1⟩,
        ⟨.char (.simple '-'), ['-'], 2⟩, ⟨.char (.simple 'a'), ['a'], 3⟩, ⟨.classClose, [']'], 4⟩,
        ⟨.groupOpen .capturing, ['('], 5⟩] := by
    decide +kernel
  have hbody : parseBody ['[', 'b', '-', 'a', ']'] {} =
      .error (.parse (.fault ⟨.rangeOutOfOrder ['b'] ['a'], 1⟩)) := by
    refine (parseBody_eq_parse_iff htokens).2 ((descend_eq_fault_iff (by simp)).2 ?_)
    decide +kernel
  have happended : parseBody ['[', 'b', '-', 'a', ']', '('] {} = _ ∧ _ :=
    parseBody_error_of_prefix htokens htokens' (List.prefix_append _ [_]) hbody
      (by simp [Refusal.error]) (by simp [Refusal.error])
  exact ⟨hbody, happended.1⟩

/-- A group that is left open and a reference to no group are cured by what is appended. -/
example : Source.parseBody ['('] {} = .error (.parse ⟨.unterminatedGroup, 0⟩) ∧
    (Source.parseBody ['(', ')'] {}).toBool = true ∧
    Source.parseBody ['\\', '1'] {} = .error (.parse ⟨.unresolvedReference (.number 1), 0⟩) ∧
    (Source.parseBody ['\\', '1', '(', ')'] {}).toBool = true := by decide +kernel

end RegexKit.Descent
