import RegexKit.Proofs.Grammar.Descent

/-! Tokens that cannot stand where they would be an error. In the tokens of a body the brackets of
classes come in pairs with characters alone between them, so a class is read up to its bracket and
no bracket is met elsewhere. A descent into a group comes back at its parenthesis or at the end of
the tokens. -/

namespace RegexKit.Descent

open RegexKit.Parser
open Token (inClassAfterAll Produced)

/-! ### Brackets of classes -/

def isBracket : TokenKind → Bool
  | .classOpen _ | .classClose => true
  | _ => false

/-- Every bracket that opens a class is followed by characters and a bracket that closes it, and
there are no other closing brackets. -/
inductive Delimited : List TokenKind → Prop
  | nil : Delimited []
  | outside {k : TokenKind} {ks : List TokenKind} :
      isBracket k = false → Delimited ks → Delimited (k :: ks)
  | pair (negated : Bool) (cs : List PatternChar) {ks : List TokenKind} :
      Delimited ks → Delimited (.classOpen negated :: (cs.map .char ++ .classClose :: ks))

/-- Tokens that begin inside a class or outside and end outside. -/
theorem delimited_of_produced {b : Bool} {ks : List TokenKind} (h : Produced b ks)
    (hclosed : inClassAfterAll b ks = false) :
    match b with
    | false => Delimited ks
    | true => ∃ (cs : List PatternChar) (ls : List TokenKind),
        ks = cs.map .char ++ .classClose :: ls ∧ Delimited ls := by
  induction ks generalizing b with
  | nil =>
    cases hclosed
    exact .nil
  | cons k ks ih =>
    obtain ⟨⟨x, w, n, hfirst⟩, -, hrest⟩ := h
    have hstands := Token.standsIn_of_first hfirst
    have hnext := ih hrest hclosed
    cases b with
    | false =>
      cases k with
      | classOpen negated =>
        obtain ⟨cs, ls, rfl, hls⟩ := hnext
        exact .pair negated cs hls
      | classClose => cases hstands
      | _ => exact .outside rfl hnext
    | true =>
      cases k with
      | char c =>
        obtain ⟨cs, ls, rfl, hls⟩ := hnext
        exact ⟨c :: cs, ls, rfl, hls⟩
      | classClose => exact ⟨[], ks, rfl, hnext⟩
      | _ => cases hstands

theorem delimited_of_tokenize {body : Text} {ts : List Token} (h : Token.tokenize body = .ok ts) :
    Delimited (ts.map Token.kind) :=
  delimited_of_produced (b := false) (Token.produced_of_tokenize h)
    (Token.inClassAfterAll_of_lexFrom h)

/-! ### Errors that are not met -/

/-- Every error of the reader is true of the tokens of a body. -/
theorem blamed_of_parseTokens {body : Text} {ts : List Token} {e : ParseError}
    (hlex : Token.tokenize body = .ok ts) (h : parseTokens ts = .error e) : Blamed ts e := by
  have hproduced := Token.produced_of_tokenize hlex
  unfold parseTokens at h
  cases hrun : run {} ts with
  | error e' =>
    rw [hrun] at h
    cases h
    exact run_blamed records_init hproduced hrun
  | ok s =>
    rw [hrun] at h
    exact finish_blamed (run_records records_init hproduced hrun)
      (Token.inClassAfterAll_of_lexFrom hlex) h

/-- The descent gives the tree and the errors of the reader of tokens. -/
theorem parseBody_eq (body : Text) (flags : Flags) :
    (parseBody body flags).mapError BodyError.error = Source.parseBody body flags := by
  rw [parseBody, Source.parseBody]
  cases hlex : Token.tokenize body with
  | error e => rfl
  | ok ts =>
    have hanswers := descend_answers ts
    cases hdescend : descend ts with
    | error e =>
      rw [hdescend] at hanswers
      simp only [Except.mapError, bind, Except.bind, hanswers.eq, hdescend, BodyError.error]
    | ok n =>
      rw [hdescend] at hanswers
      have hparse : parseTokens ts = .ok n := hanswers
      simp only [Except.mapError, bind, Except.bind, hparse, hdescend]
      rfl

/-- A refusal of a body blames no token for standing where it stands, nor a class for not being
closed, and a group that is not closed has met the end. -/
theorem refused_of_parseBody {body : Text} {flags : Flags} {e : Refusal}
    (h : parseBody body flags = .error (.parse e)) :
    (∀ found, e.error.cause ≠ .unexpectedToken found) ∧ e.error.cause ≠ .unterminatedClass ∧
      (e.error.cause = .unterminatedGroup → e = .unclosedGroup e.error.offset endOfInput) := by
  unfold parseBody at h
  cases hlex : Token.tokenize body with
  | error e' =>
    rw [hlex] at h
    cases h
  | ok ts =>
    rw [hlex] at h
    have hanswers := descend_answers ts
    cases hdescend : descend ts with
    | ok n =>
      simp only [Except.mapError, bind, Except.bind, hdescend] at h
      cases h
    | error e' =>
      simp only [Except.mapError, bind, Except.bind, hdescend] at h
      cases h
      rw [hdescend] at hanswers
      obtain ⟨_, _, _, -, -, hfault⟩ := blamed_of_parseTokens hlex hanswers.eq
      refine ⟨fun found hcause => ?_, fun hcause => ?_, hanswers.found⟩ <;>
      · rw [hcause] at hfault
        exact hfault

/-- A body is never refused for a token that is not expected, nor by the reader of classes for a
class that is not closed, and where a group is not closed the end of the input was found. For the
brackets of classes among the tokens come in pairs with characters alone between them, and a choice
is left at a closing parenthesis or at the end only. -/
theorem parseBody_meets_no_fallback (body : Text) (flags : Flags) :
    (parseBody body flags).mapError BodyError.error = Source.parseBody body flags ∧
    (∀ e, parseBody body flags = .error (.parse e) →
      (∀ found, e.error.cause ≠ .unexpectedToken found) ∧ e.error.cause ≠ .unterminatedClass ∧
        (e.error.cause = .unterminatedGroup → e = .unclosedGroup e.error.offset endOfInput)) ∧
    (∀ ts, Token.tokenize body = .ok ts → Delimited (ts.map Token.kind)) ∧
    ∀ (inner : GroupReader) (done : List Node) (ts : List Token) (ν : Notes)
      (r : Reading Node ts.length), disjunction inner done ts ν = .ok r →
      r.rest = [] ∨ ∃ t us, r.rest = t :: us ∧ t.kind = .groupClose := by
  refine ⟨parseBody_eq body flags, fun e => refused_of_parseBody, fun ts => delimited_of_tokenize,
    fun inner done ts ν r h => ?_⟩
  have hnext := disjunction_next inner done ts ν
  rw [h] at hnext
  cases hrest : r.rest with
  | nil => exact .inl rfl
  | cons t us => exact .inr ⟨t, us, rfl, hnext t (by rw [hrest]; rfl)⟩

/-- The group of `(a` is not closed, and what was found is the end of the input. -/
theorem parseBody_meets_no_fallback_unclosed :
    parseBody ['(', 'a'] {} = .error (.parse (.unclosedGroup 0 endOfInput)) := by
  obtain ⟨heq, hrefused, -, -⟩ := parseBody_meets_no_fallback ['(', 'a'] {}
  have hsource : Source.parseBody ['(', 'a'] {} = .error (.parse ⟨.unterminatedGroup, 0⟩) := by
    decide +kernel
  rw [hsource] at heq
  cases hbody : parseBody ['(', 'a'] {} with
  | ok n =>
    rw [hbody] at heq
    cases heq
  | error e =>
    rw [hbody] at heq
    cases e with
    | lex e => cases heq
    | parse e =>
      have he : e.error = ⟨.unterminatedGroup, 0⟩ :=
        SourceError.parse.inj (Except.error.inj heq)
      have hfound := (hrefused e hbody).2.2 (by rw [he])
      rw [hfound, he]

end RegexKit.Descent
