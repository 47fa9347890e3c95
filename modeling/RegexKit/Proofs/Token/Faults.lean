import RegexKit.Proofs.Token.Tiling

/-! Where splitting fails. A body that does not split has sound tokens up to the place that is
blamed, and at this place either no token can be read or a bracket opens a class that no later
token closes. What is read at a place depends only on the text after it and on whether a class is
open there, so the text after the place fails alike by itself, behind a bracket when a class is
open. -/

namespace RegexKit.Token

variable {b b' : Bool} {t u v : Text} {ks : List TokenKind} {offset : Nat} {openClass : Option Nat}
  {cause : LexCause} {e : LexError}

/-! ### Steps -/

/-- A text fails where its first token cannot be read. -/
theorem lexFrom_of_first {c : Char} (h : first openClass.isSome c t = .error cause) :
    lexFrom offset openClass (c :: t) = .error ⟨cause, offset⟩ := by
  have hread : (if openClass.isSome then inside c t else outside c t) = .error cause := h
  rw [lexFrom, hread]

/-- A text fails where the rest after its first token does. -/
theorem lexFrom_cons_error {c : Char} {k : TokenKind}
    (hfirst : first openClass.isSome c (v ++ t) = .ok ⟨k, v.length⟩)
    (hrest : lexFrom (offset + Text.bytes (c :: v)) (classAfter k offset openClass) t =
      .error e) : lexFrom offset openClass (c :: (v ++ t)) = .error e := by
  rw [lexFrom_step hfirst, hrest]
  rfl

/-- A text that fails is empty in an open class, or its first token or the rest fails. -/
theorem lexFrom_eq_error (h : lexFrom offset openClass t = .error e) :
    (∃ opened, t = [] ∧ openClass = some opened ∧ e = ⟨.unterminatedClass, opened⟩) ∨
      (∃ c u, t = c :: u ∧ first openClass.isSome c u = .error e.cause ∧ e.offset = offset) ∨
      ∃ c v u k, t = c :: (v ++ u) ∧ first openClass.isSome c (v ++ u) = .ok ⟨k, v.length⟩ ∧
        lexFrom (offset + Text.bytes (c :: v)) (classAfter k offset openClass) u = .error e := by
  cases t with
  | nil =>
    cases openClass with
    | none =>
      rw [lexFrom] at h
      cases h
    | some opened =>
      rw [lexFrom] at h
      exact .inl ⟨opened, rfl, rfl, (Except.error.inj h).symm⟩
  | cons c cs =>
    rw [lexFrom] at h
    split at h
    · rename_i cause hread
      cases h
      exact .inr (.inl ⟨c, cs, rfl, hread, rfl⟩)
    · rename_i k n hread
      have hfirst : first openClass.isSome c cs = .ok ⟨k, n⟩ := hread
      obtain ⟨v, u, rfl, hlen, -⟩ := takes_first _ c cs _ hfirst
      obtain rfl : n = v.length := hlen
      simp only [List.take_left, List.drop_left] at h
      split at h
      · rename_i hrest
        cases h
        exact .inr (.inr ⟨c, v, u, k, rfl, hfirst, hrest⟩)
      · cases h

/-! ### Causes -/

theorem escape_ne_unterminatedClass : escape b t ≠ .error .unterminatedClass := by
  intro h
  cases t with
  | nil => cases h
  | cons x cs =>
    cases escaped_of_eq h with
    | malformed hcause => exact hcause rfl

/-- No token is refused for a class that is not closed. -/
theorem first_ne_unterminatedClass (c : Char) : first b c t ≠ .error .unterminatedClass := by
  intro h
  cases b with
  | true =>
    simp only [first, if_true] at h
    unfold inside at h
    split at h
    · cases h
    · exact escape_ne_unterminatedClass h
    · cases h
  | false =>
    simp only [first, Bool.false_eq_true, if_false] at h
    unfold outside at h
    split at h
    case h_1 => exact escape_ne_unterminatedClass h
    case h_2 => split at h <;> cases h
    case h_3 t =>
      unfold groupOpening at h
      split at h
      case h_6 t _ _ =>
        unfold readName at h
        repeat' split at h
        all_goals cases h
      all_goals cases h
    case h_12 =>
      unfold brace at h
      split at h
      · cases h
      · dsimp only at h
        split at h <;> cases h
    all_goals cases h

/-- Inside a class only escapes are refused. -/
theorem eq_backslash_of_first {c : Char} (h : first true c t = .error cause) : c = '\\' := by
  by_cases hc : c = '\\'
  · exact hc
  · simp only [first, if_true] at h
    unfold inside at h
    split at h
    · cases h
    · exact absurd rfl hc
    · cases h

/-- Only a bracket opens a class. -/
theorem eq_bracket_of_first {c : Char} {n : Nat} {negated : Bool}
    (h : first b c t = .ok ⟨.classOpen negated, n⟩) : c = '[' := by
  have hstands := standsIn_of_first h
  cases b with
  | true => cases hstands
  | false =>
    simp only [first, Bool.false_eq_true, if_false] at h
    unfold outside at h
    split at h
    case h_1 =>
      rcases escape_eq_ok h with ⟨_, hkind⟩ | ⟨_, hkind⟩ | ⟨_, hkind⟩ | ⟨-, hnumber⟩
      · cases hkind
      · cases hkind
      · cases hkind
      · cases hnumber
    case h_2 => rfl
    case h_3 =>
      obtain ⟨_, hkind, -⟩ := groupOpening_eq_ok h
      cases hkind
    case h_9 | h_10 | h_11 =>
      obtain ⟨_, hkind⟩ := kind_quantifier _ _ _ _
      rw [Except.ok.inj h] at hkind
      cases hkind
    case h_12 =>
      rcases brace_eq_ok h with hchar | ⟨_, _, _, hkind, -⟩
      · cases hchar
      · cases hkind
    all_goals cases h

/-! ### Splits -/

/-- A text splits into the same tokens when what follows breaks off earlier. -/
theorem Splits.cut (h : Splits b t u ks b') (hv : v <+: u) : Splits b t v ks b' := by
  induction h with
  | nil => exact .nil _ v
  | @cons b b' c w t u k ks hfirst _ ih =>
    obtain ⟨w', rest, hsplit, hlen, hagain⟩ := takes_first b c _ _ hfirst
    obtain ⟨rfl, rfl⟩ := List.append_inj hsplit hlen
    exact .cons (hagain _ ((List.prefix_append_right_inj t).2 hv)) (ih hv)

/-- What comes of a text is what comes of the rest after the tokens of its beginning, also when the
rest breaks off earlier. -/
theorem Splits.lexFrom_past (h : Splits b t u ks b') (offset : Nat) (openClass : Option Nat)
    (hopen : openClass.isSome = b) :
    ∃ ts opened, opened.isSome = b' ∧ ts.map Token.kind = ks ∧ ∀ v, v <+: u →
      Token.lexFrom offset openClass (t ++ v) =
        (Token.lexFrom (offset + Text.bytes t) opened v).map (ts ++ ·) := by
  induction h generalizing offset openClass with
  | nil =>
    refine ⟨[], openClass, hopen, rfl, fun v _ => ?_⟩
    rw [List.nil_append, Text.bytes_nil, Nat.add_zero]
    cases Token.lexFrom offset openClass v <;> rfl
  | @cons b b' c w t u k ks hfirst _ ih =>
    subst hopen
    obtain ⟨ts, opened, hopened, hkinds, hreads⟩ := ih (offset + Text.bytes (c :: w))
      (classAfter k offset openClass) (isSome_classAfter k offset openClass)
    refine ⟨⟨k, c :: w, offset⟩ :: ts, opened, hopened, by rw [List.map_cons, hkinds],
      fun v hv => ?_⟩
    obtain ⟨w', rest, hsplit, hlen, hagain⟩ := takes_first _ c _ _ hfirst
    obtain ⟨rfl, rfl⟩ := List.append_inj hsplit hlen
    have hcut := hagain _ ((List.prefix_append_right_inj t).2 hv)
    rw [List.cons_append, List.append_assoc, lexFrom_step hcut, hreads v hv, ← List.cons_append,
      Text.bytes_append, ← Nat.add_assoc]
    cases Token.lexFrom (offset + Text.bytes (c :: w) + Text.bytes t) opened v <;> rfl

/-- What is read inside a class does not open another. -/
theorem classAfter_inside {c : Char} {n : Nat} {k : TokenKind} (h : first true c t = .ok ⟨k, n⟩)
    (hk : k ≠ .classClose) (opened : Nat) : classAfter k offset (some opened) = some opened := by
  have hstands := standsIn_of_first h
  cases k with
  | classClose => exact absurd rfl hk
  | char => rfl
  | _ => cases hstands

/-- A text that ends in an open class fails at a bracket, and at the one that it begins after when
no token closes this class. -/
theorem Splits.lexFrom_open (h : Splits b t u ks b') (hu : u = []) (hb' : b' = true) (offset : Nat)
    (openClass : Option Nat) (hopen : openClass.isSome = b) :
    ∃ o, Token.lexFrom offset openClass t = .error ⟨.unterminatedClass, o⟩ ∧
      (.classClose ∉ ks → ∀ opened, openClass = some opened → o = opened) := by
  induction h generalizing offset openClass with
  | nil =>
    cases openClass with
    | none =>
      subst hb'
      cases hopen
    | some opened =>
      rw [Token.lexFrom]
      exact ⟨opened, rfl, fun _ o ho => Option.some.inj ho⟩
  | @cons b b' c v t u k ks hfirst _ ih =>
    subst hu hopen
    rw [List.append_nil] at hfirst
    obtain ⟨o, hlex, ho⟩ := ih rfl hb' (offset + Text.bytes (c :: v))
      (classAfter k offset openClass) (isSome_classAfter k offset openClass)
    refine ⟨o, lexFrom_cons_error hfirst hlex, fun hclose opened hopened => ?_⟩
    subst hopened
    have hk : k ≠ .classClose := fun hk => hclose (hk ▸ List.mem_cons_self)
    exact ho (fun hmem => hclose (List.mem_cons_of_mem _ hmem)) opened
      (classAfter_inside hfirst hk opened)

/-! ### Faults -/

/-- What fails where a text begins, in a class or outside: its first token cannot be read, or it is
a bracket and no later token closes the class. -/
inductive Fault : Bool → Text → LexCause → Prop
  | token {b : Bool} {c : Char} {t : Text} {cause : LexCause} (h : first b c t = .error cause) :
      Fault b (c :: t) cause
  | bracket {t : Text} {negated : Bool} {ks : List TokenKind}
      (hsplits : Splits false t [] (.classOpen negated :: ks) true) (hopen : .classClose ∉ ks) :
      Fault false t .unterminatedClass

theorem Fault.ne_nil (h : Fault b t cause) : t ≠ [] := by
  cases h with
  | token => exact List.cons_ne_nil _ _
  | bracket hsplits =>
    cases hsplits
    exact List.cons_ne_nil _ _

/-- A text fails where it has a fault. -/
theorem Fault.lexFrom (h : Fault openClass.isSome t cause) (offset : Nat) :
    Token.lexFrom offset openClass t = .error ⟨cause, offset⟩ := by
  generalize hb : openClass.isSome = b at h
  cases h with
  | token hfirst => exact lexFrom_of_first (by rwa [hb])
  | @bracket _ negated ks hsplits hopen =>
    cases hsplits with
    | @cons _ _ c v t u k ks hfirst hrest =>
      rw [List.append_nil] at hfirst
      obtain ⟨o, hlex, ho⟩ := hrest.lexFrom_open rfl rfl (offset + Text.bytes (c :: v))
        (classAfter (.classOpen negated) offset openClass) rfl
      obtain rfl : o = offset := ho hopen offset rfl
      exact lexFrom_cons_error (by rwa [hb]) hlex

/-- A text whose first tokens can be read fails at the fault after them. -/
theorem Splits.lexFrom_fault (h : Splits b t u ks b') (hfault : Fault b' u cause) (offset : Nat)
    (openClass : Option Nat) (hopen : openClass.isSome = b) :
    Token.lexFrom offset openClass (t ++ u) = .error ⟨cause, offset + Text.bytes t⟩ := by
  obtain ⟨ts, opened, rfl, -, hreads⟩ := h.lexFrom_past offset openClass hopen
  rw [hreads u (List.prefix_refl u), hfault.lexFrom]
  rfl

/-- A text that fails has sound tokens up to a fault, or it is the rest of a class that was opened
before it and that no token closes. -/
theorem fault_of_lexFrom (h : lexFrom offset openClass t = .error e) :
    (∃ p q ks b, t = p ++ q ∧ Splits openClass.isSome p q ks b ∧ Fault b q e.cause ∧
        e.offset = offset + Text.bytes p) ∨
      ∃ opened ks, openClass = some opened ∧ e = ⟨.unterminatedClass, opened⟩ ∧
        Splits true t [] ks true ∧ .classClose ∉ ks := by
  induction hn : t.length using Nat.strongRecOn generalizing offset openClass t with
  | ind n ih =>
    rcases lexFrom_eq_error h with ⟨opened, rfl, rfl, rfl⟩ | ⟨c, u, rfl, hfirst, hoffset⟩ |
      ⟨c, v, u, k, rfl, hfirst, hrest⟩
    · exact .inr ⟨opened, [], rfl, rfl, .nil true [], List.not_mem_nil⟩
    · exact .inl ⟨[], c :: u, [], openClass.isSome, rfl, .nil _ _, .token hfirst, hoffset⟩
    · have hlt : u.length < n := by
        rw [← hn, List.length_cons, List.length_append]
        omega
      rcases ih u.length hlt hrest rfl with ⟨p, q, ks, b, rfl, hsplits, hfault, hoffset⟩ |
        ⟨opened, ks, hopened, rfl, hsplits, hclose⟩
      · rw [isSome_classAfter] at hsplits
        refine .inl ⟨c :: (v ++ p), q, k :: ks, b, by simp, .cons hfirst hsplits, hfault, ?_⟩
        rw [hoffset, ← List.cons_append, Text.bytes_append, Nat.add_assoc]
      · have hall : Splits openClass.isSome (c :: (v ++ u)) [] (k :: ks) true :=
          .cons (by rwa [List.append_nil]) (by rwa [← isSome_classAfter k offset, hopened])
        -- the class that stays open begins here, or it was open before
        cases openClass with
        | none =>
          cases k with
          | classOpen negated =>
            cases hopened
            exact .inl ⟨[], _, [], false, rfl, .nil _ _, .bracket hall hclose, rfl⟩
          | _ => cases hopened
        | some before =>
          have hk : k ≠ .classClose := by
            rintro rfl
            cases hopened
          rw [classAfter_inside hfirst hk] at hopened
          exact .inr ⟨opened, k :: ks, hopened, rfl, hall,
            fun hmem => (List.mem_cons.1 hmem).elim (fun heq => hk heq.symm) hclose⟩

/-- Reading leaves a class open at the end of the text `t` when the text `u` follows. -/
def OpenAfter (t u : Text) : Prop := ∃ ks, Splits false t u ks true

/-- A text that leaves no class open has tokens, and one that does fails for this class alone. -/
theorem not_openAfter_of_splits (h : Splits false t u ks false) : ¬OpenAfter t u := by
  rintro ⟨ks', hopen⟩
  obtain ⟨ts, hok, -⟩ := (h.cut u.nil_prefix).lexFrom rfl rfl 0 none rfl
  obtain ⟨o, herror, -⟩ := (hopen.cut u.nil_prefix).lexFrom_open rfl rfl 0 none rfl
  rw [hok] at herror
  cases herror

/-- A class that is not closed begins with its bracket. -/
theorem Fault.exists_bracket (h : Fault b t cause) (hcause : cause = .unterminatedClass) :
    ∃ rest negated ks, t = '[' :: rest ∧ Splits false t [] (.classOpen negated :: ks) true ∧
      .classClose ∉ ks := by
  cases h with
  | token hfirst =>
    subst hcause
    exact absurd hfirst (first_ne_unterminatedClass _)
  | @bracket _ negated ks hsplits hopen =>
    cases hsplits with
    | @cons _ _ c v t _ _ _ hfirst hrest =>
      obtain rfl := eq_bracket_of_first hfirst
      exact ⟨v ++ t, negated, ks, rfl, .cons hfirst hrest, hopen⟩

/-- A fault inside a class shows alike when the class begins right before it. -/
theorem Fault.splits_bracket (h : Fault true t cause) :
    Splits false ['['] t [.classOpen false] true := by
  cases h with
  | @token _ c t _ hfirst =>
    obtain rfl := eq_backslash_of_first hfirst
    exact .one rfl

/-- A body that does not split is blamed at the beginning of what fails. The place is a boundary of
two characters of the body or its beginning. Where no class is open, the text before the place has
tokens and the text after it fails alike at its beginning. Inside a class, the text before fails for
this class only, and the text after it fails alike behind a bracket. A class that is not closed is
blamed at its bracket, outside other classes, and no token after the bracket closes it. -/
theorem tokenize_blames {body : Text} (h : tokenize body = .error ⟨cause, offset⟩) :
    ∃ p q, body = p ++ q ∧ Text.bytes p = offset ∧ offset < Text.bytes body ∧
      (¬OpenAfter p q → (∃ ts, tokenize p = .ok ts) ∧ tokenize q = .error ⟨cause, 0⟩) ∧
      (OpenAfter p q → (∃ o, tokenize p = .error ⟨.unterminatedClass, o⟩) ∧
        tokenize ('[' :: q) = .error ⟨cause, 1⟩) ∧
      (cause = .unterminatedClass → ¬OpenAfter p q ∧ ∃ rest negated ks, q = '[' :: rest ∧
        Splits false q [] (.classOpen negated :: ks) true ∧ .classClose ∉ ks) := by
  rcases fault_of_lexFrom h with ⟨p, q, ks, b, rfl, hsplits, hfault, hoffset⟩ | ⟨_, _, hnone, -⟩
  swap
  · cases hnone
  obtain rfl : offset = Text.bytes p := by simpa using hoffset
  refine ⟨p, q, rfl, rfl, ?_, ?_⟩
  · cases q with
    | nil => exact absurd rfl hfault.ne_nil
    | cons c q =>
      have hpos := c.utf8Size_pos
      rw [Text.bytes_append, Text.bytes_cons]
      omega
  cases b with
  | false =>
    have hclosed : ¬OpenAfter p q := not_openAfter_of_splits hsplits
    refine ⟨fun _ => ⟨?_, ?_⟩, fun hopen => absurd hopen hclosed, fun hcause => ⟨hclosed, ?_⟩⟩
    · obtain ⟨ts, hts, -⟩ := tokenize_of_splits (hsplits.cut q.nil_prefix)
      exact ⟨ts, hts⟩
    · exact (Splits.nil false q).lexFrom_fault hfault 0 none rfl
    · exact hfault.exists_bracket hcause
  | true =>
    have hopen : OpenAfter p q := ⟨ks, hsplits⟩
    refine ⟨fun hclosed => absurd hopen hclosed, fun _ => ⟨?_, ?_⟩, fun hcause => ?_⟩
    · obtain ⟨o, ho, -⟩ := (hsplits.cut q.nil_prefix).lexFrom_open rfl rfl 0 none rfl
      exact ⟨o, ho⟩
    · exact hfault.splits_bracket.lexFrom_fault hfault 0 none rfl
    · subst hcause
      cases hfault with
      | token hfirst => exact absurd hfirst (first_ne_unterminatedClass _)

/-- In the body `é[a\xZ` the escape is malformed, which begins inside a class after four bytes. -/
theorem tokenize_blames_escape_in_class :
    tokenize ['é', '[', 'a', '\\', 'x', 'Z'] = .error ⟨.invalidHexEscape, 4⟩ ∧
      tokenize ['[', '\\', 'x', 'Z'] = .error ⟨.invalidHexEscape, 1⟩ ∧
      ∃ o, tokenize ['é', '[', 'a'] = .error ⟨.unterminatedClass, o⟩ := by
  have herror : tokenize ['é', '[', 'a', '\\', 'x', 'Z'] = .error ⟨.invalidHexEscape, 4⟩ := by
    decide +kernel
  obtain ⟨p, q, hcut, hbytes, -, -, hinside, -⟩ := tokenize_blames herror
  have hbody : ['é', '[', 'a'] ++ ['\\', 'x', 'Z'] = p ++ q := hcut
  obtain ⟨rfl, rfl⟩ := append_eq_of_bytes hbody hbytes.symm
  have hopen : OpenAfter ['é', '[', 'a'] ['\\', 'x', 'Z'] :=
    ⟨[.char (.simple 'é'), .classOpen false, .char (.simple 'a')],
      .cons (v := []) rfl (.cons (v := []) rfl (.cons (v := []) rfl (.nil _ _)))⟩
  obtain ⟨hbefore, hafter⟩ := hinside hopen
  exact ⟨herror, hafter, hbefore⟩

end RegexKit.Token
