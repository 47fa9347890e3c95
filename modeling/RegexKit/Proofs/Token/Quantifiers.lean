import RegexKit.Proofs.Token.Denotation
import RegexKit.Proofs.Token.Faults

/-! Which opening braces begin quantifiers. Reading gets past a text when it makes tokens of it,
leaves no class open and goes on with the text after it. An opening brace that reading gets to
begins a quantifier exactly when the text from it has the form of one and its bounds are words; the
quantifier then takes up this text and the mark of a lazy one. A text of this form with another
bound is refused at the brace. Any other text leaves the brace a character, and the digits after it
are characters as well, however many they are. -/

namespace RegexKit.Token

variable {b b' b'' : Bool} {p t u v raw low : Text} {high : Option Text} {k : TokenKind}
  {ks ls : List TokenKind} {ts : List Token} {min : Nat} {max : Option Nat} {greedy : Bool}

/-! ### Reading past a text -/

/-- A text that splits begins with its first token. -/
theorem Splits.exists_first (h : Splits b t u (k :: ks) b') :
    ∃ c v rest, t = c :: (v ++ rest) ∧ first b c (v ++ (rest ++ u)) = .ok ⟨k, v.length⟩ ∧
      Splits (inClassAfter b k) rest u ks b' := by
  cases h with
  | cons hfirst hrest => exact ⟨_, _, _, rfl, hfirst, hrest⟩

/-- After the tokens of its beginning come those of the rest of a text. -/
theorem Splits.after (h : Splits b p (t ++ u) ks b') (hall : Splits b (p ++ t) u (ks ++ ls) b'') :
    Splits b' t u ls b'' := by
  generalize hw : t ++ u = w at h
  induction h with
  | nil => exact hall
  | @cons b b' c v p w k ks hfirst _ ih =>
    subst hw
    rw [List.cons_append, List.cons_append] at hall
    obtain ⟨d, v', rest, hsplit, hfirst', hrest⟩ := hall.exists_first
    obtain ⟨rfl, htail⟩ := List.cons.inj hsplit
    -- both read the same token, so they cut the text at the same place
    have htext : v' ++ (rest ++ u) = v ++ (p ++ (t ++ u)) := by
      rw [← List.append_assoc, ← htail, List.append_assoc, List.append_assoc]
    rw [htext, hfirst] at hfirst'
    have hlen : v.length = v'.length := by injection hfirst' with hl; injection hl
    rw [List.append_assoc] at htail
    obtain ⟨-, rfl⟩ := List.append_inj htail hlen
    exact ih hrest rfl

/-- Reading gets past the text `p`, as the tokens `ts` and with no class open, when the text `u`
follows. What comes of a body is then what comes of the text after `p`, also when `u` breaks off
earlier. -/
structure Past (p : Text) (ts : List Token) (u : Text) : Prop where
  splits : Splits false p u (ts.map Token.kind) false
  reads : ∀ v, v <+: u →
    tokenize (p ++ v) = (lexFrom (Text.bytes p) none v).map (ts ++ ·)

theorem Splits.past (h : Splits false p u ks false) :
    ∃ ts, ts.map Token.kind = ks ∧ Past p ts u := by
  obtain ⟨ts, opened, hopened, hkinds, hreads⟩ := h.lexFrom_past 0 none rfl
  cases opened with
  | some _ => cases hopened
  | none =>
    refine ⟨ts, hkinds, hkinds.symm ▸ h, fun v hv => ?_⟩
    rw [tokenize, hreads v hv, Nat.zero_add]

theorem Past.goesOn (h : Past p ts u) :
    tokenize (p ++ u) = (lexFrom (Text.bytes p) none u).map (ts ++ ·) :=
  h.reads u (List.prefix_refl u)

theorem Past.tokens (h : Past p ts u) : tokenize p = .ok ts := by
  have hp := h.reads [] List.nil_prefix
  rw [List.append_nil, lexFrom] at hp
  rw [hp]
  exact congrArg Except.ok (List.append_nil ts)

/-- Reading gets past the text that comes next, with the tokens of this text. -/
theorem Past.append (h : Past p ts (t ++ u)) (ht : Splits false t u ks false) :
    ∃ us, lexFrom (Text.bytes p) none t = .ok us ∧ us.map Token.kind = ks ∧
      Past (p ++ t) (ts ++ us) u := by
  obtain ⟨all, hkinds, hpast⟩ := (h.splits.append ht).past
  have hreads := h.reads t (List.prefix_append t u)
  rw [hpast.tokens] at hreads
  cases hlex : lexFrom (Text.bytes p) none t with
  | error e =>
    rw [hlex] at hreads
    cases hreads
  | ok us =>
    rw [hlex] at hreads
    cases hreads
    rw [List.map_append] at hkinds
    exact ⟨us, rfl, List.append_cancel_left hkinds, hpast⟩

/-- Reading gets past one more token. -/
theorem Past.step (h : Past p ts (raw ++ u)) (hraw : Splits false raw u [k] false) :
    Past (p ++ raw) (ts ++ [⟨k, raw, Text.bytes p⟩]) u := by
  obtain ⟨us, hlex, -, hpast⟩ := h.append hraw
  obtain ⟨c, w, rest, rfl, -, hrest⟩ := hraw.exists_first
  generalize hb : inClassAfter false k = b at hrest
  cases hrest
  have hclosed : classAfter k (Text.bytes p) none = none := by
    rw [← Option.not_isSome_iff_eq_none, isSome_classAfter]
    exact ne_true_of_eq_false hb
  rw [List.append_nil] at hraw hlex hpast ⊢
  have hone : lexFrom (Text.bytes p) none (c :: (w ++ [])) =
      .ok [⟨k, c :: w, Text.bytes p⟩] :=
    lexFrom_cons (hraw.cut List.nil_prefix).first_of_one (by rw [hclosed, lexFrom])
  rw [List.append_nil, hlex] at hone
  rwa [Except.ok.inj hone] at hpast

/-! ### Forms of quantifiers -/

/-- Adding up digits from the left gives their positional value. -/
theorem ofDigitChars_eq_numeral {ds : Text} (hds : ∀ d ∈ ds, d.isDigit = true) (value : Nat) :
    Nat.ofDigitChars 10 ds value = 10 ^ ds.length * value + numeral 10 ds := by
  induction ds generalizing value with
  | nil => simp [numeral]
  | cons d ds ih =>
    obtain ⟨hd, hds⟩ := List.forall_mem_cons.1 hds
    have hvalue : digitValue d = d.toNat - '0'.toNat := if_pos hd
    rw [Nat.ofDigitChars_cons, ih hds, numeral_cons, hvalue, List.length_cons, pow_succ]
    ring

theorem IsDigits.ofDecimal {ds : Text} (h : IsDigits ds) :
    Numeral.ofDecimal ds = numeral 10 ds := by
  rw [Numeral.ofDecimal, ofDigitChars_eq_numeral h.2, Nat.mul_zero, Nat.zero_add]

theorem BracedBounds.ofDecimal (h : BracedBounds t low high) :
    Numeral.ofDecimal low = numeral 10 low ∧
      high.map Numeral.ofDecimal = high.map (numeral 10) :=
  ⟨h.isDigits.1.ofDecimal, Option.map_congr fun ds hds => (h.isDigits.2 ds hds).ofDecimal⟩

/-- The texts from an opening brace to a closing one that have the form of a quantifier, with the
bounds that their digits write. -/
inductive BracedQuantifier : Text → Nat → Option Nat → Prop
  | bounds {t low : Text} {high : Option Text} (h : BracedBounds t low high) :
      BracedQuantifier ('\x7b' :: t) (numeral 10 low) (high.map (numeral 10))

/-- A text of this form whose bounds are words is a quantifier. -/
theorem BracedQuantifier.splits (h : BracedQuantifier t min max) (hwords : AreWords min max)
    (greedy : Bool) (hu : greedy = true → u.head? ≠ some '?') :
    Splits false (t ++ if greedy then [] else ['?']) u [.quantifier min max greedy] false := by
  cases h with
  | bounds hform => exact splits_braces greedy hform hform.ofDecimal.1 hform.ofDecimal.2 hwords hu

/-- Reading gets past a text of this form whose bounds are words as one quantifier, with the mark of
a lazy one when it follows. -/
theorem Past.quantifier (h : Past p ts (t ++ u)) (hform : BracedQuantifier t min max)
    (hwords : AreWords min max) :
    (u.head? ≠ some '?' →
      Past (p ++ t) (ts ++ [⟨.quantifier min max true, t, Text.bytes p⟩]) u) ∧
    ∀ v, u = '?' :: v → Past (p ++ (t ++ ['?']))
      (ts ++ [⟨.quantifier min max false, t ++ ['?'], Text.bytes p⟩]) v := by
  refine ⟨fun hu => h.step ?_, ?_⟩
  · have hgreedy := hform.splits hwords true fun _ => hu
    rwa [if_pos rfl, List.append_nil] at hgreedy
  · rintro v rfl
    rw [← List.singleton_append, ← List.append_assoc] at h
    exact h.step (hform.splits hwords false (fun hfalse => absurd hfalse Bool.false_ne_true))

/-- A text of this form with another bound is refused. -/
theorem BracedQuantifier.fault (h : BracedQuantifier t min max) (hwords : ¬AreWords min max)
    (u : Text) : Fault false (t ++ u) .quantifierOverflow := by
  cases h with
  | bounds hform =>
    rw [← hform.ofDecimal.1, ← hform.ofDecimal.2] at hwords
    exact .token (hform.brace_overflow hwords u)

/-- A brace begins no quantifier but those of this form whose bounds are words. -/
theorem exists_bracedQuantifier (h : Splits false raw u [.quantifier min max greedy] b)
    (ht : '\x7b' :: t = raw ++ u) :
    ∃ text min max rest, '\x7b' :: t = text ++ rest ∧ BracedQuantifier text min max ∧
      AreWords min max := by
  obtain ⟨c, v, rest, rfl, hfirst, -⟩ := h.exists_first
  rw [List.cons_append] at ht
  obtain ⟨rfl, rfl⟩ := List.cons.inj ht
  rw [List.append_assoc]
  obtain ⟨w, r, low, high, hw, hform, hwords⟩ := bracedBounds_of_brace hfirst rfl
  rw [hform.ofDecimal.1, hform.ofDecimal.2] at hwords
  exact ⟨_, _, _, r, congrArg _ hw, .bounds hform, hwords⟩

/-- A brace from which no text has this form is a character. -/
theorem splits_brace_literal
    (h : ∀ text min max u, '\x7b' :: t = text ++ u → ¬BracedQuantifier text min max) :
    Splits false ['\x7b'] t [.char (.simple '\x7b')] false := by
  refine .one (k := .char (.simple '\x7b')) (brace_literal fun w u low high ht hform => ?_)
  exact h _ _ _ u (congrArg _ ht) (.bounds hform)

/-- Digits are characters wherever a token may begin. -/
theorem splits_digits {ds : Text} (hds : ∀ d ∈ ds, d.isDigit = true) (u : Text) :
    Splits false ds u (ds.map fun d => .char (.simple d)) false := by
  induction ds with
  | nil => exact .nil false u
  | cons d ds ih =>
    obtain ⟨hd, hds⟩ := List.forall_mem_cons.1 hds
    have hplain : (PatternChar.reserved .pattern).contains d = false := by
      refine Bool.eq_false_iff.2 fun hmem => ?_
      rw [List.contains_iff_mem] at hmem
      have hnone : (PatternChar.reserved .pattern).all (fun c => !c.isDigit) = true := by decide
      have hno := List.all_eq_true.1 hnone d hmem
      rw [hd] at hno
      cases hno
    exact .cons (v := []) (outside_of_not_reserved hplain _) (ih hds)

/-- What the brace is read as that reading gets to after the text `p`, outside classes. It begins a
quantifier exactly when a text from it has the form of one and the bounds that its digits write are
words. The quantifier then has these bounds; it takes up this text, and when a question mark follows
this as well, which makes it lazy. A text of the form with another bound is refused at the brace.
When no text from the brace has the form, the brace alone is taken up, as a character, and digits
after it, however many, are characters too. -/
theorem tokenize_brace (hmet : Splits false p ('\x7b' :: t) ks false) :
    ∃ ts, ts.map Token.kind = ks ∧ Past p ts ('\x7b' :: t) ∧
      ((∃ min max greedy raw u, '\x7b' :: t = raw ++ u ∧
          Past (p ++ raw) (ts ++ [⟨.quantifier min max greedy, raw, Text.bytes p⟩]) u) ↔
        ∃ text min max u, '\x7b' :: t = text ++ u ∧ BracedQuantifier text min max ∧
          AreWords min max) ∧
      (∀ text min max u, '\x7b' :: t = text ++ u → BracedQuantifier text min max →
        (AreWords min max →
          (u.head? ≠ some '?' →
            Past (p ++ text) (ts ++ [⟨.quantifier min max true, text, Text.bytes p⟩]) u) ∧
          ∀ v, u = '?' :: v → Past (p ++ (text ++ ['?']))
            (ts ++ [⟨.quantifier min max false, text ++ ['?'], Text.bytes p⟩]) v) ∧
        (¬AreWords min max →
          tokenize (p ++ '\x7b' :: t) = .error ⟨.quantifierOverflow, Text.bytes p⟩)) ∧
      ((∀ text min max u, '\x7b' :: t = text ++ u → ¬BracedQuantifier text min max) →
        Past (p ++ ['\x7b'])
          (ts ++ [⟨.char (.simple '\x7b'), ['\x7b'], Text.bytes p⟩]) t ∧
        ∀ ds u, t = ds ++ u → (∀ d ∈ ds, d.isDigit = true) →
          ∃ us, us.map Token.kind = ds.map (fun d => .char (.simple d)) ∧
            Past (p ++ ['\x7b'] ++ ds)
              (ts ++ [⟨.char (.simple '\x7b'), ['\x7b'], Text.bytes p⟩] ++ us) u) := by
  obtain ⟨ts, hkinds, hpast⟩ := hmet.past
  refine ⟨ts, hkinds, hpast, ⟨?_, ?_⟩, fun text min max u ht hform => ⟨?_, fun hwords => ?_⟩,
    fun hnone => ?_⟩
  · rintro ⟨min, max, greedy, raw, u, ht, hopens⟩
    have hall := hopens.splits
    rw [List.map_append] at hall
    rw [ht] at hpast
    exact exists_bracedQuantifier (hpast.splits.after hall) ht
  · rintro ⟨text, min, max, u, ht, hform, hwords⟩
    rw [ht] at hpast
    obtain ⟨hgreedy, hlazy⟩ := hpast.quantifier hform hwords
    by_cases hu : u.head? = some '?'
    · obtain ⟨v, rfl⟩ := List.head?_eq_some_iff.1 hu
      exact ⟨min, max, false, text ++ ['?'], v, by rw [ht]; simp, hlazy v rfl⟩
    · exact ⟨min, max, true, text, u, ht, hgreedy hu⟩
  · rw [ht] at hpast
    exact hpast.quantifier hform
  · rw [ht] at hpast ⊢
    rw [tokenize, hpast.splits.lexFrom_fault (hform.fault hwords u) 0 none rfl, Nat.zero_add]
  · have hafter := hpast.step (splits_brace_literal hnone)
    refine ⟨hafter, ?_⟩
    rintro ds u rfl hds
    obtain ⟨us, -, hkinds, hdigits⟩ := hafter.append (splits_digits hds u)
    exact ⟨us, hkinds, hdigits⟩

/-- After a character of two bytes the braces `\x7b007,4294967295\x7d` and the question mark behind
them are a lazy quantifier, whose upper bound is the largest word. -/
theorem tokenize_brace_at_limit :
    let text : Text := ['\x7b', '0', '0', '7', ',', '4', '2', '9', '4', '9', '6', '7', '2', '9', '5',
      '\x7d']
    Splits false ['é'] (text ++ ['?', 'a']) [.char (.simple 'é')] false ∧
      BracedQuantifier text 7 (some 4294967295) ∧ AreWords 7 (some 4294967295) ∧
      tokenize ('é' :: (text ++ ['?', 'a'])) = .ok [⟨.char (.simple 'é'), ['é'], 0⟩,
        ⟨.quantifier 7 (some 4294967295) false, text ++ ['?'], 2⟩,
        ⟨.char (.simple 'a'), ['a'], 19⟩] := by
  intro text
  have hmet : Splits false ['é'] (text ++ ['?', 'a']) [.char (.simple 'é')] false :=
    .one (v := []) rfl
  have hlow : IsDigits ['0', '0', '7'] := ⟨List.cons_ne_nil _ _, List.all_eq_true.1 rfl⟩
  have hhigh : IsDigits ['4', '2', '9', '4', '9', '6', '7', '2', '9', '5'] :=
    ⟨List.cons_ne_nil _ _, List.all_eq_true.1 rfl⟩
  have hform : BracedQuantifier text 7 (some 4294967295) := .bounds (.between hlow hhigh)
  have hwords : AreWords 7 (some 4294967295) := ⟨by decide, by decide⟩
  obtain ⟨ts, -, hpast, -, hread, -⟩ := tokenize_brace hmet
  obtain ⟨-, hlazy⟩ := (hread text 7 (some 4294967295) ['?', 'a'] rfl hform).1 hwords
  have hbody := (hlazy ['a'] rfl).goesOn
  have hts : tokenize ['é'] = .ok [⟨.char (.simple 'é'), ['é'], 0⟩] := by decide +kernel
  rw [hpast.tokens] at hts
  rw [Except.ok.inj hts] at hbody
  have hrest : lexFrom 19 none ['a'] = .ok [⟨.char (.simple 'a'), ['a'], 19⟩] := by
    decide +kernel
  refine ⟨hmet, hform, hwords, hbody.trans ?_⟩
  exact congrArg (Except.map _) hrest

end RegexKit.Token
