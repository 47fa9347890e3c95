import RegexKit.Proofs.Token.Characters

/-! Braces outside classes. A brace opens a quantifier when a lower bound follows, perhaps a comma
and an upper bound, and then the closing brace. The bounds have any number of digits, and whether
they are words is asked only of a text of this form. Every other brace is a character. The form is
stated on the text alone, without the reader. -/

namespace RegexKit.Token

variable {t u low : Text} {high : Option Text} {min extra : Nat} {max : Option Nat} {greedy : Bool}

/-! ### Form -/

/-- One decimal digit or more. -/
def IsDigits (ds : Text) : Prop := ds ≠ [] ∧ ∀ d ∈ ds, d.isDigit = true

/-- The texts from after the brace that opens a quantifier to the one that closes it, with the
digits of the lower bound and of the upper bound, if there is one. -/
inductive BracedBounds : Text → Text → Option Text → Prop
  | exactly {low : Text} (hlow : IsDigits low) : BracedBounds (low ++ ['\x7d']) low (some low)
  | atLeast {low : Text} (hlow : IsDigits low) : BracedBounds (low ++ [',', '\x7d']) low none
  | between {low high : Text} (hlow : IsDigits low) (hhigh : IsDigits high) :
      BracedBounds (low ++ ',' :: (high ++ ['\x7d'])) low (some high)

/-- The bounds are words. -/
def AreWords (min : Nat) (max : Option Nat) : Prop :=
  min ≤ Numeral.max32 ∧ max.all (· ≤ Numeral.max32) = true

theorem isDigits_decimal (n : Nat) : IsDigits (Numeral.decimal n) :=
  ⟨Numeral.decimal_ne_nil n, fun _ hd => Numeral.isDigit_of_mem_decimal hd⟩

theorem isDigits_takeWhile (h : t.takeWhile Char.isDigit ≠ []) :
    IsDigits (t.takeWhile Char.isDigit) :=
  ⟨h, fun _ hd => List.mem_takeWhile_imp hd⟩

theorem BracedBounds.isDigits (h : BracedBounds t low high) :
    IsDigits low ∧ ∀ ds ∈ high, IsDigits ds := by
  cases h with
  | exactly hlow => exact ⟨hlow, by rintro ds ⟨⟩; exact hlow⟩
  | atLeast hlow => exact ⟨hlow, by rintro ds ⟨⟩⟩
  | between hlow hhigh => exact ⟨hlow, by rintro ds ⟨⟩; exact hhigh⟩

/-- The reader finds the digits of a text of this form, whatever follows. -/
theorem BracedBounds.braceDigits? (h : BracedBounds t low high) (u : Text) :
    braceDigits? (t ++ u) = some (low, high, t.length) := by
  have hrun : ∀ {ds : Text} {x : Char}, IsDigits ds → x.isDigit = false → ∀ v,
      (ds ++ x :: v).takeWhile Char.isDigit = ds ∧
        (ds ++ x :: v).dropWhile Char.isDigit = x :: v :=
    fun hds hx v => ⟨takeWhile_append_cons hds.2 hx v, dropWhile_append_cons hds.2 hx v⟩
  cases h with
  | exactly hlow =>
    rw [List.append_assoc, List.singleton_append]
    simp only [Token.braceDigits?, hrun hlow (show '\x7d'.isDigit = false from rfl), if_neg hlow.1,
      List.length_append, List.length_singleton]
  | atLeast hlow =>
    rw [List.append_assoc, List.cons_append, List.singleton_append]
    simp only [Token.braceDigits?, hrun hlow (show ','.isDigit = false from rfl), if_neg hlow.1]
    simp
  | between hlow hhigh =>
    rw [List.append_assoc, List.cons_append, List.append_assoc, List.singleton_append]
    simp only [Token.braceDigits?, hrun hlow (show ','.isDigit = false from rfl),
      hrun hhigh (show '\x7d'.isDigit = false from rfl), if_neg hlow.1, if_neg hhigh.1,
      List.head?_cons, if_true]
    simp [Nat.add_assoc]

/-- Where the reader finds digits, the text begins with one of this form. -/
theorem exists_bracedBounds (h : braceDigits? t = some (low, high, extra)) :
    ∃ w u, t = w ++ u ∧ w.length = extra ∧ BracedBounds w low high := by
  have hrun : ∀ {v : Text} {x : Char} {rest : Text}, v.dropWhile Char.isDigit = x :: rest →
      v = v.takeWhile Char.isDigit ++ x :: rest := fun hv => by
    rw [← hv, List.takeWhile_append_dropWhile]
  simp only [braceDigits?] at h
  split at h
  · cases h
  rename_i hne
  have hlow := isDigits_takeWhile hne
  split at h
  · rename_i rest hdrop
    cases h
    exact ⟨_, rest, by simpa using hrun hdrop, by simp, .exactly hlow⟩
  · rename_i v hdrop
    split at h
    · rename_i hclosed
      obtain ⟨rest, hclosed⟩ := List.head?_eq_some_iff.1 hclosed
      have ht := hrun hdrop
      cases h
      by_cases hhigh : v.takeWhile Char.isDigit = []
      · rw [hrun hclosed, hhigh] at ht
        rw [if_pos hhigh, hhigh]
        exact ⟨_, rest, by simpa using ht, by simp, .atLeast hlow⟩
      · rw [hrun hclosed] at ht
        rw [if_neg hhigh]
        exact ⟨_, rest, by simpa using ht, by simp; omega,
          .between hlow (isDigits_takeWhile hhigh)⟩
    · cases h
  · cases h

/-! ### Reading -/

/-- A text of this form whose bounds are words opens a quantifier. -/
theorem BracedBounds.brace (h : BracedBounds t low high)
    (hwords : AreWords (Numeral.ofDecimal low) (high.map Numeral.ofDecimal)) (u : Text) :
    brace (t ++ u) =
      .ok (quantifier (Numeral.ofDecimal low) (high.map Numeral.ofDecimal) t.length u) := by
  rw [Token.brace, h.braceDigits?]
  refine (if_pos hwords).trans ?_
  rw [List.drop_left]

/-- A text of this form with another bound is refused. -/
theorem BracedBounds.brace_overflow (h : BracedBounds t low high)
    (hwords : ¬AreWords (Numeral.ofDecimal low) (high.map Numeral.ofDecimal)) (u : Text) :
    Token.brace (t ++ u) = .error .quantifierOverflow := by
  rw [Token.brace, h.braceDigits?]
  exact if_neg hwords

/-- Any other text leaves the brace a character. -/
theorem brace_literal (h : ∀ w u low high, t = w ++ u → ¬BracedBounds w low high) :
    brace t = .ok ⟨.char (.simple '\x7b'), 0⟩ := by
  rw [brace]
  cases hdigits : braceDigits? t with
  | none => rfl
  | some found =>
    obtain ⟨low, high, extra⟩ := found
    obtain ⟨w, u, ht, -, hform⟩ := exists_bracedBounds hdigits
    exact absurd hform (h w u low high ht)

/-- Only a text of this form whose bounds are words opens a quantifier. -/
theorem bracedBounds_of_brace {l : Lexeme} (h : brace t = .ok l)
    (hkind : l.kind = .quantifier min max greedy) :
    ∃ w u low high, t = w ++ u ∧ BracedBounds w low high ∧
      AreWords (Numeral.ofDecimal low) (high.map Numeral.ofDecimal) := by
  by_cases hform : ∃ w u low high, t = w ++ u ∧ BracedBounds w low high
  · obtain ⟨w, u, low, high, rfl, hform⟩ := hform
    refine ⟨w, u, low, high, rfl, hform, ?_⟩
    by_contra hwords
    rw [hform.brace_overflow hwords] at h
    cases h
  · rw [brace_literal fun w u low high ht hw => hform ⟨w, u, low, high, ht, hw⟩] at h
    cases h
    cases hkind

/-- A quantifier is of its own kind when the mark of a lazy one follows or no mark does. -/
theorem quantifier_append (min : Nat) (max : Option Nat) (greedy : Bool) (extra : Nat)
    (hu : greedy = true → u.head? ≠ some '?') :
    quantifier min max extra ((if greedy then [] else ['?']) ++ u) =
      ⟨.quantifier min max greedy, extra + (if greedy then [] else ['?'] : Text).length⟩ := by
  cases greedy with
  | true => exact if_neg (hu rfl)
  | false => rfl

/-- Bounds in braces read as the quantifier of these bounds. -/
theorem splits_braces (greedy : Bool) (ht : BracedBounds t low high)
    (hlow : Numeral.ofDecimal low = min) (hhigh : high.map Numeral.ofDecimal = max)
    (hwords : AreWords min max) (hu : greedy = true → u.head? ≠ some '?') :
    Splits false ('\x7b' :: (t ++ if greedy then [] else ['?'])) u [.quantifier min max greedy]
      false := by
  subst hlow hhigh
  refine .one (k := .quantifier _ _ greedy) ?_
  change Token.brace _ = _
  rw [List.append_assoc, ht.brace hwords, quantifier_append _ _ greedy _ hu,
    List.length_append]

end RegexKit.Token
