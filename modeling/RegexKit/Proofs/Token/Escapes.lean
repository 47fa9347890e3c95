import RegexKit.Proofs.Token.Splits

/-! What a backslash begins. The reader of escapes goes by the character after the backslash; its
branches are listed once, with what each asks of the text and the token that it makes, and all that
is said of escapes is read off this list. -/

namespace RegexKit.Token

open Numeral (isOctal isHex)

variable {b : Bool} {x : Char} {t : Text}

/-! ### Digits -/

theorem one_le_of_ne_zero (h : '0' ≤ x) (hne : x ≠ '0') : '1' ≤ x := by
  have hval : x.val.toNat ≠ 48 := fun hv => hne (Char.ext (UInt32.toNat_inj.1 hv))
  simp only [Char.le_def, UInt32.le_iff_toNat_le] at h ⊢
  have h0 : '0'.val.toNat = 48 := rfl
  have h1 : '1'.val.toNat = 49 := rfl
  omega

theorem isDigit_of_isOctal (h : isOctal x = true) : x.isDigit = true := by
  simp only [isOctal, Bool.and_eq_true, decide_eq_true_eq] at h
  simp only [Char.isDigit, Bool.and_eq_true, decide_eq_true_eq]
  exact ⟨h.1, Nat.le_trans h.2 (by decide)⟩

/-- The reader asks for a zero and for the other octal digits apart. -/
theorem isOctal_iff : isOctal x = true ↔ x = '0' ∨ '1' ≤ x ∧ x ≤ '7' := by
  simp only [isOctal, Bool.and_eq_true, decide_eq_true_eq]
  constructor
  · rintro ⟨hzero, hseven⟩
    by_cases hx : x = '0'
    · exact .inl hx
    · exact .inr ⟨one_le_of_ne_zero hzero hx, hseven⟩
  · rintro (rfl | ⟨hone, hseven⟩)
    · decide
    · exact ⟨Nat.le_trans (by decide) hone, hseven⟩

/-- A digit is a zero or begins a number. -/
theorem isDigit_iff_zero_or : x.isDigit = true ↔ x = '0' ∨ '1' ≤ x ∧ x ≤ '9' := by
  simp only [Char.isDigit, Bool.and_eq_true, decide_eq_true_eq]
  constructor
  · rintro ⟨hzero, hnine⟩
    by_cases hx : x = '0'
    · exact .inl hx
    · exact .inr ⟨one_le_of_ne_zero hzero hx, hnine⟩
  · rintro (rfl | ⟨hone, hnine⟩)
    · decide
    · exact ⟨Nat.le_trans (by decide) hone, hnine⟩

/-! ### Branches -/

/-- The letters that are an escape by themselves, in a class and outside. -/
def plainLetters : Text := ['d', 'D', 'w', 'W', 's', 'S', 'n', 'r', 't', 'v', 'f']

/-- After a backslash the character begins an escape that is not the character itself. -/
def beginsEscape (inClass : Bool) (x : Char) : Bool :=
  plainLetters.contains x || ['b', 'x', 'u', 'c', 'p', 'P'].contains x ||
    (if inClass then isOctal x else x.isDigit || x = 'B' || x = 'k')

theorem isDigit_of_beginsEscape (hx : beginsEscape b x = false) (houtside : b = false) :
    x.isDigit = false := by
  subst houtside
  simp only [beginsEscape, Bool.false_eq_true, if_false, Bool.or_eq_false_iff] at hx
  exact hx.2.1.1

/-- What the reader makes of a character after a backslash and the text `t` behind it. -/
inductive Escaped (b : Bool) (x : Char) (t : Text) : Except LexCause Lexeme → Prop
  | letter (hx : x ∈ plainLetters) : Escaped b x t (.ok (escapeText .special 1 (x :: t)))
  | backspace (hx : x = 'b') (hinside : b = true) :
      Escaped b x t (.ok (escapeText .special 1 (x :: t)))
  | wordBoundary (hx : x = 'b') (houtside : b = false) :
      Escaped b x t (.ok ⟨.assertion .wordBoundary, 1⟩)
  | nonWordBoundary (hx : x = 'B') (houtside : b = false) :
      Escaped b x t (.ok ⟨.assertion .nonWordBoundary, 1⟩)
  | octal (hx : isOctal x = true) (hplace : x = '0' ∨ b = true) :
      Escaped b x t (.ok (escapeText .octal (octalRun 2 t + 1) (x :: t)))
  | number (hx : '1' ≤ x ∧ x ≤ '9') (houtside : b = false) :
      Escaped b x t (.ok ⟨.backreference (.number
        (min (Numeral.ofDecimal ((x :: t).takeWhile Char.isDigit)) Numeral.max64)),
        ((x :: t).takeWhile Char.isDigit).length⟩)
  | hex (hx : x = 'x') (hdigits : (t.take 2).length = 2 ∧ (t.take 2).all isHex = true) :
      Escaped b x t (.ok (escapeText .hex 3 (x :: t)))
  | unicode {n : Nat} (hx : x = 'u') (hlen : unicodeLength? t = some n) :
      Escaped b x t (.ok (escapeText .unicode n (x :: t)))
  | control (hx : x = 'c') (hletter : t.head?.any Char.isAlpha = true) :
      Escaped b x t (.ok (escapeText .control 2 (x :: t)))
  | property {n : Nat} (hx : x = 'p' ∨ x = 'P') (hlen : propertyLength? t = some n) :
      Escaped b x t (.ok (escapeText .special n (x :: t)))
  | name {name : Text} (hx : x = 'k') (houtside : b = false) :
      Escaped b x t (.ok ⟨.backreference (.name name), name.length + 3⟩)
  | identity (hx : beginsEscape b x = false) : Escaped b x t (.ok ⟨.char (.identityEscape x), 1⟩)
  | malformed {cause : LexCause} (hcause : cause ≠ .unterminatedClass) :
      Escaped b x t (.error cause)

/-- The branches of the reader. -/
theorem escaped (b : Bool) (x : Char) (t : Text) : Escaped b x t (escape b (x :: t)) := by
  simp only [escape]
  by_cases hletter : x ∈ ['d', 'D', 'w', 'W', 's', 'S', 'n', 'r', 't', 'v', 'f']
  · rw [if_pos hletter]
    exact .letter hletter
  rw [if_neg hletter]
  by_cases hb : x = 'b'
  · rw [if_pos hb]
    cases b with
    | true => exact .backspace hb rfl
    | false => exact .wordBoundary hb rfl
  rw [if_neg hb]
  by_cases hnonword : x = 'B' ∧ (!b) = true
  · rw [if_pos hnonword]
    exact .nonWordBoundary hnonword.1 (by simpa using hnonword.2)
  rw [if_neg hnonword]
  by_cases hoctal : x = '0' ∨ b = true ∧ '1' ≤ x ∧ x ≤ '7'
  · rw [if_pos hoctal]
    exact .octal (isOctal_iff.2 (hoctal.imp_right And.right)) (hoctal.imp_right And.left)
  rw [if_neg hoctal]
  by_cases hnumber : (!b) = true ∧ '1' ≤ x ∧ x ≤ '9'
  · rw [if_pos hnumber]
    exact .number hnumber.2 (by simpa using hnumber.1)
  rw [if_neg hnumber]
  by_cases hx : x = 'x'
  · rw [if_pos hx]
    by_cases hdigits : (t.take 2).length = 2 ∧ (t.take 2).all isHex = true
    · rw [if_pos hdigits]
      exact .hex hx hdigits
    · rw [if_neg hdigits]
      exact .malformed (by decide)
  rw [if_neg hx]
  by_cases hu : x = 'u'
  · rw [if_pos hu]
    cases hlen : unicodeLength? t with
    | none => exact .malformed (by decide)
    | some n => exact .unicode hu hlen
  rw [if_neg hu]
  by_cases hc : x = 'c'
  · rw [if_pos hc]
    by_cases hletter : t.head?.any Char.isAlpha = true
    · rw [if_pos hletter]
      exact .control hc hletter
    · rw [if_neg hletter]
      exact .malformed (by decide)
  rw [if_neg hc]
  by_cases hp : x = 'p' ∨ x = 'P'
  · rw [if_pos hp]
    cases hlen : propertyLength? t with
    | none => exact .malformed (by decide)
    | some n => exact .property hp hlen
  rw [if_neg hp]
  by_cases hk : x = 'k' ∧ (!b) = true
  · rw [if_pos hk]
    have houtside : b = false := by simpa using hk.2
    split
    · split
      · exact .name hk.1 houtside
      · exact .malformed (by decide)
    · exact .malformed (by decide)
  rw [if_neg hk]
  -- the conditions that failed say together that the character begins no escape
  refine .identity ?_
  have hplain : plainLetters.contains x = false := by
    rw [List.contains_eq_mem, decide_eq_false_iff_not]
    exact hletter
  have hother : ['b', 'x', 'u', 'c', 'p', 'P'].contains x = false := by
    simpa [not_or] using ⟨hb, hx, hu, hc, not_or.1 hp⟩
  rw [beginsEscape, hplain, hother, Bool.or_false, Bool.false_or]
  cases b with
  | true =>
    refine Bool.eq_false_iff.2 fun h => hoctal ?_
    exact (isOctal_iff.1 h).imp_right fun h => ⟨rfl, h⟩
  | false =>
    have hdigit : x.isDigit = false := Bool.eq_false_iff.2 fun h =>
      (isDigit_iff_zero_or.1 h).elim (fun hzero => hoctal (.inl hzero)) fun h => hnumber ⟨rfl, h⟩
    have hB : x ≠ 'B' := fun h => hnonword ⟨h, rfl⟩
    have hk : x ≠ 'k' := fun h => hk ⟨h, rfl⟩
    simp [hdigit, hB, hk]

theorem escaped_of_eq {l : Except LexCause Lexeme} (h : escape b (x :: t) = l) : Escaped b x t l :=
  h ▸ escaped b x t

/-! ### Escapes by their letter -/

theorem escape_letter (hx : x ∈ plainLetters) (b : Bool) (t : Text) :
    escape b (x :: t) = .ok (escapeText .special 1 (x :: t)) := by
  have hmem : x ∈ ['d', 'D', 'w', 'W', 's', 'S', 'n', 'r', 't', 'v', 'f'] := hx
  simp only [escape, if_pos hmem]

theorem escape_backspace (t : Text) :
    escape true ('b' :: t) = .ok (escapeText .special 1 ('b' :: t)) := rfl

theorem escape_hex (b : Bool) (t : Text) :
    escape b ('x' :: t) = if (t.take 2).length = 2 ∧ (t.take 2).all isHex = true then
      .ok (escapeText .hex 3 ('x' :: t)) else .error .invalidHexEscape := by
  cases b <;> rfl

theorem escape_unicode (b : Bool) (t : Text) :
    escape b ('u' :: t) = (unicodeLength? t).elim (.error .invalidUnicodeEscape) fun n =>
      .ok (escapeText .unicode n ('u' :: t)) := by
  cases h : unicodeLength? t <;> cases b <;> simp [escape, h]

theorem escape_control (b : Bool) (t : Text) :
    escape b ('c' :: t) = if t.head?.any Char.isAlpha = true then
      .ok (escapeText .control 2 ('c' :: t)) else .error .invalidControlEscape := by
  cases b <;> rfl

theorem escape_property (hx : x = 'p' ∨ x = 'P') (b : Bool) (t : Text) :
    escape b (x :: t) = (propertyLength? t).elim (.error .invalidPropertyEscape) fun n =>
      .ok (escapeText .special n (x :: t)) := by
  rcases hx with rfl | rfl <;> cases h : propertyLength? t <;> cases b <;> simp [escape, h]

/-- Digits are no letters of escapes. -/
theorem notMem_of_isDigit {ls : Text} (hx : x.isDigit = true)
    (hls : ls.all (fun y => !y.isDigit) = true) : x ∉ ls := fun hmem => by
  have hletter := List.all_eq_true.1 hls x hmem
  rw [hx] at hletter
  cases hletter

/-- An octal digit begins an octal escape, outside classes only a zero. -/
theorem escape_octal (hx : isOctal x = true) (hplace : x = '0' ∨ b = true) (t : Text) :
    escape b (x :: t) = .ok (escapeText .octal (octalRun 2 t + 1) (x :: t)) := by
  have hdigit : x.isDigit = true := isDigit_of_isOctal hx
  have hletter : x ∉ ['d', 'D', 'w', 'W', 's', 'S', 'n', 'r', 't', 'v', 'f'] :=
    notMem_of_isDigit hdigit (by decide)
  have hother : x ∉ ['b', 'B'] := notMem_of_isDigit hdigit (by decide)
  simp only [List.mem_cons, List.not_mem_nil, or_false, not_or] at hother
  have hoctal : x = '0' ∨ b = true ∧ '1' ≤ x ∧ x ≤ '7' :=
    hplace.elim .inl fun hinside => (isOctal_iff.1 hx).imp_right fun h => ⟨hinside, h⟩
  simp only [escape]
  rw [if_neg hletter, if_neg hother.1, if_neg fun h => hother.2 h.1, if_pos hoctal]

/-- A digit begins a reference outside classes, unless it is zero. -/
theorem escape_number (hx : '1' ≤ x ∧ x ≤ '9') (t : Text) :
    escape false (x :: t) = .ok ⟨.backreference (.number
      (min (Numeral.ofDecimal ((x :: t).takeWhile Char.isDigit)) Numeral.max64)),
      ((x :: t).takeWhile Char.isDigit).length⟩ := by
  have hdigit : x.isDigit = true := isDigit_iff_zero_or.2 (.inr hx)
  have hletter : x ∉ ['d', 'D', 'w', 'W', 's', 'S', 'n', 'r', 't', 'v', 'f'] :=
    notMem_of_isDigit hdigit (by decide)
  have hother : x ∉ ['b', 'B'] := notMem_of_isDigit hdigit (by decide)
  simp only [List.mem_cons, List.not_mem_nil, or_false, not_or] at hother
  have hoctal : ¬(x = '0' ∨ false = true ∧ '1' ≤ x ∧ x ≤ '7') := by
    rintro (rfl | ⟨hclass, -⟩)
    · exact absurd hx (by decide)
    · cases hclass
  simp only [escape]
  rw [if_neg hletter, if_neg hother.1, if_neg fun h => hother.2 h.1, if_neg hoctal,
    if_pos ⟨rfl, hx⟩]

/-- A character that begins no escape stands for itself after a backslash. -/
theorem escape_identity (hx : beginsEscape b x = false) (t : Text) :
    escape b (x :: t) = .ok ⟨.char (.identityEscape x), 1⟩ := by
  simp only [beginsEscape, Bool.or_eq_false_iff, List.contains_eq_mem,
    decide_eq_false_iff_not] at hx
  obtain ⟨⟨hletter, hother⟩, hplace⟩ := hx
  have hletter : x ∉ ['d', 'D', 'w', 'W', 's', 'S', 'n', 'r', 't', 'v', 'f'] := hletter
  simp only [List.mem_cons, List.not_mem_nil, or_false, not_or] at hother
  obtain ⟨hb, hx, hu, hc, hp, hP⟩ := hother
  have hproperty : ¬(x = 'p' ∨ x = 'P') := not_or.2 ⟨hp, hP⟩
  cases b with
  | true =>
    have hoctal : ¬(x = '0' ∨ '1' ≤ x ∧ x ≤ '7') := fun h => by
      rw [if_pos rfl, isOctal_iff.2 h] at hplace
      cases hplace
    simp only [escape, true_and, Bool.not_true, Bool.false_eq_true, false_and, and_false, if_false]
    rw [if_neg hletter, if_neg hb, if_neg hoctal, if_neg hx, if_neg hu, if_neg hc,
      if_neg hproperty]
  | false =>
    simp only [Bool.false_eq_true, if_false, Bool.or_eq_false_iff,
      decide_eq_false_iff_not] at hplace
    obtain ⟨⟨hdigit, hB⟩, hk⟩ := hplace
    have hzero : x ≠ '0' := fun h => Bool.eq_false_iff.1 hdigit (isDigit_iff_zero_or.2 (.inl h))
    have hnumber : ¬('1' ≤ x ∧ x ≤ '9') := fun h =>
      Bool.eq_false_iff.1 hdigit (isDigit_iff_zero_or.2 (.inr h))
    simp only [escape, Bool.false_eq_true, Bool.not_false, false_and, or_false, true_and, and_true]
    rw [if_neg hletter, if_neg hb, if_neg hB, if_neg hzero, if_neg hnumber, if_neg hx, if_neg hu,
      if_neg hc, if_neg hproperty, if_neg hk]

end RegexKit.Token
