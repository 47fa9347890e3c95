import RegexKit.Proofs.Token.Characters

/-! What escapes are made of. The text of an escape is a backslash followed by letters, digits,
underscores, equals signs and braces only; octal escapes hold octal digits and control escapes a
character after their letter, so both have code points. -/

namespace RegexKit.Token

open Numeral (isOctal isHex)

/-- What stands after the backslash of an escape that is no identity escape. -/
def isEscapePart (c : Char) : Bool := isPropertyPart c || c = '\x7b' || c = '\x7d'

theorem isEscapePart_of_isAlphanum {x : Char} (h : x.isAlphanum = true) :
    isEscapePart x = true := by
  simp [isEscapePart, isPropertyPart, h]

theorem isEscapePart_of_isOctal {x : Char} (h : isOctal x = true) : isEscapePart x = true :=
  isEscapePart_of_isAlphanum (by simp [Char.isAlphanum, isDigit_of_isOctal h])

/-- Letters and digits by their code points. -/
theorem isAlphanum_iff {x : Char} :
    x.isAlphanum = true ↔
      ((65 ≤ x.val ∧ x.val ≤ 90) ∨ (97 ≤ x.val ∧ x.val ≤ 122)) ∨ (48 ≤ x.val ∧ x.val ≤ 57) := by
  have hopen : x.isAlphanum =
      ((decide (65 ≤ x.val ∧ x.val ≤ 90) || (decide (97 ≤ x.val) && decide (x.val ≤ 122))) ||
        (decide (48 ≤ x.val) && decide (x.val ≤ 57))) := rfl
  simp only [hopen, Bool.or_eq_true, Bool.and_eq_true, decide_eq_true_eq]

theorem isEscapePart_of_isHex {x : Char} (h : isHex x = true) : isEscapePart x = true := by
  refine isEscapePart_of_isAlphanum (isAlphanum_iff.2 ?_)
  simp only [isHex, Bool.or_eq_true, Bool.and_eq_true, decide_eq_true_eq] at h
  rcases h with (h | h) | h
  · exact .inr (by simpa [Char.isDigit] using h)
  · exact .inl (.inr ⟨h.1, Nat.le_trans h.2 (by decide)⟩)
  · exact .inl (.inl ⟨h.1, Nat.le_trans h.2 (by decide)⟩)

/-- An escape of some kind with the letter `x` and the text `u` after it. -/
structure EscapeOf (x : Char) (u : Text) (kind : CharKind) : Prop where
  kind_ne : kind ≠ .simple
  parts : ∀ y ∈ x :: u, isEscapePart y = true
  octal : kind = .octal → (∀ y ∈ x :: u, isOctal y = true) ∧ u.length ≤ 2
  control : kind = .control → x = 'c' ∧ u ≠ []

variable {b : Bool} {t : Text} {n : Nat} {c : PatternChar}

theorem EscapeOf.plain {x : Char} {u : Text} {kind : CharKind}
    (hkind : kind = .special ∨ kind = .hex ∨ kind = .unicode)
    (hparts : ∀ y ∈ x :: u, isEscapePart y = true) : EscapeOf x u kind where
  kind_ne := by rcases hkind with rfl | rfl | rfl <;> decide
  parts := hparts
  octal h := by subst h; simp at hkind
  control h := by subst h; simp at hkind

/-- A run in braces consists of the characters of the run and the braces. -/
theorem isEscapePart_of_braced {p : Char → Bool} {u : Text} (hp : p '\x7d' = false)
    (hparts : ∀ y, p y = true → isEscapePart y = true)
    (hend : (u.dropWhile p).head? = some '\x7d') :
    ∀ y ∈ ('\x7b' :: u).take ((u.takeWhile p).length + 2), isEscapePart y = true := by
  obtain ⟨w, hw, htake, -⟩ := exists_braced hp hend
  have hall : ∀ y ∈ w, isEscapePart y = true := fun y hy => by
    rw [← hw] at hy
    exact hparts y (List.mem_takeWhile_imp hy)
  rw [hw, htake]
  simp only [List.forall_mem_cons, List.forall_mem_append, List.mem_singleton, forall_eq]
  exact ⟨by decide, hall, by decide⟩

theorem isEscapePart_of_unicodeLength? {u : Text} (h : unicodeLength? u = some n) :
    ∀ y ∈ u.take (n - 1), isEscapePart y = true := by
  unfold unicodeLength? at h
  split at h
  · dsimp only at h
    split at h
    · rename_i hbrace
      cases h
      exact isEscapePart_of_braced (by decide) (fun y => isEscapePart_of_isHex) hbrace.2.2
    · cases h
  · split at h
    · rename_i hhex
      cases h
      exact fun y hy => isEscapePart_of_isHex (List.all_eq_true.1 hhex.2 y hy)
    · cases h

theorem isEscapePart_of_propertyLength? {u : Text} (h : propertyLength? u = some n) :
    ∀ y ∈ u.take (n - 1), isEscapePart y = true := by
  unfold propertyLength? at h
  split at h
  · dsimp only at h
    split at h
    · rename_i hbrace
      cases h
      exact isEscapePart_of_braced (by decide)
        (fun y hy => by simp [isEscapePart, hy]) hbrace.2
    · cases h
  · cases h

/-- An escape that is a character is an identity escape or made of the parts of escapes. -/
theorem escape_eq_escapeOf (h : escape b t = .ok ⟨.char c, n⟩) :
    (∃ x, c = .identityEscape x) ∨
      ∃ x u, c.value = '\\' :: x :: u ∧ c.escaped = false ∧ EscapeOf x u c.kind := by
  cases t with
  | nil => cases h
  | cons x cs =>
    cases escaped_of_eq h with
    | letter hx =>
      have hpart := List.all_eq_true.1 (show plainLetters.all isEscapePart = true by decide) x hx
      exact .inr ⟨x, [], rfl, rfl, .plain (.inl rfl) (List.forall_mem_singleton.2 hpart)⟩
    | backspace hx =>
      subst hx
      exact .inr ⟨'b', [], rfl, rfl, .plain (.inl rfl) (List.forall_mem_singleton.2 (by decide))⟩
    | octal hx =>
      obtain ⟨hrun, hlen⟩ := octalRun_spec cs
      have hall : ∀ y ∈ x :: cs.take (octalRun 2 cs), isOctal y = true :=
        List.forall_mem_cons.2 ⟨hx, hrun⟩
      exact .inr ⟨x, _, rfl, rfl, CharKind.noConfusion, fun y hy =>
        isEscapePart_of_isOctal (hall y hy), fun _ => ⟨hall, hlen⟩, CharKind.noConfusion⟩
    | hex hx hdigits =>
      subst hx
      exact .inr ⟨'x', _, rfl, rfl, .plain (.inr (.inl rfl)) (List.forall_mem_cons.2 ⟨by decide,
        fun y hy => isEscapePart_of_isHex (List.all_eq_true.1 hdigits.2 y hy)⟩)⟩
    | unicode hx hlen =>
      subst hx
      obtain ⟨m, rfl, -⟩ := unicodeLength?_take hlen
      exact .inr ⟨'u', _, rfl, rfl, .plain (.inr (.inr rfl)) (List.forall_mem_cons.2 ⟨by decide,
        isEscapePart_of_unicodeLength? hlen⟩)⟩
    | control hx hletter =>
      subst hx
      cases cs with
      | nil => cases hletter
      | cons y cs =>
        have hy : isEscapePart y = true := isEscapePart_of_isAlphanum (by
          rw [Char.isAlphanum, Bool.or_eq_true]
          exact .inl hletter)
        exact .inr ⟨'c', [y], rfl, rfl, CharKind.noConfusion, List.forall_mem_cons.2 ⟨by decide,
          List.forall_mem_singleton.2 hy⟩, CharKind.noConfusion, fun _ => ⟨rfl, by simp⟩⟩
    | property hx hlen =>
      obtain ⟨m, rfl, -⟩ := propertyLength?_take hlen
      refine .inr ⟨x, _, rfl, rfl, .plain (.inl rfl) (List.forall_mem_cons.2 ⟨?_,
        isEscapePart_of_propertyLength? hlen⟩)⟩
      rcases hx with rfl | rfl <;> decide
    | identity => exact .inl ⟨x, rfl⟩

/-- A character of the lexer is a literal, the dot or an escape. -/
theorem Lexical.spelling (hc : Lexical b c) :
    (∃ x escaped, c = ⟨[x], .simple, escaped⟩) ∨ (c = .dot ∧ b = false) ∨
      ∃ x u, c = ⟨'\\' :: x :: u, c.kind, false⟩ ∧ EscapeOf x u c.kind := by
  obtain ⟨x, t, n, hfirst⟩ := hc
  rcases first_eq_char hfirst with rfl | hdot | ⟨y, rfl, -⟩ | hverbatim
  · exact .inl ⟨x, false, rfl⟩
  · exact .inr (.inl hdot)
  · exact .inl ⟨y, true, rfl⟩
  · rcases escape_eq_escapeOf (hverbatim.again [] fun _ _ hd => by cases hd) with ⟨y, rfl⟩ |
      ⟨y, u, hvalue, hescaped, hparts⟩
    · exact .inl ⟨y, true, rfl⟩
    · obtain ⟨value, kind, escaped⟩ := c
      obtain rfl : value = _ := hvalue
      obtain rfl : escaped = false := hescaped
      exact .inr (.inr ⟨y, u, rfl, hparts⟩)

/-- A digit is what escapes are made of. -/
theorem isEscapePart_of_digit? {base d : Nat} {x : Char} (h : Numeral.digit? base x = some d) :
    isEscapePart x = true := by
  refine isEscapePart_of_isAlphanum (isAlphanum_iff.2 ?_)
  unfold Numeral.digit? at h
  split at h
  · rename_i hdigit
    exact .inr hdigit
  · split at h
    · rename_i hlower
      exact .inl (.inr hlower)
    · split at h
      · rename_i hupper
        exact .inl (.inl hupper)
      · cases h

theorem isEscapePart_of_digits? {base value n : Nat} {t : Text}
    (h : Numeral.digits? base value t = some n) : ∀ y ∈ t, isEscapePart y = true := by
  induction t generalizing value with
  | nil => exact fun _ hy => nomatch hy
  | cons x t ih =>
    obtain ⟨d, hd, hrest⟩ := Option.bind_eq_some_iff.1 h
    exact List.forall_mem_cons.2 ⟨isEscapePart_of_digit? hd, ih hrest⟩

/-- The spelling of a code point is a plain character or an escape by number. -/
theorem ofCodePoint_spelling (n : Nat) :
    (∃ y : Char, PatternChar.ofCodePoint n = .simple y) ∨
      ∃ (letter : Char) (u : Text) (kind : CharKind), (letter = 'x' ∨ letter = 'u') ∧
        (kind = .hex ∨ kind = .unicode) ∧
          PatternChar.ofCodePoint n = ⟨'\\' :: letter :: u, kind, false⟩ ∧
            EscapeOf letter u kind := by
  have hdigits : ∀ y ∈ Numeral.hexadecimal n, isEscapePart y = true :=
    isEscapePart_of_digits? (Numeral.digits?_hexadecimal n)
  have hpad : ∀ width, ∀ y ∈ Numeral.pad width (Numeral.hexadecimal n), isEscapePart y = true :=
    fun width => isEscapePart_of_digits? (n := n) (by
      rw [Numeral.digits?_pad, Numeral.digits?_hexadecimal])
  unfold PatternChar.ofCodePoint
  split
  · exact .inl ⟨_, rfl⟩
  · split
    · exact .inr ⟨'x', _, .hex, .inl rfl, .inl rfl, rfl,
        .plain (.inr (.inl rfl)) (List.forall_mem_cons.2 ⟨by decide, hpad 2⟩)⟩
    · split
      · exact .inr ⟨'u', _, .unicode, .inr rfl, .inr rfl, rfl,
          .plain (.inr (.inr rfl)) (List.forall_mem_cons.2 ⟨by decide, hpad 4⟩)⟩
      · have hbraced : ∀ y ∈ 'u' :: '\x7b' :: (Numeral.hexadecimal n ++ ['\x7d']),
            isEscapePart y = true := by
          simp only [List.forall_mem_cons, List.forall_mem_append, List.mem_singleton, forall_eq]
          exact ⟨by decide, by decide, hdigits, by decide⟩
        exact .inr ⟨'u', _, .unicode, .inr rfl, .inr rfl, rfl, .plain (.inr (.inr rfl)) hbraced⟩

end RegexKit.Token
