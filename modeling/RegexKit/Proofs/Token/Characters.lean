import RegexKit.Proofs.Token.Escapes
import Mathlib.Data.List.TakeWhile

/-! The characters that tokens are. An escape is decided by its own text, unless it ends in octal
digits and a digit follows, so the text of a character reads as that character again
wherever it stands; only the mark of an identity escape may differ. -/

namespace RegexKit.Token

/-! ### Runs of characters -/

section Runs

variable {p : Char → Bool} {w t u : Text} {x : Char}

theorem takeWhile_append_cons (hw : ∀ c ∈ w, p c = true) (hx : p x = false) (r : Text) :
    (w ++ x :: r).takeWhile p = w := by
  rw [List.takeWhile_append_of_pos hw, List.takeWhile_cons_of_neg (by simp [hx]), List.append_nil]

theorem dropWhile_append_cons (hw : ∀ c ∈ w, p c = true) (hx : p x = false) (r : Text) :
    (w ++ x :: r).dropWhile p = x :: r := by
  rw [List.dropWhile_append_of_pos hw, List.dropWhile_cons_of_neg (by simp [hx])]

/-- A run in braces takes up its own characters and the two braces, whatever follows. -/
theorem exists_braced (hp : p '\x7d' = false) (h : (t.dropWhile p).head? = some '\x7d') :
    ∃ w, t.takeWhile p = w ∧ ('\x7b' :: t).take (w.length + 2) = '\x7b' :: (w ++ ['\x7d']) ∧
      ∀ u, (w ++ '\x7d' :: u).takeWhile p = w ∧ (w ++ '\x7d' :: u).dropWhile p = '\x7d' :: u := by
  obtain ⟨r, hr⟩ := List.head?_eq_some_iff.1 h
  have hall : ∀ c ∈ t.takeWhile p, p c = true := fun c hc => List.mem_takeWhile_imp hc
  have ht : t = t.takeWhile p ++ '\x7d' :: r := by rw [← hr, List.takeWhile_append_dropWhile]
  refine ⟨t.takeWhile p, rfl, ?_, fun u => ⟨takeWhile_append_cons hall hp u,
    dropWhile_append_cons hall hp u⟩⟩
  generalize t.takeWhile p = w at ht
  subst ht
  simp [List.take_append, List.take_of_length_le]

end Runs

/-- No digit comes first in the text. -/
def noDigit (u : Text) : Prop := ∀ d ∈ u.head?, d.isDigit = false

theorem takeWhile_isOctal_of_noDigit {u : Text} (hu : noDigit u) :
    u.takeWhile Numeral.isOctal = [] := by
  cases u with
  | nil => rfl
  | cons d u =>
    refine List.takeWhile_cons_of_neg fun hd => ?_
    have := hu d rfl
    rw [isDigit_of_isOctal hd] at this
    cases this

theorem take_octalRun (cs : Text) :
    cs.take (octalRun 2 cs) = (cs.take 2).takeWhile Numeral.isOctal := by
  have hbegins := (List.takeWhile_prefix Numeral.isOctal).trans (List.take_prefix 2 cs)
  exact (List.prefix_iff_eq_take.1 hbegins).symm

/-- An octal run is made of at most two octal digits. -/
theorem octalRun_spec (cs : Text) :
    (∀ d ∈ cs.take (octalRun 2 cs), Numeral.isOctal d = true) ∧
      (cs.take (octalRun 2 cs)).length ≤ 2 := by
  rw [take_octalRun]
  exact ⟨fun d hd => List.mem_takeWhile_imp hd,
    Nat.le_trans (List.takeWhile_prefix _).length_le (List.length_take_le 2 cs)⟩

/-- An octal run is not longer when no digit follows. -/
theorem octalRun_take {cs u : Text} (hu : noDigit u) :
    (cs.take (octalRun 2 cs)).length = octalRun 2 cs ∧
      octalRun 2 (cs.take (octalRun 2 cs) ++ u) = octalRun 2 cs := by
  obtain ⟨hall, hlen⟩ := octalRun_spec cs
  rw [take_octalRun] at hall hlen ⊢
  refine ⟨rfl, ?_⟩
  have hnil : ∀ k, (u.take k).takeWhile Numeral.isOctal = [] := fun k => by
    refine takeWhile_isOctal_of_noDigit fun d hd => hu d ?_
    cases k with
    | zero => cases hd
    | succ k => cases u <;> exact hd
  rw [octalRun, List.take_append, List.take_of_length_le hlen, List.takeWhile_append_of_pos hall,
    hnil, List.append_nil, octalRun]

/-! ### Names -/

theorem isNamePart_of_isIdentifier {name : Text} (h : isIdentifier name = true) :
    ∀ c ∈ name, isNamePart c = true := by
  cases name with
  | nil => cases h
  | cons c cs =>
    simp only [isIdentifier, Bool.and_eq_true, List.all_eq_true] at h
    intro d hd
    rcases List.mem_cons.1 hd with rfl | hd
    · simp [isNamePart, h.1]
    · exact h.2 d hd

theorem splitAtFirst?_append {mark : Char} {t : Text} (h : mark ∉ t) (u : Text) :
    Text.splitAtFirst? mark (t ++ mark :: u) = some (t, u) := by
  induction t with
  | nil => simp [Text.splitAtFirst?]
  | cons c cs ih =>
    have hc : c ≠ mark := fun heq => h (heq ▸ List.mem_cons_self)
    rw [List.cons_append, Text.splitAtFirst?, if_neg hc,
      ih fun hmem => h (List.mem_cons_of_mem _ hmem)]
    rfl

/-- A name that is an identifier is read up to its bracket. -/
theorem readName_append {name : Text} (h : isIdentifier name = true) (u : Text) :
    readName (name ++ '>' :: u) = .ok name := by
  have hmark : '>' ∉ name := fun hmem => by
    have := isNamePart_of_isIdentifier h '>' hmem
    have hnot : isNamePart '>' = false := by decide +kernel
    rw [hnot] at this
    cases this
  rw [readName, splitAtFirst?_append hmark]
  exact if_pos h

theorem readName_eq_ok {t name : Text} (h : readName t = .ok name) :
    ∃ u, t = name ++ '>' :: u ∧ isIdentifier name = true := by
  unfold readName at h
  split at h
  · cases h
  · rename_i before after hsplit
    split at h
    · rename_i hname
      cases h
      exact ⟨after, (Text.splitAtFirst?_eq_some hsplit).1, hname⟩
    · cases h

/-! ### Openings of groups -/

theorem groupOpening_capturing {u : Text} (h : u.head? ≠ some '?') :
    groupOpening u = .ok ⟨.groupOpen .capturing, 0⟩ := by
  unfold groupOpening
  split <;> first | rfl | exact absurd rfl h

/-- A name does not begin like the openings of other groups. -/
theorem groupOpening_named {name : Text} (h : isIdentifier name = true) (u : Text) :
    groupOpening ('?' :: '<' :: (name ++ '>' :: u)) =
      .ok ⟨.groupOpen (.named name), name.length + 3⟩ := by
  have hread := readName_append h u
  cases name with
  | nil => cases h
  | cons c cs =>
    have hstart : isNameStart c = true := by
      simp only [isIdentifier, Bool.and_eq_true] at h
      exact h.1
    rw [List.cons_append] at hread ⊢
    unfold groupOpening
    split
    case h_6 heq =>
      cases heq
      rw [hread]
      rfl
    case h_4 heq =>
      cases heq
      exact absurd hstart (by decide +kernel)
    case h_5 heq =>
      cases heq
      exact absurd hstart (by decide +kernel)
    case h_7 hbracket heq =>
      cases heq
      exact absurd rfl (hbracket _)
    all_goals simp_all

/-! ### Escapes -/

variable {b : Bool} {t : Text} {n : Nat} {c : PatternChar}

theorem unicodeLength?_take {cs : Text} (h : unicodeLength? cs = some n) :
    ∃ m, n = m + 1 ∧ (cs.take m).length = m ∧
      ∀ u, unicodeLength? (cs.take m ++ u) = some n := by
  unfold unicodeLength? at h
  split at h
  · rename_i t
    dsimp only at h
    split at h
    · rename_i hbrace
      obtain ⟨hne, hread, hend⟩ := hbrace
      obtain ⟨w, hw, htake, hrun⟩ := exists_braced (by decide) hend
      rw [hw] at h hne hread
      cases h
      refine ⟨w.length + 2, rfl, by rw [htake]; simp, fun u => ?_⟩
      rw [htake]
      rw [List.cons_append, List.append_assoc, List.singleton_append]
      simp only [unicodeLength?, hrun u, List.head?_cons]
      rw [if_pos ⟨hne, hread, trivial⟩]
    · cases h
  · split at h
    · rename_i hbrace hhex
      cases h
      refine ⟨4, rfl, hhex.1, fun u => ?_⟩
      match cs, hhex with
      | x₁ :: x₂ :: x₃ :: x₄ :: cs, hhex =>
        unfold unicodeLength?
        split
        · rename_i heq
          simp only [List.take_succ_cons, List.take_zero, List.cons_append, List.cons.injEq] at heq
          exact absurd (by rw [heq.1]) (hbrace (x₂ :: x₃ :: x₄ :: cs))
        · simpa using hhex
    · cases h

theorem propertyLength?_take {cs : Text} (h : propertyLength? cs = some n) :
    ∃ m, n = m + 1 ∧ (cs.take m).length = m ∧
      ∀ u, propertyLength? (cs.take m ++ u) = some n := by
  unfold propertyLength? at h
  split at h
  · rename_i t
    dsimp only at h
    split at h
    · rename_i hbrace
      obtain ⟨hne, hend⟩ := hbrace
      obtain ⟨w, hw, htake, hrun⟩ := exists_braced (by decide) hend
      rw [hw] at h hne
      cases h
      refine ⟨w.length + 2, rfl, by rw [htake]; simp, fun u => ?_⟩
      rw [htake]
      rw [List.cons_append, List.append_assoc, List.singleton_append]
      simp only [propertyLength?, hrun u, List.head?_cons]
      rw [if_pos ⟨hne, trivial⟩]
    · cases h
  · cases h

/-- A character that is its own escape text: it takes up exactly that text, whatever follows,
unless it is octal and a digit follows. -/
structure Verbatim (b : Bool) (t : Text) (c : PatternChar) (n : Nat) : Prop where
  kind : c.kind ≠ .simple
  escaped : c.escaped = false
  value : c.value = '\\' :: t.take n
  length : (t.take n).length = n
  again : ∀ u, (c.kind = .octal → noDigit u) → escape b (t.take n ++ u) = .ok ⟨.char c, n⟩

theorem verbatim_escapeText {kind : CharKind} (hkind : kind ≠ .simple)
    (hlen : (t.take n).length = n)
    (h : ∀ u, (kind = .octal → noDigit u) →
      escape b (t.take n ++ u) = .ok (escapeText kind n (t.take n ++ u))) :
    Verbatim b t ⟨'\\' :: t.take n, kind, false⟩ n where
  kind := hkind
  escaped := rfl
  value := rfl
  length := hlen
  again u hu := by
    rw [h u hu, escapeText, List.take_append, hlen, List.take_of_length_le (Nat.le_of_eq hlen)]
    simp

theorem verbatim_letter {x : Char} (hx : x ∈ plainLetters) (b : Bool) (cs : Text) :
    Verbatim b (x :: cs) ⟨'\\' :: (x :: cs).take 1, .special, false⟩ 1 :=
  verbatim_escapeText (by decide) rfl fun _ _ => escape_letter hx b _

theorem verbatim_backspace (cs : Text) :
    Verbatim true ('b' :: cs) ⟨'\\' :: ('b' :: cs).take 1, .special, false⟩ 1 :=
  verbatim_escapeText (by decide) rfl fun _ _ => escape_backspace _

theorem verbatim_octal {x : Char} (hx : Numeral.isOctal x = true) (hplace : x = '0' ∨ b = true)
    (cs : Text) : Verbatim b (x :: cs)
      ⟨'\\' :: (x :: cs).take (octalRun 2 cs + 1), .octal, false⟩ (octalRun 2 cs + 1) := by
  have hlen : (cs.take (octalRun 2 cs)).length = octalRun 2 cs :=
    (octalRun_take (u := []) (by simp [noDigit])).1
  refine verbatim_escapeText (by decide) ?_ fun u hu => ?_
  · rw [List.take_succ_cons, List.length_cons, hlen]
  · rw [List.take_succ_cons, List.cons_append, escape_octal hx hplace, (octalRun_take (hu rfl)).2]

theorem verbatim_hex {cs : Text}
    (hhex : (cs.take 2).length = 2 ∧ (cs.take 2).all Numeral.isHex = true) (b : Bool) :
    Verbatim b ('x' :: cs) ⟨'\\' :: ('x' :: cs).take 3, .hex, false⟩ 3 := by
  rcases cs with _ | ⟨x₁, _ | ⟨x₂, cs⟩⟩
  · cases hhex.1
  · cases hhex.1
  · refine verbatim_escapeText (by decide) rfl fun u _ => ?_
    simp only [List.take_succ_cons, List.take_zero, List.cons_append, List.nil_append]
    rw [escape_hex]
    exact if_pos hhex

theorem verbatim_unicode {cs : Text} (hn : unicodeLength? cs = some n) (b : Bool) :
    Verbatim b ('u' :: cs) ⟨'\\' :: ('u' :: cs).take n, .unicode, false⟩ n := by
  obtain ⟨m, rfl, hlen, hagain⟩ := unicodeLength?_take hn
  refine verbatim_escapeText (by decide) ?_ fun u _ => ?_
  · rw [List.take_succ_cons, List.length_cons, hlen]
  · rw [List.take_succ_cons, List.cons_append, escape_unicode, hagain u]
    rfl

theorem verbatim_control {cs : Text} (halpha : cs.head?.any Char.isAlpha = true) (b : Bool) :
    Verbatim b ('c' :: cs) ⟨'\\' :: ('c' :: cs).take 2, .control, false⟩ 2 := by
  cases cs with
  | nil => cases halpha
  | cons x₁ cs =>
    refine verbatim_escapeText (by decide) rfl fun u _ => ?_
    simp only [List.take_succ_cons, List.take_zero, List.cons_append, List.nil_append]
    rw [escape_control]
    exact if_pos halpha

theorem verbatim_property {x : Char} {cs : Text} (hx : x = 'p' ∨ x = 'P')
    (hn : propertyLength? cs = some n) (b : Bool) :
    Verbatim b (x :: cs) ⟨'\\' :: (x :: cs).take n, .special, false⟩ n := by
  obtain ⟨m, rfl, hlen, hagain⟩ := propertyLength?_take hn
  refine verbatim_escapeText (by decide) ?_ fun u _ => ?_
  · rw [List.take_succ_cons, List.length_cons, hlen]
  · rw [List.take_succ_cons, List.cons_append, escape_property hx, hagain u]
    rfl

/-- An escape that is a character is an identity escape or its own text. -/
theorem escape_eq_char (h : escape b t = .ok ⟨.char c, n⟩) :
    (∃ x cs, t = x :: cs ∧ c = .identityEscape x ∧ n = 1 ∧ (b = false → x.isDigit = false)) ∨
      Verbatim b t c n := by
  cases t with
  | nil => cases h
  | cons x cs =>
    cases escaped_of_eq h with
    | letter hx => exact .inr (verbatim_letter hx b cs)
    | backspace hx hinside =>
      subst hx hinside
      exact .inr (verbatim_backspace cs)
    | octal hx hplace => exact .inr (verbatim_octal hx hplace cs)
    | hex hx hdigits =>
      subst hx
      exact .inr (verbatim_hex hdigits b)
    | unicode hx hlen =>
      subst hx
      exact .inr (verbatim_unicode hlen b)
    | control hx hletter =>
      subst hx
      exact .inr (verbatim_control hletter b)
    | property hx hlen => exact .inr (verbatim_property hx hlen b)
    | identity hx => exact .inl ⟨x, cs, rfl, rfl, rfl, isDigit_of_beginsEscape hx⟩

/-- An escape is a character, a boundary or a reference; a number is written outside classes and
takes in all digits. -/
theorem escape_eq_ok {l : Lexeme} (h : escape b t = .ok l) :
    (∃ c, l.kind = .char c) ∨ (∃ kind, l.kind = .assertion kind) ∨
      (∃ name, l.kind = .backreference (.name name)) ∨
      (b = false ∧ l = ⟨.backreference (.number (min (Numeral.ofDecimal (t.takeWhile Char.isDigit))
        Numeral.max64)), (t.takeWhile Char.isDigit).length⟩) := by
  cases t with
  | nil => cases h
  | cons x cs =>
    cases escaped_of_eq h with
    | wordBoundary | nonWordBoundary => exact .inr (.inl ⟨_, rfl⟩)
    | number _ houtside => exact .inr (.inr (.inr ⟨houtside, rfl⟩))
    | name => exact .inr (.inr (.inl ⟨_, rfl⟩))
    | _ => exact .inl ⟨_, rfl⟩

/-! ### Characters that the lexer makes -/

/-- A character that stands for itself outside classes. -/
theorem outside_of_not_reserved {x : Char}
    (h : (PatternChar.reserved .pattern).contains x = false) (u : Text) :
    outside x u = .ok ⟨.char (.simple x), 0⟩ := by
  unfold outside
  split
  case h_13 => rfl
  all_goals exact absurd h (by decide)

/-- A character that stands for itself inside classes. -/
theorem inside_of_not_reserved {x : Char}
    (h : (PatternChar.reserved .inClass).contains x = false) (u : Text) :
    inside x u = .ok ⟨.char (.simple x), 0⟩ := by
  unfold inside
  split
  case h_3 => rfl
  all_goals exact absurd h (by decide)

theorem kind_quantifier (min : Nat) (max : Option Nat) (extra : Nat) (rest : Text) :
    ∃ greedy, (quantifier min max extra rest).kind = .quantifier min max greedy := by
  unfold quantifier
  split
  · exact ⟨false, rfl⟩
  · exact ⟨true, rfl⟩

theorem quantifier_ne_char {min : Nat} {max : Option Nat} {extra : Nat} {rest : Text} :
    quantifier min max extra rest ≠ ⟨.char c, n⟩ := fun h => by
  obtain ⟨greedy, hkind⟩ := kind_quantifier min max extra rest
  rw [h] at hkind
  cases hkind

/-- A brace is a character or a quantifier whose bounds are words. -/
theorem brace_eq_ok {l : Lexeme} (h : brace t = .ok l) :
    l = ⟨.char (.simple '\x7b'), 0⟩ ∨ ∃ min max greedy, l.kind = .quantifier min max greedy ∧
      min ≤ Numeral.max32 ∧ max.all (· ≤ Numeral.max32) = true := by
  unfold brace at h
  split at h
  · cases h
    exact .inl rfl
  · dsimp only at h
    split at h
    · rename_i low high extra _ hbounds
      obtain ⟨greedy, hkind⟩ := kind_quantifier (Numeral.ofDecimal low)
        (high.map Numeral.ofDecimal) extra (t.drop extra)
      cases h
      exact .inr ⟨_, _, greedy, hkind, hbounds⟩
    · cases h

/-- A parenthesis opens a group, of a name that is an identifier when it has one. -/
theorem groupOpening_eq_ok {l : Lexeme} (h : groupOpening t = .ok l) :
    ∃ how, l.kind = .groupOpen how ∧ ∀ name, how = .named name → isIdentifier name = true := by
  unfold groupOpening at h
  split at h
  case h_6 t _ _ =>
    cases hread : readName t with
    | error _ =>
      rw [hread] at h
      cases h
    | ok name =>
      rw [hread] at h
      cases h
      obtain ⟨-, -, hname⟩ := readName_eq_ok hread
      exact ⟨_, rfl, fun _ heq => by cases heq; exact hname⟩
  case h_7 => cases h
  all_goals
    cases h
    exact ⟨_, rfl, fun _ heq => by cases heq⟩

/-- What begins with a character and is a character: that character, the dot or an escape. -/
theorem first_eq_char {x : Char} (h : first b x t = .ok ⟨.char c, n⟩) :
    c = .simple x ∨ (c = .dot ∧ b = false) ∨
      (∃ y, c = .identityEscape y ∧ (b = false → y.isDigit = false)) ∨ Verbatim b t c n := by
  have hescape : escape b t = .ok ⟨.char c, n⟩ →
      (∃ y, c = .identityEscape y ∧ (b = false → y.isDigit = false)) ∨ Verbatim b t c n := by
    intro h
    rcases escape_eq_char h with ⟨y, _, _, hc, _, hy⟩ | hverbatim
    · exact .inl ⟨y, hc, hy⟩
    · exact .inr hverbatim
  cases b with
  | true =>
    simp only [first, if_true] at h
    unfold inside at h
    split at h
    · cases h
    · exact .inr (.inr (hescape h))
    · cases h
      exact .inl rfl
  | false =>
    simp only [first, Bool.false_eq_true, if_false] at h
    unfold outside at h
    split at h
    · exact .inr (.inr (hescape h))
    · split at h <;> cases h
    · obtain ⟨how, hkind, -⟩ := groupOpening_eq_ok h
      cases hkind
    · cases h
    · cases h
    · cases h
    · cases h
    · cases h
      exact .inr (.inl ⟨rfl, rfl⟩)
    · exact absurd (Except.ok.inj h) quantifier_ne_char
    · exact absurd (Except.ok.inj h) quantifier_ne_char
    · exact absurd (Except.ok.inj h) quantifier_ne_char
    · rcases brace_eq_ok h with hchar | ⟨_, _, _, hkind, -⟩
      · cases hchar
        exact .inl rfl
      · cases hkind
    · cases h
      exact .inl rfl

/-- Bounds are words, names are identifiers and numbers are at most the largest one. -/
def Bounded : TokenKind → Prop
  | .quantifier min max _ => min ≤ Numeral.max32 ∧ max.all (· ≤ Numeral.max32) = true
  | .groupOpen (.named name) => isIdentifier name = true
  | .backreference (.number m) => m ≤ Numeral.max64
  | _ => True

theorem bounded_quantifier {min : Nat} {max : Option Nat} {extra : Nat} {rest : Text}
    (hmin : min ≤ Numeral.max32) (hmax : max.all (· ≤ Numeral.max32) = true) :
    Bounded (quantifier min max extra rest).kind := by
  obtain ⟨greedy, hkind⟩ := kind_quantifier min max extra rest
  rw [hkind]
  exact ⟨hmin, hmax⟩

theorem bounded_escape {l : Lexeme} (h : escape b t = .ok l) : Bounded l.kind := by
  rcases escape_eq_ok h with ⟨c, hkind⟩ | ⟨kind, hkind⟩ | ⟨name, hkind⟩ | ⟨-, rfl⟩
  · rw [hkind]
    exact trivial
  · rw [hkind]
    exact trivial
  · rw [hkind]
    exact trivial
  · exact Nat.min_le_right _ _

/-- Every token that the lexer makes is bounded. -/
theorem bounded_of_first {x : Char} {l : Lexeme} (h : first b x t = .ok l) : Bounded l.kind := by
  cases b with
  | true =>
    simp only [first, if_true] at h
    unfold inside at h
    split at h
    · cases h
      exact trivial
    · exact bounded_escape h
    · cases h
      exact trivial
  | false =>
    simp only [first, Bool.false_eq_true, if_false] at h
    unfold outside at h
    split at h
    case h_1 => exact bounded_escape h
    case h_3 =>
      obtain ⟨how, hkind, hname⟩ := groupOpening_eq_ok h
      rw [hkind]
      cases how with
      | named name => exact hname name rfl
      | _ => exact trivial
    case h_9 | h_10 | h_11 =>
      rw [← Except.ok.inj h]
      exact bounded_quantifier (by decide) (by decide)
    case h_12 =>
      rcases brace_eq_ok h with hchar | ⟨_, _, _, hkind, hmin, hmax⟩
      · rw [hchar]
        exact trivial
      · rw [hkind]
        exact ⟨hmin, hmax⟩
    case h_2 => split at h <;> cases h <;> exact trivial
    all_goals
      cases h
      exact trivial

/-! ### Reading a character back -/

/-- Where a character in or outside of a class is printed. -/
def placeOf (inClass : Bool) : PatternChar.Place := if inClass then .inClass else .pattern

/-- A character that the lexer makes inside a class or outside. -/
def Lexical (inClass : Bool) (c : PatternChar) : Prop :=
  ∃ x t n, first inClass x t = .ok ⟨.char c, n⟩

/-- The character that the text of a character is read as: a simple one is marked when it is
written with a backslash. -/
def reread (inClass : Bool) (c : PatternChar) : PatternChar :=
  if c.kind = .simple then
    { c with escaped := PatternChar.needsEscape (placeOf inClass) c.value }
  else c

theorem first_backslash (b : Bool) (t : Text) : first b '\\' t = escape b t := by cases b <;> rfl

/-- Reserved characters are those that may be escaped by themselves. -/
theorem escape_of_reserved {x : Char} (h : (PatternChar.reserved (placeOf b)).contains x = true)
    (u : Text) : escape b (x :: u) = .ok ⟨.char (.identityEscape x), 1⟩ := by
  rw [List.contains_iff_mem] at h
  cases b with
  | true =>
    simp only [placeOf, if_true, PatternChar.reserved, List.mem_cons, List.not_mem_nil,
      or_false] at h
    rcases h with rfl | rfl | rfl | rfl | rfl | rfl <;> rfl
  | false =>
    simp only [placeOf, Bool.false_eq_true, if_false, PatternChar.reserved, List.mem_cons,
      List.not_mem_nil, or_false] at h
    rcases h with rfl | rfl | rfl | rfl | rfl | rfl | rfl | rfl | rfl | rfl | rfl | rfl | rfl |
      rfl | rfl <;> rfl

theorem first_of_not_reserved {x : Char}
    (h : (PatternChar.reserved (placeOf b)).contains x = false) (u : Text) :
    first b x u = .ok ⟨.char (.simple x), 0⟩ := by
  cases b with
  | true => exact inside_of_not_reserved h u
  | false => exact outside_of_not_reserved h u

theorem text_of_reserved {place : PatternChar.Place} {x : Char}
    (h : (PatternChar.reserved place).contains x = true) (escaped : Bool) :
    PatternChar.text place ⟨[x], .simple, escaped⟩ = ['\\', x] := if_pos ⟨rfl, h⟩

theorem text_of_not_reserved {place : PatternChar.Place} {x : Char}
    (h : (PatternChar.reserved place).contains x = false) (escaped : Bool) :
    PatternChar.text place ⟨[x], .simple, escaped⟩ = [x] :=
  if_neg fun hsimple => Bool.false_ne_true (h.symm.trans hsimple.2)

theorem reread_literal (b : Bool) (x : Char) (escaped : Bool) :
    reread b ⟨[x], .simple, escaped⟩ =
      ⟨[x], .simple, (PatternChar.reserved (placeOf b)).contains x⟩ := rfl

/-- The text of a literal reads as that literal. -/
theorem splits_literal (b : Bool) (x : Char) (escaped : Bool) (u : Text) :
    Splits b (PatternChar.text (placeOf b) ⟨[x], .simple, escaped⟩) u
      [.char (reread b ⟨[x], .simple, escaped⟩)] b := by
  cases h : (PatternChar.reserved (placeOf b)).contains x with
  | true =>
    rw [reread_literal, text_of_reserved h, h]
    refine .one (k := .char (.identityEscape x)) ?_
    rw [first_backslash]
    exact escape_of_reserved h u
  | false =>
    rw [reread_literal, text_of_not_reserved h, h]
    exact .one (k := .char (.simple x)) (first_of_not_reserved h u)

/-- The text of a character that the lexer makes reads as that character, up to the mark of
an identity escape, when no digit follows octal ones. -/
theorem splits_text {u : Text} (hc : Lexical b c) (hu : c.kind = .octal → noDigit u) :
    Splits b (c.text (placeOf b)) u [.char (reread b c)] b := by
  obtain ⟨x, t, n, h⟩ := hc
  rcases first_eq_char h with rfl | ⟨rfl, rfl⟩ | ⟨y, rfl, -⟩ | hverbatim
  · exact splits_literal b x false u
  · exact .one (k := .char .dot) rfl
  · exact splits_literal b y true u
  · have hread : reread b c = c := by rw [reread, if_neg hverbatim.kind]
    rw [hread, PatternChar.text, if_neg fun hsimple => hverbatim.kind hsimple.1, hverbatim.value]
    refine .one (k := .char c) ?_
    rw [first_backslash, hverbatim.again u hu, hverbatim.length]

/-! ### Properties of the characters -/

@[simp] theorem codePoint?_reread (b : Bool) (c : PatternChar) :
    (reread b c).codePoint? = c.codePoint? := by
  unfold reread
  split <;> rfl

@[simp] theorem value_reread (b : Bool) (c : PatternChar) : (reread b c).value = c.value := by
  unfold reread
  split <;> rfl

@[simp] theorem kind_reread (b : Bool) (c : PatternChar) : (reread b c).kind = c.kind := by
  unfold reread
  split <;> rfl

@[simp] theorem text_reread (b : Bool) (c : PatternChar) (place : PatternChar.Place) :
    (reread b c).text place = c.text place := by
  rw [PatternChar.text, PatternChar.text, kind_reread, value_reread]

/-- An unescaped dash that the lexer makes is the plain character. -/
theorem Lexical.dash (hc : Lexical b c) (h : c.isDash = true) : c = .simple '-' := by
  obtain ⟨x, t, n, hfirst⟩ := hc
  simp only [PatternChar.isDash, Bool.and_eq_true, Bool.not_eq_true', beq_iff_eq] at h
  rcases first_eq_char hfirst with rfl | ⟨rfl, -⟩ | ⟨y, rfl, -⟩ | hverbatim
  · obtain ⟨-, hvalue⟩ := h
    simp only [PatternChar.simple, List.cons.injEq, and_true] at hvalue
    rw [hvalue]
  · exact absurd h.2 (by decide)
  · cases h.1
  · rw [hverbatim.value] at h
    exact absurd (List.cons.inj h.2).1 (by decide)

/-- In a class every dash is printed with a backslash, so none read back is a range dash. -/
theorem isDash_reread (c : PatternChar) (hc : Lexical true c) : (reread true c).isDash = false := by
  obtain ⟨x, t, n, hfirst⟩ := hc
  have hliteral : ∀ y escaped, (reread true ⟨[y], .simple, escaped⟩).isDash = false := by
    intro y escaped
    by_cases hy : y = '-'
    · subst hy
      rfl
    · simp [PatternChar.isDash, reread, hy]
  rcases first_eq_char hfirst with rfl | ⟨rfl, hfalse⟩ | ⟨y, rfl, -⟩ | hverbatim
  · exact hliteral x false
  · cases hfalse
  · exact hliteral y true
  · rw [reread, if_neg hverbatim.kind, PatternChar.isDash, hverbatim.value]
    simp

/-- How the text of a character may begin. -/
theorem exists_text_eq_cons (hc : Lexical b c) :
    ∃ x v, c.text (placeOf b) = x :: v ∧ (b = false → x ≠ '?') ∧
      (b = true → x ≠ '^' ∧ x ≠ ']') := by
  obtain ⟨x, t, n, hfirst⟩ := hc
  have hliteral : ∀ y escaped, ∃ x v,
      PatternChar.text (placeOf b) ⟨[y], .simple, escaped⟩ = x :: v ∧ (b = false → x ≠ '?') ∧
        (b = true → x ≠ '^' ∧ x ≠ ']') := by
    intro y escaped
    cases h : (PatternChar.reserved (placeOf b)).contains y with
    | true => exact ⟨'\\', [y], text_of_reserved h escaped, by simp, by simp⟩
    | false =>
      refine ⟨y, [], text_of_not_reserved h escaped, ?_, ?_⟩
      · rintro rfl rfl
        exact absurd h (by decide)
      · rintro rfl
        refine ⟨?_, ?_⟩ <;> rintro rfl <;> exact absurd h (by decide)
  rcases first_eq_char hfirst with rfl | ⟨rfl, rfl⟩ | ⟨y, rfl, -⟩ | hverbatim
  · exact hliteral x false
  · exact ⟨'.', [], rfl, by simp, by simp⟩
  · exact hliteral y true
  · refine ⟨'\\', t.take n, ?_, by simp, by simp⟩
    rw [PatternChar.text, if_neg fun hsimple => hverbatim.kind hsimple.1, hverbatim.value]

end RegexKit.Token
