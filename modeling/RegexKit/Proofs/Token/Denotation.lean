import RegexKit.Proofs.Token.Octal
import RegexKit.Proofs.Token.Tiling
import Mathlib.Data.Nat.Digits.Lemmas

/-! What the text of a character token denotes. The rules are stated on the text alone, without the
lexer and without the code point that is computed from the recorded escape: digits have a positional
value in their base, letters stand for control characters or for sets, and every other character
stands for itself. The lexer makes character tokens of texts that have a value or stand for a set,
and the code point of the token is that value. -/

namespace RegexKit.Token

open Numeral (isOctal isHex)

/-! ### Numerals -/

/-- The value of a digit; letters of either case go on after the decimal digits. -/
def digitValue (c : Char) : Nat :=
  if c.isDigit then c.toNat - '0'.toNat
  else if c.isLower then c.toNat - 'a'.toNat + 10
  else c.toNat - 'A'.toNat + 10

/-- The number that digits write in a base, most significant first. -/
def numeral (base : Nat) (ds : Text) : Nat := Nat.ofDigits base (ds.reverse.map digitValue)

variable {base value : Nat} {ds : Text}

theorem numeral_cons (base : Nat) (d : Char) (ds : Text) :
    numeral base (d :: ds) = base ^ ds.length * digitValue d + numeral base ds := by
  simp [numeral, Nat.ofDigits_append, Nat.add_comm]

/-- Reading digits from the left gives their positional value. -/
theorem digits?_eq_numeral (hds : ∀ d ∈ ds, Numeral.digit? base d = some (digitValue d)) :
    Numeral.digits? base value ds = some (base ^ ds.length * value + numeral base ds) := by
  induction ds generalizing value with
  | nil => simp [numeral]
  | cons d ds ih =>
    obtain ⟨hd, hds⟩ := List.forall_mem_cons.1 hds
    rw [Numeral.digits?, hd, Option.bind_some, ih hds, numeral_cons, List.length_cons, pow_succ]
    congr 1
    ring

theorem numeral_lt (hbase : 1 < base) (hds : ∀ d ∈ ds, digitValue d < base) :
    numeral base ds < base ^ ds.length := by
  have hlt := Nat.ofDigits_lt_base_pow_length (b := base) (l := ds.reverse.map digitValue) hbase
    fun v hv => by
      obtain ⟨d, hd, rfl⟩ := List.mem_map.1 hv
      exact hds d (List.mem_reverse.1 hd)
  simpa [numeral] using hlt

theorem between_iff {c low high : Char} :
    low ≤ c ∧ c ≤ high ↔ low.toNat ≤ c.toNat ∧ c.toNat ≤ high.toNat := by
  simp only [Char.le_def, UInt32.le_iff_toNat_le]
  exact Iff.rfl

theorem isDigit_iff {c : Char} : c.isDigit = true ↔ '0' ≤ c ∧ c ≤ '9' := by
  simp only [Char.isDigit, Bool.and_eq_true, decide_eq_true_eq]
  exact Iff.rfl

theorem isLower_iff {c : Char} : c.isLower = true ↔ 'a' ≤ c ∧ c ≤ 'z' := by
  have hlower : c.isLower = (decide (c.val ≥ 'a'.val) && decide (c.val ≤ 'z'.val)) := rfl
  rw [hlower, Bool.and_eq_true, decide_eq_true_eq, decide_eq_true_eq]
  exact Iff.rfl

/-- The digits of a base in which letters are digits as well. -/
theorem digit?_of_isHex {c : Char} (hc : isHex c = true) :
    Numeral.digit? 16 c = some (digitValue c) ∧ digitValue c < 16 := by
  simp only [isHex, Bool.or_eq_true, Bool.and_eq_true, decide_eq_true_eq, isDigit_iff, between_iff,
    Char.reduceToNat] at hc
  simp only [Numeral.digit?, digitValue, isDigit_iff, isLower_iff, between_iff, Char.reduceToNat]
  grind

theorem digit?_of_isOctal {c : Char} (hc : isOctal c = true) :
    Numeral.digit? 8 c = some (digitValue c) ∧ digitValue c < 8 := by
  simp only [isOctal, Bool.and_eq_true, decide_eq_true_eq, between_iff, Char.reduceToNat] at hc
  simp only [Numeral.digit?, digitValue, isDigit_iff, isLower_iff, between_iff, Char.reduceToNat]
  grind

/-- Digits are read as the number that they write. -/
theorem read?_numeral {limit : Nat} (hne : ds ≠ [])
    (hds : ∀ d ∈ ds, Numeral.digit? base d = some (digitValue d)) (hle : numeral base ds ≤ limit) :
    Numeral.read? base limit ds = some (numeral base ds) :=
  Numeral.read?_of_digits? hne hle (by rw [digits?_eq_numeral hds]; simp)

/-- Digits that are read up to a limit write a number within it. -/
theorem numeral_le_of_read? {limit n : Nat}
    (hds : ∀ d ∈ ds, Numeral.digit? base d = some (digitValue d))
    (h : Numeral.read? base limit ds = some n) : numeral base ds ≤ limit := by
  have hplus : Numeral.dropPlus ds = ds := by
    unfold Numeral.dropPlus
    split
    · have hdigit := hds '+' List.mem_cons_self
      simp [Numeral.digit?] at hdigit
    · rfl
  simp only [Numeral.read?, hplus] at h
  split at h
  · cases h
  · rw [digits?_eq_numeral hds, Nat.mul_zero, Nat.zero_add] at h
    obtain ⟨hn, hle⟩ := Option.filter_eq_some_iff.1 h
    rw [Option.some.inj hn]
    exact of_decide_eq_true hle

/-! ### What texts denote -/

/-- The letters that stand for a set of characters after a backslash. -/
def setLetters : Text := ['d', 'D', 'w', 'W', 's', 'S']

/-- The letters that stand for a control character after a backslash. -/
def controlLetters : List (Char × Nat) :=
  [('t', 0x09), ('n', 0x0A), ('v', 0x0B), ('f', 0x0C), ('r', 0x0D)]

theorem mem_plainLetters_iff {x : Char} :
    x ∈ plainLetters ↔ x ∈ setLetters ∨ x ∈ controlLetters.map Prod.fst := by
  simp only [plainLetters, setLetters, controlLetters, List.map_cons, List.map_nil, List.mem_cons,
    List.not_mem_nil, or_false]
  tauto

/-- The texts that stand for a set of characters, in a class or outside. -/
inductive StandsForSet (inClass : Bool) : Text → Prop
  | dot (houtside : inClass = false) : StandsForSet inClass ['.']
  | letter {x : Char} (hx : x ∈ setLetters) : StandsForSet inClass ['\\', x]
  | property {x : Char} {name : Text} (hx : x = 'p' ∨ x = 'P') (hne : name ≠ [])
      (hname : ∀ y ∈ name, isPropertyPart y = true) :
      StandsForSet inClass ('\\' :: x :: '\x7b' :: (name ++ ['\x7d']))

/-- The code points that texts denote, in a class or outside. -/
inductive Denotes (inClass : Bool) : Text → Nat → Prop
  | plain {x : Char} (hx : x ≠ '\\') (hdot : x = '.' → inClass = true) :
      Denotes inClass [x] x.toNat
  | hex {ds : Text} (hds : ∀ d ∈ ds, isHex d = true) (hlen : ds.length = 2) :
      Denotes inClass ('\\' :: 'x' :: ds) (numeral 16 ds)
  | unicode {ds : Text} (hds : ∀ d ∈ ds, isHex d = true) (hlen : ds.length = 4) :
      Denotes inClass ('\\' :: 'u' :: ds) (numeral 16 ds)
  /-- Any number of digits, leading zeros included. -/
  | braced {ds : Text} (hds : ∀ d ∈ ds, isHex d = true) (hne : ds ≠ [])
      (hle : numeral 16 ds ≤ 0x10FFFF) :
      Denotes inClass ('\\' :: 'u' :: '\x7b' :: (ds ++ ['\x7d'])) (numeral 16 ds)
  /-- One to three digits, outside classes with a zero in front. -/
  | octal {x : Char} {ds : Text} (hds : ∀ d ∈ x :: ds, isOctal d = true)
      (hx : x = '0' ∨ inClass = true) (hlen : ds.length ≤ 2) :
      Denotes inClass ('\\' :: x :: ds) (numeral 8 (x :: ds))
  | control {x : Char} (hx : x.isAlpha = true) : Denotes inClass ['\\', 'c', x] (x.toNat % 32)
  | letter {x : Char} {v : Nat} (hx : (x, v) ∈ controlLetters) : Denotes inClass ['\\', x] v
  | backspace (hinside : inClass = true) : Denotes inClass ['\\', 'b'] 0x08
  | identity {x : Char} (hx : beginsEscape inClass x = false) : Denotes inClass ['\\', x] x.toNat

variable {b : Bool} {t : Text} {v : Nat} {c : PatternChar}

theorem toNat_le (x : Char) : x.toNat ≤ 0x10FFFF := by
  have hvalid : x.toNat.isValidChar := x.valid
  unfold Nat.isValidChar at hvalid
  omega

/-- Every value is a code point. -/
theorem Denotes.le (h : Denotes b t v) : v ≤ 0x10FFFF := by
  cases h with
  | plain | identity => exact toNat_le _
  | hex hds hlen | unicode hds hlen =>
    have hlt := numeral_lt (by decide) fun d hd => (digit?_of_isHex (hds d hd)).2
    rw [hlen] at hlt
    omega
  | braced _ _ hle => exact hle
  | @octal x ds hds _ hlen =>
    have hlt := numeral_lt (by decide) fun d hd => (digit?_of_isOctal (hds d hd)).2
    have hpow : 8 ^ (x :: ds).length ≤ 8 ^ 3 :=
      Nat.pow_le_pow_right (by decide) (Nat.succ_le_succ hlen)
    omega
  | control => omega
  | letter hx =>
    simp only [controlLetters, List.mem_cons, Prod.mk.injEq, List.not_mem_nil, or_false] at hx
    omega
  | backspace => decide

/-! ### Code points of the texts -/

/-- The digits of an escape come after the backslash and a letter of one byte. -/
theorem dropBytes?_letter {x : Char} (hx : x.utf8Size = 1) (t : Text) :
    Text.dropBytes? 2 ('\\' :: x :: t) = some t := by
  have := Text.dropBytes?_bytes_append ['\\', x] t
  simpa [hx, show '\\'.utf8Size = 1 from by decide] using this

theorem dropBytes?_backslash (t : Text) : Text.dropBytes? 1 ('\\' :: t) = some t := by
  have := Text.dropBytes?_bytes_append ['\\'] t
  simpa [show '\\'.utf8Size = 1 from by decide] using this

theorem codePoint?_hex (t : Text) : (⟨'\\' :: 'x' :: t, .hex, false⟩ : PatternChar).codePoint? =
    Numeral.read? 16 Numeral.max32 t := by
  simp only [PatternChar.codePoint?, dropBytes?_letter (show 'x'.utf8Size = 1 from by decide),
    Option.bind_some]

theorem codePoint?_unicode (t : Text) :
    (⟨'\\' :: 'u' :: t, .unicode, false⟩ : PatternChar).codePoint? =
      Numeral.read? 16 Numeral.max32 (PatternChar.unbrace t) := by
  simp only [PatternChar.codePoint?, dropBytes?_letter (show 'u'.utf8Size = 1 from by decide),
    Option.bind_some]

theorem codePoint?_octal (t : Text) : (⟨'\\' :: t, .octal, false⟩ : PatternChar).codePoint? =
    Numeral.read? 8 Numeral.max32 t := by
  simp only [PatternChar.codePoint?, dropBytes?_backslash, Option.bind_some]

theorem codePoint?_control (x : Char) :
    (⟨['\\', 'c', x], .control, false⟩ : PatternChar).codePoint? = some (x.toNat % 32) := by
  simp only [PatternChar.codePoint?, dropBytes?_letter (show 'c'.utf8Size = 1 from by decide),
    Option.bind_some, List.head?_cons, Option.map_some]

/-- A character that is not written with a backslash takes up its own text, and is the dot or
itself. -/
theorem first_eq_plain {x : Char} {n : Nat} (hx : x ≠ '\\') (h : first b x t = .ok ⟨.char c, n⟩) :
    n = 0 ∧ ((x = '.' ∧ b = false ∧ c = .dot) ∨ ((x = '.' → b = true) ∧ c = .simple x)) := by
  cases b with
  | true =>
    simp only [first, if_true] at h
    unfold inside at h
    split at h
    · cases h
    · exact absurd rfl hx
    · cases h
      exact ⟨rfl, .inr ⟨fun _ => rfl, rfl⟩⟩
  | false =>
    simp only [first, Bool.false_eq_true, if_false] at h
    unfold outside at h
    split at h
    case h_1 => exact absurd rfl hx
    case h_2 => split at h <;> cases h
    case h_3 =>
      obtain ⟨how, hkind, -⟩ := groupOpening_eq_ok h
      cases hkind
    case h_8 =>
      cases h
      exact ⟨rfl, .inl ⟨rfl, rfl, rfl⟩⟩
    case h_9 | h_10 | h_11 => exact absurd (Except.ok.inj h) quantifier_ne_char
    case h_12 =>
      rcases brace_eq_ok h with hchar | ⟨_, _, _, hkind, -⟩
      · cases hchar
        exact ⟨rfl, .inr ⟨fun heq => absurd heq (by decide), rfl⟩⟩
      · cases hkind
    case h_13 hdot _ _ _ _ =>
      cases h
      exact ⟨rfl, .inr ⟨fun heq => absurd heq hdot, rfl⟩⟩
    all_goals cases h

/-! ### Recorded escapes -/

/-- An escape that is read from the text is recorded with it, as of this kind. -/
def Records (b : Bool) (kind : CharKind) (t : Text) : Prop :=
  ∀ l, escape b t = .ok l → ∃ n, l = escapeText kind n t

theorem Records.eq {kind : CharKind} (h : Records b kind t)
    (hread : escape b t = .ok ⟨.char c, t.length⟩) : c = ⟨'\\' :: t, kind, false⟩ := by
  obtain ⟨n, hl⟩ := h _ hread
  obtain rfl : t.length = n := congrArg Lexeme.extra hl
  rw [escapeText, List.take_length] at hl
  cases hl
  rfl

theorem Records.of_eq {kind : CharKind} {n : Nat} (h : escape b t = .ok (escapeText kind n t)) :
    Records b kind t := by
  intro l hl
  rw [h] at hl
  exact ⟨n, (Except.ok.inj hl).symm⟩

/-- A reader that checks the text of an escape of one length. -/
theorem Records.of_ite {kind : CharKind} {n : Nat} {cause : LexCause} {P : Prop} [Decidable P]
    (h : escape b t = if P then .ok (escapeText kind n t) else .error cause) :
    Records b kind t := by
  intro l hl
  rw [h] at hl
  split at hl
  · exact ⟨n, (Except.ok.inj hl).symm⟩
  · cases hl

/-- A reader that finds the length of an escape. -/
theorem Records.of_elim {kind : CharKind} {length? : Option Nat} {cause : LexCause}
    (h : escape b t = length?.elim (.error cause) fun n => .ok (escapeText kind n t)) :
    Records b kind t := by
  intro l hl
  rw [h] at hl
  cases length? with
  | none => cases hl
  | some n => exact ⟨n, (Except.ok.inj hl).symm⟩

/-! ### Code points -/

/-- A text that stands for a set is that of a character without a code point. -/
theorem StandsForSet.codePoint? {x : Char} (h : StandsForSet b (x :: t))
    (hfirst : first b x t = .ok ⟨.char c, t.length⟩) : c.codePoint? = none := by
  cases h with
  | dot houtside =>
    obtain ⟨-, ⟨-, -, rfl⟩ | ⟨hdot, -⟩⟩ := first_eq_plain (by decide) hfirst
    · rfl
    · rw [hdot rfl] at houtside
      cases houtside
  | @letter y hy =>
    rw [first_backslash] at hfirst
    obtain rfl := (Records.of_eq (escape_letter (mem_plainLetters_iff.2 (.inl hy)) b [])).eq hfirst
    simp only [setLetters, List.mem_cons, List.not_mem_nil, or_false] at hy
    rcases hy with rfl | rfl | rfl | rfl | rfl | rfl <;> rfl
  | @property y name hy hne hname =>
    rw [first_backslash] at hfirst
    obtain rfl := (Records.of_elim (escape_property hy b _)).eq hfirst
    rcases hy with rfl | rfl <;> rfl

/-- Hexadecimal digits are read as the number that they write, and hold no brace. -/
theorem read?_isHex (hds : ∀ d ∈ ds, isHex d = true) (hne : ds ≠ []) {limit : Nat}
    (hle : numeral 16 ds ≤ limit) :
    Numeral.read? 16 limit ds = some (numeral 16 ds) ∧ PatternChar.unbrace ds = ds := by
  have hdigits : ∀ d ∈ ds, Numeral.digit? 16 d = some (digitValue d) :=
    fun d hd => (digit?_of_isHex (hds d hd)).1
  exact ⟨read?_numeral hne hdigits hle, PatternChar.unbrace_of_digits? (digits?_eq_numeral hdigits)⟩

/-- A text that denotes a code point is that of a character with this code point. -/
theorem Denotes.codePoint? {x : Char} (h : Denotes b (x :: t) v)
    (hfirst : first b x t = .ok ⟨.char c, t.length⟩) : c.codePoint? = some v := by
  have hle : v ≤ Numeral.max32 := Nat.le_trans h.le (by decide)
  cases h with
  | plain hx hdot =>
    obtain ⟨-, ⟨rfl, rfl, -⟩ | ⟨-, rfl⟩⟩ := first_eq_plain hx hfirst
    · cases hdot rfl
    · rfl
  | hex hds hlen =>
    rw [first_backslash] at hfirst
    obtain rfl := (Records.of_ite (escape_hex b _)).eq hfirst
    rw [codePoint?_hex]
    exact (read?_isHex hds (List.ne_nil_of_length_pos (by omega)) hle).1
  | unicode hds hlen =>
    rw [first_backslash] at hfirst
    obtain rfl := (Records.of_elim (escape_unicode b _)).eq hfirst
    obtain ⟨hread, hplain⟩ := read?_isHex hds (List.ne_nil_of_length_pos (by omega)) hle
    rw [codePoint?_unicode, hplain, hread]
  | braced hds hne _ =>
    rw [first_backslash] at hfirst
    obtain rfl := (Records.of_elim (escape_unicode b _)).eq hfirst
    rw [codePoint?_unicode, PatternChar.unbrace_braced]
    exact (read?_isHex hds hne hle).1
  | @octal y ds hds hx _ =>
    rw [first_backslash] at hfirst
    obtain rfl := (Records.of_eq (escape_octal (hds y List.mem_cons_self) hx ds)).eq hfirst
    rw [codePoint?_octal]
    exact read?_numeral (List.cons_ne_nil _ _) (fun d hd => (digit?_of_isOctal (hds d hd)).1) hle
  | control =>
    rw [first_backslash] at hfirst
    obtain rfl := (Records.of_ite (escape_control b _)).eq hfirst
    exact codePoint?_control _
  | letter hx =>
    rw [first_backslash] at hfirst
    have hcontrol := mem_plainLetters_iff.2 (.inr (List.mem_map.2 ⟨_, hx, rfl⟩))
    obtain rfl := (Records.of_eq (escape_letter hcontrol b [])).eq hfirst
    simp only [controlLetters, List.mem_cons, Prod.mk.injEq, List.not_mem_nil, or_false] at hx
    obtain ⟨rfl, rfl⟩ | ⟨rfl, rfl⟩ | ⟨rfl, rfl⟩ | ⟨rfl, rfl⟩ | ⟨rfl, rfl⟩ := hx <;> rfl
  | backspace hinside =>
    subst hinside
    cases hfirst
    rfl
  | identity hx =>
    rw [first_backslash, escape_identity hx] at hfirst
    cases hfirst
    rfl

/-! ### Texts of characters -/

/-- A run that ends at a brace with nothing after it. -/
theorem eq_braced {p : Char → Bool} (hend : (t.dropWhile p).head? = some '\x7d')
    (hlen : t.length = (t.takeWhile p).length + 1) : t = t.takeWhile p ++ ['\x7d'] := by
  obtain ⟨rest, hrest⟩ := List.head?_eq_some_iff.1 hend
  have ht : t = t.takeWhile p ++ '\x7d' :: rest := by rw [← hrest, List.takeWhile_append_dropWhile]
  have hsum := congrArg List.length ht
  rw [List.length_append, List.length_cons] at hsum
  obtain rfl : rest = [] := List.eq_nil_of_length_eq_zero (by omega)
  exact ht

/-- What follows the letter of a Unicode escape. -/
theorem unicodeLength?_eq_length (h : unicodeLength? t = some (t.length + 1)) :
    ((∀ d ∈ t, isHex d = true) ∧ t.length = 4) ∨
      ∃ ds, t = '\x7b' :: (ds ++ ['\x7d']) ∧ (∀ d ∈ ds, isHex d = true) ∧ ds ≠ [] ∧
        numeral 16 ds ≤ 0x10FFFF := by
  unfold unicodeLength? at h
  split at h
  · rename_i u
    dsimp only at h
    split at h
    · rename_i hbrace
      obtain ⟨hne, hread, hend⟩ := hbrace
      have hds : ∀ d ∈ u.takeWhile isHex, isHex d = true := fun d hd => List.mem_takeWhile_imp hd
      have hlen : u.length = (u.takeWhile isHex).length + 1 := by
        simpa using (Option.some.inj h).symm
      obtain ⟨n, hn⟩ := Option.isSome_iff_exists.1 hread
      exact .inr ⟨u.takeWhile isHex, by rw [← eq_braced hend hlen], hds, hne,
        numeral_le_of_read? (fun d hd => (digit?_of_isHex (hds d hd)).1) hn⟩
    · cases h
  · split at h
    · rename_i hhex
      have hlen : t.length = 4 := by simpa using (Option.some.inj h).symm
      rw [List.take_of_length_le (Nat.le_of_eq hlen), List.all_eq_true] at hhex
      exact .inl ⟨hhex.2, hlen⟩
    · cases h

theorem propertyLength?_eq_length (h : propertyLength? t = some (t.length + 1)) :
    ∃ name, t = '\x7b' :: (name ++ ['\x7d']) ∧ name ≠ [] ∧
      ∀ y ∈ name, isPropertyPart y = true := by
  unfold propertyLength? at h
  split at h
  · rename_i u
    dsimp only at h
    split at h
    · rename_i hbrace
      have hlen : u.length = (u.takeWhile isPropertyPart).length + 1 := by
        simpa using (Option.some.inj h).symm
      exact ⟨u.takeWhile isPropertyPart, by rw [← eq_braced hbrace.2 hlen], hbrace.1,
        fun y hy => List.mem_takeWhile_imp hy⟩
    · cases h
  · cases h

/-- The whole text of an escape that is a character stands for a set or denotes a code point. -/
theorem denotes_of_escape {n : Nat} (h : escape b t = .ok ⟨.char c, n⟩) (hn : n = t.length) :
    StandsForSet b ('\\' :: t) ∨ ∃ v, Denotes b ('\\' :: t) v := by
  cases t with
  | nil => cases h
  | cons x t =>
    cases escaped_of_eq h with
    | letter hx =>
      obtain rfl := List.eq_nil_of_length_eq_zero (Nat.succ.inj hn).symm
      rcases mem_plainLetters_iff.1 hx with hset | hcontrol
      · exact .inl (.letter hset)
      · obtain ⟨⟨y, v⟩, hy, rfl⟩ := List.mem_map.1 hcontrol
        exact .inr ⟨v, .letter hy⟩
    | backspace hx hinside =>
      obtain rfl := List.eq_nil_of_length_eq_zero (Nat.succ.inj hn).symm
      subst hx
      exact .inr ⟨_, .backspace hinside⟩
    | octal hx hplace =>
      have hspec := octalRun_spec t
      rw [Nat.succ.inj hn, List.take_length] at hspec
      exact .inr ⟨_, .octal (List.forall_mem_cons.2 ⟨hx, hspec.1⟩) hplace hspec.2⟩
    | hex hx hdigits =>
      subst hx
      have hlen : t.length = 2 := (Nat.succ.inj hn).symm
      rw [List.take_of_length_le (Nat.le_of_eq hlen), List.all_eq_true] at hdigits
      exact .inr ⟨_, .hex hdigits.2 hlen⟩
    | unicode hx hlen =>
      subst hx hn
      rcases unicodeLength?_eq_length hlen with ⟨hds, hlen⟩ | ⟨ds, rfl, hds, hne, hle⟩
      · exact .inr ⟨_, .unicode hds hlen⟩
      · exact .inr ⟨_, .braced hds hne hle⟩
    | control hx hletter =>
      subst hx
      obtain ⟨y, rfl⟩ := List.length_eq_one_iff.1 (Nat.succ.inj hn).symm
      exact .inr ⟨_, .control hletter⟩
    | property hx hlen =>
      subst hn
      obtain ⟨name, rfl, hne, hname⟩ := propertyLength?_eq_length hlen
      exact .inl (.property hx hne hname)
    | identity hx =>
      obtain rfl := List.eq_nil_of_length_eq_zero (Nat.succ.inj hn).symm
      exact .inr ⟨_, .identity hx⟩

/-- The whole text of a character token stands for a set or denotes a code point. -/
theorem denotes_of_first {x : Char} (h : first b x t = .ok ⟨.char c, t.length⟩) :
    StandsForSet b (x :: t) ∨ ∃ v, Denotes b (x :: t) v := by
  by_cases hx : x = '\\'
  · subst hx
    rw [first_backslash] at h
    exact denotes_of_escape h rfl
  · obtain ⟨hlen, hplain⟩ := first_eq_plain hx h
    obtain rfl := List.eq_nil_of_length_eq_zero hlen
    rcases hplain with ⟨rfl, houtside, -⟩ | ⟨hdot, -⟩
    · exact .inl (.dot houtside)
    · exact .inr ⟨_, .plain hx hdot⟩

/-- What a character token denotes is told by its text and by where it stands. Its character has no
code point exactly when the text stands for a set; otherwise it has the code point that the text
denotes, which is at most 10FFFF. -/
theorem codePoint?_of_tokenize {body : Text} {pre post : List Token} {token : Token}
    (h : tokenize body = .ok (pre ++ token :: post)) (hkind : token.kind = .char c) :
    (c.codePoint? = none ↔ StandsForSet (inClassAfterAll false (pre.map Token.kind)) token.raw) ∧
      ∀ v, c.codePoint? = some v ↔
        Denotes (inClassAfterAll false (pre.map Token.kind)) token.raw v ∧ v ≤ 0x10FFFF := by
  obtain ⟨x, w, hraw, hfirst⟩ := first_of_lexFrom h
  rw [hkind] at hfirst
  rw [hraw]
  have hset : StandsForSet _ (x :: w) → c.codePoint? = none := fun hset => hset.codePoint? hfirst
  have hvalue : ∀ v, Denotes _ (x :: w) v → c.codePoint? = some v :=
    fun v hv => hv.codePoint? hfirst
  refine ⟨⟨fun hnone => ?_, hset⟩, fun v => ⟨fun hsome => ?_, fun hv => hvalue v hv.1⟩⟩
  · refine (denotes_of_first hfirst).resolve_right fun ⟨v, hv⟩ => ?_
    rw [hvalue v hv] at hnone
    cases hnone
  · rcases denotes_of_first hfirst with hstands | ⟨w, hw⟩
    · rw [hset hstands] at hsome
      cases hsome
    · obtain rfl : w = v := Option.some.inj ((hvalue w hw).symm.trans hsome)
      exact ⟨hw, hw.le⟩

/-- The member of the class `[\u\x7b0041\x7d]` has leading zeros between its braces. -/
theorem codePoint?_of_tokenize_leading_zeros :
    let raw : Text := ['\\', 'u', '\x7b', '0', '0', '4', '1', '\x7d']
    tokenize ('[' :: raw ++ [']']) = .ok [⟨.classOpen false, ['['], 0⟩,
        ⟨.char ⟨raw, .unicode, false⟩, raw, 1⟩, ⟨.classClose, [']'], 9⟩] ∧
      (⟨raw, .unicode, false⟩ : PatternChar).codePoint? = some 0x41 ∧ Denotes true raw 0x41 := by
  intro raw
  have htokens : tokenize ('[' :: raw ++ [']']) = .ok ([⟨.classOpen false, ['['], 0⟩] ++
      ⟨.char ⟨raw, .unicode, false⟩, raw, 1⟩ :: [⟨.classClose, [']'], 9⟩]) := by
    decide +kernel
  have hvalue : (⟨raw, .unicode, false⟩ : PatternChar).codePoint? = some 0x41 := by decide +kernel
  obtain ⟨-, hdenotes⟩ := codePoint?_of_tokenize htokens rfl
  exact ⟨htokens, hvalue, ((hdenotes 0x41).1 hvalue).1⟩

end RegexKit.Token
