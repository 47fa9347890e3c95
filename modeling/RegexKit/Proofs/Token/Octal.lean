import Mathlib.Algebra.Group.Nat.Defs
import RegexKit.Proofs.Token.Spelling

/-! Octal escapes inside a class. Such an escape has at most three octal digits after its
backslash and takes in as many as it finds, so it is read back as itself when it has three or when
no octal digit follows. Its value is below 512, and the spelling of such a value by its code point
is a literal or two hexadecimal digits, which take in nothing. -/

namespace RegexKit.Token

open Numeral (isOctal)

variable {b : Bool} {c : PatternChar} {u : Text}

/-- The text does not begin with an octal digit. -/
def noOctal (u : Text) : Prop := ∀ d ∈ u.head?, isOctal d = false

theorem noOctal_cons {x : Char} (hx : isOctal x = false) (t : Text) : noOctal (x :: t) :=
  fun d hd => by
    obtain rfl : x = d := by simpa using hd
    exact hx

/-! ### Shape -/

/-- An octal escape of the lexer: a backslash and one to three octal digits. -/
theorem Lexical.octal (hc : Lexical b c) (hkind : c.kind = .octal) :
    ∃ x ds, c = ⟨'\\' :: x :: ds, .octal, false⟩ ∧ isOctal x = true ∧
      (∀ d ∈ ds, isOctal d = true) ∧ ds.length ≤ 2 := by
  rcases hc.spelling with ⟨x, escaped, rfl⟩ | ⟨rfl, -⟩ | ⟨x, u, heq, hescape⟩
  · cases hkind
  · cases hkind
  · obtain ⟨hall, hlen⟩ := hescape.octal hkind
    rw [hkind] at heq
    obtain ⟨hx, hu⟩ := List.forall_mem_cons.1 hall
    exact ⟨x, u, heq, hx, hu, hlen⟩

theorem Lexical.length_octal_le (hc : Lexical b c) (hkind : c.kind = .octal) :
    c.value.length ≤ 4 := by
  obtain ⟨x, ds, rfl, -, -, hlen⟩ := hc.octal hkind
  exact Nat.succ_le_succ (Nat.succ_le_succ hlen)

/-! ### Reading back -/

theorem octalRun_succ_cons (limit : Nat) (x : Char) (t : Text) :
    octalRun (limit + 1) (x :: t) = if isOctal x then octalRun limit t + 1 else 0 := by
  rw [octalRun, List.take_succ_cons, List.takeWhile_cons]
  split <;> rfl

theorem octalRun_eq_zero (hu : noOctal u) (limit : Nat) : octalRun limit u = 0 := by
  cases limit with
  | zero => rfl
  | succ limit =>
    cases u with
    | nil => rfl
    | cons x u => rw [octalRun_succ_cons, hu x rfl, if_neg Bool.false_ne_true]

/-- A run goes on after octal digits. -/
theorem octalRun_append {ds : Text} (hds : ∀ d ∈ ds, isOctal d = true) (limit : Nat) (u : Text) :
    octalRun (ds.length + limit) (ds ++ u) = ds.length + octalRun limit u := by
  induction ds with
  | nil => simp
  | cons d ds ih =>
    rw [List.length_cons, List.cons_append, Nat.add_right_comm, octalRun_succ_cons,
      hds d List.mem_cons_self, if_pos rfl, ih fun k hk => hds k (List.mem_cons_of_mem _ hk)]
    omega

/-- In a class the text of a character that the lexer makes reads as that character, up to the
mark of an identity escape, when it is no octal escape that takes in what follows. -/
theorem splits_inClass (hc : Lexical true c)
    (hu : c.kind = .octal → c.value.length = 4 ∨ noOctal u) :
    Splits true (c.text .inClass) u [.char (reread true c)] true := by
  by_cases hkind : c.kind = .octal
  · obtain ⟨x, ds, rfl, hx, hds, hlen⟩ := hc.octal hkind
    have hrun : octalRun 2 (ds ++ u) = ds.length := by
      have happend := octalRun_append hds (2 - ds.length) u
      rw [Nat.add_sub_cancel' hlen] at happend
      rw [happend]
      rcases hu rfl with hfull | hu
      · rw [show 2 - ds.length = 0 by simp at hfull; omega]
        rfl
      · rw [octalRun_eq_zero hu, Nat.add_zero]
    refine .one (k := .char ⟨'\\' :: x :: ds, .octal, false⟩) ?_
    rw [first_backslash, List.cons_append, escape_octal hx (.inr rfl), hrun, escapeText]
    simp
  · exact splits_text hc fun h => absurd h hkind

/-! ### Values -/

theorem digit?_isOctal {x : Char} (hx : isOctal x = true) :
    ∃ d < 8, Numeral.digit? 8 x = some d := by
  simp only [isOctal, Bool.and_eq_true, decide_eq_true_eq, Char.le_def,
    UInt32.le_iff_toNat_le] at hx
  have hdecimal : '0' ≤ x ∧ x ≤ '9' := by
    simp only [Char.le_def, UInt32.le_iff_toNat_le]
    exact ⟨hx.1, Nat.le_trans hx.2 (by decide)⟩
  have hlt : x.toNat - '0'.toNat < 8 := by
    have hseven : x.toNat ≤ 55 := hx.2
    have hzero : '0'.toNat = 48 := rfl
    omega
  exact ⟨_, hlt, by simp only [Numeral.digit?, if_pos hdecimal, Option.filter_some, hlt,
    decide_true, if_true]⟩

/-- The value of a run of octal digits. -/
theorem digits?_isOctal {ds : Text} (hds : ∀ d ∈ ds, isOctal d = true) (v : Nat) :
    ∃ w < (v + 1) * 8 ^ ds.length, Numeral.digits? 8 v ds = some w := by
  induction ds generalizing v with
  | nil => exact ⟨v, by simp, rfl⟩
  | cons d ds ih =>
    obtain ⟨e, he, hd⟩ := digit?_isOctal (hds d List.mem_cons_self)
    obtain ⟨w, hw, hvalue⟩ := ih (fun k hk => hds k (List.mem_cons_of_mem _ hk)) (8 * v + e)
    refine ⟨w, Nat.lt_of_lt_of_le hw ?_, by rw [Numeral.digits?, hd]; exact hvalue⟩
    have hstep : 8 * v + e + 1 ≤ (v + 1) * 8 := by omega
    calc (8 * v + e + 1) * 8 ^ ds.length ≤ (v + 1) * 8 * 8 ^ ds.length :=
          Nat.mul_le_mul_right _ hstep
      _ = (v + 1) * 8 ^ (d :: ds).length := by
          rw [List.length_cons, Nat.pow_succ, Nat.mul_assoc, Nat.mul_comm 8]

/-- The value of an octal escape is below 512. -/
theorem Lexical.octal_codePoint? (hc : Lexical b c) (hkind : c.kind = .octal) :
    ∃ v < 512, c.codePoint? = some v := by
  obtain ⟨x, ds, rfl, hx, hds, hlen⟩ := hc.octal hkind
  have hall : ∀ d ∈ x :: ds, isOctal d = true := List.forall_mem_cons.2 ⟨hx, hds⟩
  obtain ⟨w, hw, hvalue⟩ := digits?_isOctal hall 0
  have hpow : 8 ^ (x :: ds).length ≤ 512 := by
    have hthree : (x :: ds).length ≤ 3 := Nat.succ_le_succ hlen
    exact Nat.pow_le_pow_right (by decide) hthree
  have hlt : w < 512 := by omega
  have hdrop : Text.dropBytes? 1 ('\\' :: x :: ds) = some (x :: ds) := by
    have := Text.dropBytes?_bytes_append ['\\'] (x :: ds)
    simpa [show '\\'.utf8Size = 1 from by decide] using this
  refine ⟨w, hlt, ?_⟩
  simp only [PatternChar.codePoint?, hdrop, Option.bind_some]
  exact Numeral.read?_of_digits? (List.cons_ne_nil _ _) (by unfold Numeral.max32; omega) hvalue

/-! ### The spelling of a value -/

theorem reread_reread (b : Bool) (c : PatternChar) : reread b (reread b c) = reread b c := by
  by_cases hkind : c.kind = .simple
  · simp [reread, hkind]
  · simp [reread, hkind]

/-- A literal as it is read back is one that the lexer makes. -/
theorem lexical_reread_literal (b : Bool) (x : Char) (escaped : Bool) :
    Lexical b (reread b ⟨[x], .simple, escaped⟩) := by
  rw [reread_literal]
  cases h : (PatternChar.reserved (placeOf b)).contains x with
  | true => exact ⟨'\\', [x], 1, by rw [first_backslash]; exact escape_of_reserved h []⟩
  | false => exact ⟨x, [], 0, first_of_not_reserved h []⟩

/-- A character that the lexer makes is read back as one. -/
theorem Lexical.reread {b : Bool} (hc : Lexical b c) : Lexical b (reread b c) := by
  by_cases hkind : c.kind = .simple
  · obtain ⟨x, t, n, hfirst⟩ := hc
    rcases first_eq_char hfirst with rfl | ⟨rfl, -⟩ | ⟨y, rfl, -⟩ | hverbatim
    · exact lexical_reread_literal b x false
    · cases hkind
    · exact lexical_reread_literal b y true
    · exact absurd hkind hverbatim.kind
  · rwa [Token.reread, if_neg hkind]

/-- The spelling of a value below 512 is a literal or a hexadecimal escape. -/
theorem ofCodePoint_of_lt {v : Nat} (hv : v < 512) :
    (∃ x : Char, x.toNat = v ∧ PatternChar.ofCodePoint v = .simple x) ∨
      ∃ t, PatternChar.ofCodePoint v = ⟨'\\' :: t, .hex, false⟩ ∧
        Lexical true (PatternChar.ofCodePoint v) := by
  have hvalid : v.isValidChar := .inl (by omega)
  cases hcontrol : PatternChar.isControl v with
  | false =>
    refine .inl ⟨Char.ofNat v, ?_, if_pos ⟨hvalid, hcontrol⟩⟩
    rw [Char.ofNat, dif_pos hvalid]
    rfl
  | true =>
    have hall : ∀ w < 160, PatternChar.isControl w = true →
        escape true ('x' :: Numeral.pad 2 (Numeral.hexadecimal w)) =
          .ok ⟨.char (.ofCodePoint w), 3⟩ := by decide +kernel
    have hlt : v < 160 := by
      simp only [PatternChar.isControl, Bool.or_eq_true, Bool.and_eq_true,
        decide_eq_true_eq] at hcontrol
      omega
    refine .inr ⟨'x' :: Numeral.pad 2 (Numeral.hexadecimal v), ?_,
      '\\', 'x' :: Numeral.pad 2 (Numeral.hexadecimal v), 3, ?_⟩
    · rw [PatternChar.ofCodePoint, if_neg (by simp [hcontrol]), if_pos ⟨hvalid, by omega⟩]
      rfl
    · rw [first_backslash]
      exact hall v hlt hcontrol

/-- Such a spelling is read back in a class. -/
theorem lexical_reread_ofCodePoint {v : Nat} (hv : v < 512) :
    Lexical true (reread true (.ofCodePoint v)) := by
  rcases ofCodePoint_of_lt hv with ⟨x, -, hspelled⟩ | ⟨t, -, hlexical⟩
  · rw [hspelled]
    exact lexical_reread_literal true x false
  · exact hlexical.reread

theorem kind_ofCodePoint_ne_octal {v : Nat} (hv : v < 512) :
    (PatternChar.ofCodePoint v).kind ≠ .octal := by
  rcases ofCodePoint_of_lt hv with ⟨x, -, hspelled⟩ | ⟨t, hspelled, -⟩
  · rw [hspelled]
    exact CharKind.noConfusion
  · rw [hspelled]
    exact CharKind.noConfusion

/-- Only the spellings of the octal digits begin with one. -/
theorem toNat_of_head?_ofCodePoint {v : Nat} (hv : v < 512) {x : Char}
    (hx : x ∈ ((PatternChar.ofCodePoint v).text .inClass).head?) (hoctal : isOctal x = true) :
    x.toNat = v := by
  rcases ofCodePoint_of_lt hv with ⟨y, hy, hspelled⟩ | ⟨t, hspelled, -⟩
  · rw [hspelled] at hx
    cases hreserved : (PatternChar.reserved .inClass).contains y with
    | true =>
      rw [show (PatternChar.simple y).text .inClass = ['\\', y] from
        text_of_reserved hreserved false] at hx
      obtain rfl : '\\' = x := by simpa using hx
      exact absurd hoctal (by decide)
    | false =>
      rw [show (PatternChar.simple y).text .inClass = [y] from
        text_of_not_reserved hreserved false] at hx
      obtain rfl : y = x := by simpa using hx
      exact hy
  · rw [hspelled, PatternChar.text, if_neg fun h => CharKind.noConfusion h.1] at hx
    obtain rfl : '\\' = x := by simpa using hx
    exact absurd hoctal (by decide)

end RegexKit.Token
