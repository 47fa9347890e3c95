import RegexKit.Proofs.Token.Characters

/-! What the lexer makes of a body. Every token of the list begins where one may begin, a class
being open or not, and a numeric reference takes in all digits, so that none comes next. All
classes are closed in the end, and the offsets of the tokens increase. -/

namespace RegexKit.Token

/-- The text of the token begins with a digit. -/
def startsWithDigit : TokenKind → Bool
  | .char c => (c.text .pattern).head?.any Char.isDigit
  | _ => false

def isNumber : TokenKind → Bool
  | .backreference (.number _) => true
  | _ => false

/-- A list of tokens that the lexer makes inside a class or outside. -/
def Produced : Bool → List TokenKind → Prop
  | _, [] => True
  | b, k :: ks => (∃ x t n, first b x t = .ok ⟨k, n⟩) ∧
      (isNumber k = true → ks.head?.all (fun k => !startsWithDigit k) = true) ∧
      Produced (inClassAfter b k) ks

variable {b : Bool} {ks ls : List TokenKind}

/-- Whether a class is open after tokens. -/
def inClassAfterAll (b : Bool) (ks : List TokenKind) : Bool := ks.foldl inClassAfter b

theorem inClassAfterAll_append (b : Bool) (ks ls : List TokenKind) :
    inClassAfterAll b (ks ++ ls) = inClassAfterAll (inClassAfterAll b ks) ls := List.foldl_append

theorem Produced.left (h : Produced b (ks ++ ls)) : Produced b ks := by
  induction ks generalizing b with
  | nil => trivial
  | cons k ks ih =>
    obtain ⟨hfirst, hnumber, hrest⟩ := h
    refine ⟨hfirst, fun hk => ?_, ih hrest⟩
    have := hnumber hk
    cases ks with
    | nil => rfl
    | cons k' ks => exact this

theorem Produced.right (h : Produced b (ks ++ ls)) : Produced (inClassAfterAll b ks) ls := by
  induction ks generalizing b with
  | nil => exact h
  | cons k ks ih => exact ih h.2.2

/-- A token whose text begins with a digit is read from a text that does. -/
theorem isDigit_of_startsWithDigit {x : Char} {t : Text} {n : Nat} {k : TokenKind}
    (h : first false x t = .ok ⟨k, n⟩) (hk : startsWithDigit k = true) : x.isDigit = true := by
  cases k with
  | char c =>
    have hliteral : ∀ y escaped,
        ((PatternChar.text .pattern ⟨[y], .simple, escaped⟩).head?.any Char.isDigit) = true →
          y.isDigit = true := by
      intro y escaped hy
      cases hr : (PatternChar.reserved .pattern).contains y with
      | true =>
        rw [text_of_reserved hr] at hy
        cases hy
      | false =>
        rw [text_of_not_reserved hr] at hy
        exact hy
    rcases first_eq_char h with rfl | ⟨rfl, -⟩ | ⟨y, rfl, hy⟩ | hverbatim
    · exact hliteral x false hk
    · cases hk
    · have := hliteral y true hk
      rw [hy rfl] at this
      cases this
    · rw [startsWithDigit, PatternChar.text, if_neg fun hsimple => hverbatim.kind hsimple.1,
        hverbatim.value] at hk
      cases hk
  | _ => cases hk

theorem drop_length_takeWhile (p : Char → Bool) (t : Text) :
    t.drop (t.takeWhile p).length = t.dropWhile p := by
  induction t with
  | nil => rfl
  | cons c t ih =>
    by_cases hc : p c = true
    · rw [List.takeWhile_cons_of_pos hc, List.dropWhile_cons_of_pos hc, List.length_cons,
        List.drop_succ_cons, ih]
    · rw [List.takeWhile_cons_of_neg hc, List.dropWhile_cons_of_neg hc]
      rfl

theorem noDigit_dropWhile (t : Text) : noDigit (t.dropWhile Char.isDigit) := fun d hd => by
  have hnot := List.head?_dropWhile_not Char.isDigit t
  rw [Option.mem_def.1 hd] at hnot
  simpa using hnot

/-- A numeric reference stands outside classes and takes in all digits. -/
theorem noDigit_after_number {x : Char} {t : Text} {n : Nat} {k : TokenKind}
    (h : first b x t = .ok ⟨k, n⟩) (hk : isNumber k = true) : b = false ∧ noDigit (t.drop n) := by
  have hescape : escape b t = .ok ⟨k, n⟩ → b = false ∧ noDigit (t.drop n) := by
    intro h
    rcases escape_eq_ok h with ⟨c, hkind⟩ | ⟨kind, hkind⟩ | ⟨name, hkind⟩ | ⟨hb, hnumber⟩
    · cases hkind
      cases hk
    · cases hkind
      cases hk
    · cases hkind
      cases hk
    · cases hnumber
      rw [drop_length_takeWhile]
      exact ⟨hb, noDigit_dropWhile _⟩
  cases b with
  | true =>
    simp only [first, if_true] at h
    unfold inside at h
    split at h
    · cases h
      cases hk
    · exact hescape h
    · cases h
      cases hk
  | false =>
    simp only [first, Bool.false_eq_true, if_false] at h
    unfold outside at h
    split at h
    case h_1 => exact hescape h
    case h_2 => split at h <;> cases h <;> cases hk
    case h_3 =>
      obtain ⟨how, hkind, -⟩ := groupOpening_eq_ok h
      cases hkind
      cases hk
    case h_9 | h_10 | h_11 =>
      obtain ⟨greedy, hkind⟩ := kind_quantifier _ _ _ _
      rw [Except.ok.inj h] at hkind
      cases hkind
      cases hk
    case h_12 =>
      rcases brace_eq_ok h with hchar | ⟨_, _, _, hkind, -⟩
      · cases hchar
        cases hk
      · cases hkind
        cases hk
    all_goals
      cases h
      cases hk

/-- The first token of a text and the tokens of the rest. -/
theorem lexFrom_eq_ok {offset : Nat} {openClass : Option Nat} {t : Text} {ts : List Token}
    (h : lexFrom offset openClass t = .ok ts) :
    (t = [] ∧ ts = []) ∨ ∃ x cs k n us, t = x :: cs ∧
      first openClass.isSome x cs = .ok ⟨k, n⟩ ∧
      lexFrom (offset + Text.bytes (x :: cs.take n)) (classAfter k offset openClass) (cs.drop n) =
        .ok us ∧ ts = ⟨k, x :: cs.take n, offset⟩ :: us := by
  cases t with
  | nil =>
    cases openClass with
    | none =>
      rw [lexFrom] at h
      cases h
      exact .inl ⟨rfl, rfl⟩
    | some _ =>
      rw [lexFrom] at h
      cases h
  | cons x cs =>
    rw [lexFrom] at h
    split at h
    · cases h
    · rename_i k n hread
      dsimp only at h
      split at h
      · cases h
      · rename_i us hrest
        cases h
        exact .inr ⟨x, cs, k, n, us, rfl, hread, hrest, rfl⟩

theorem produced_of_lexFrom {offset : Nat} {openClass : Option Nat} {t : Text} {ts : List Token}
    (h : lexFrom offset openClass t = .ok ts) : Produced openClass.isSome (ts.map Token.kind) := by
  induction ts generalizing offset openClass t with
  | nil => trivial
  | cons token ts ih =>
    rcases lexFrom_eq_ok h with ⟨-, hnil⟩ | ⟨x, cs, k, n, us, rfl, hfirst, hrest, heq⟩
    · cases hnil
    · cases heq
      have hprod := ih hrest
      rw [isSome_classAfter] at hprod
      refine ⟨⟨x, cs, n, hfirst⟩, fun hk => ?_, hprod⟩
      -- the next token would begin with a digit that the number has not taken in
      obtain ⟨hb, hdigit⟩ := noDigit_after_number hfirst hk
      rcases lexFrom_eq_ok hrest with ⟨-, rfl⟩ | ⟨y, ds, k', m, us', hdrop, hfirst', -, rfl⟩
      · rfl
      · rw [isSome_classAfter, hb] at hfirst'
        have houtside : inClassAfter false k = false := by
          cases k <;> first | rfl | cases hk
        rw [houtside] at hfirst'
        rw [List.map_cons, List.head?_cons, Option.all_some]
        cases hstart : startsWithDigit k' with
        | false => rfl
        | true =>
          have hy := hdigit y (by rw [hdrop]; rfl)
          rw [isDigit_of_startsWithDigit hfirst' hstart] at hy
          cases hy

/-- The tokens of a body are produced outside classes. -/
theorem produced_of_tokenize {body : Text} {ts : List Token} (h : tokenize body = .ok ts) :
    Produced false (ts.map Token.kind) :=
  produced_of_lexFrom h

/-! ### Classes and offsets -/

/-- What stands inside a class or outside: characters in both places, a closing bracket only
inside, any other token only outside. -/
def standsIn (inClass : Bool) : TokenKind → Bool
  | .char _ => true
  | .classClose => inClass
  | _ => !inClass

/-- Inside a class every escape is a character. -/
theorem escape_inClass {t : Text} {l : Lexeme} (h : escape true t = .ok l) :
    ∃ c, l.kind = .char c := by
  cases t with
  | nil => cases h
  | cons x cs =>
    cases escaped_of_eq h with
    | wordBoundary _ houtside | nonWordBoundary _ houtside | number _ houtside
    | name _ houtside => cases houtside
    | _ => exact ⟨_, rfl⟩

theorem standsIn_of_first {x : Char} {t : Text} {n : Nat} {k : TokenKind}
    (h : first b x t = .ok ⟨k, n⟩) : standsIn b k = true := by
  cases b with
  | true =>
    simp only [first, if_true] at h
    unfold inside at h
    split at h
    · cases h
      rfl
    · obtain ⟨c, rfl⟩ := escape_inClass h
      rfl
    · cases h
      rfl
  | false =>
    simp only [first, Bool.false_eq_true, if_false] at h
    unfold outside at h
    split at h
    case h_1 =>
      rcases escape_eq_ok h with ⟨c, rfl⟩ | ⟨kind, rfl⟩ | ⟨name, rfl⟩ | ⟨-, hnumber⟩
      · rfl
      · rfl
      · rfl
      · cases hnumber
        rfl
    case h_2 => split at h <;> cases h <;> rfl
    case h_3 =>
      obtain ⟨how, rfl, -⟩ := groupOpening_eq_ok h
      rfl
    case h_9 | h_10 | h_11 =>
      obtain ⟨greedy, hkind⟩ := kind_quantifier _ _ _ _
      rw [Except.ok.inj h] at hkind
      cases hkind
      rfl
    case h_12 =>
      rcases brace_eq_ok h with hchar | ⟨_, _, _, rfl, -⟩
      · cases hchar
        rfl
      · rfl
    all_goals
      cases h
      rfl

/-- The tokens of a text close every class that they open. -/
theorem inClassAfterAll_of_lexFrom {offset : Nat} {openClass : Option Nat} {t : Text}
    {ts : List Token} (h : lexFrom offset openClass t = .ok ts) :
    inClassAfterAll openClass.isSome (ts.map Token.kind) = false := by
  induction ts generalizing offset openClass t with
  | nil =>
    rcases lexFrom_eq_ok h with ⟨rfl, -⟩ | ⟨_, _, _, _, _, -, -, -, heq⟩
    · cases openClass with
      | none => rfl
      | some _ =>
        rw [lexFrom] at h
        cases h
    · cases heq
  | cons token ts ih =>
    rcases lexFrom_eq_ok h with ⟨-, hnil⟩ | ⟨x, cs, k, n, us, -, -, hrest, heq⟩
    · cases hnil
    · cases heq
      have hclosed := ih hrest
      rwa [isSome_classAfter] at hclosed

/-- Every token begins after the one before it, so an offset belongs to one token only. -/
theorem pairwise_offset_of_lexFrom {offset : Nat} {openClass : Option Nat} {t : Text}
    {ts : List Token} (h : lexFrom offset openClass t = .ok ts) :
    (∀ u ∈ ts, offset ≤ u.offset) ∧ (ts.map Token.offset).Pairwise (· < ·) := by
  induction ts generalizing offset openClass t with
  | nil => exact ⟨List.forall_mem_nil _, List.Pairwise.nil⟩
  | cons token ts ih =>
    rcases lexFrom_eq_ok h with ⟨-, hnil⟩ | ⟨x, cs, k, n, us, -, -, hrest, heq⟩
    · cases hnil
    · cases heq
      obtain ⟨hle, hlt⟩ := ih hrest
      have hbytes : 0 < Text.bytes (x :: cs.take n) :=
        Nat.lt_of_lt_of_le x.utf8Size_pos (Nat.le_add_right _ _)
      refine ⟨fun u hu => ?_, List.pairwise_cons.2 ⟨fun o ho => ?_, hlt⟩⟩
      · rcases List.mem_cons.1 hu with rfl | hu
        · exact Nat.le_refl _
        · exact Nat.le_trans (Nat.le_add_right _ _) (hle u hu)
      · obtain ⟨u, hu, rfl⟩ := List.mem_map.1 ho
        exact Nat.lt_of_lt_of_le (Nat.lt_add_of_pos_right hbytes) (hle u hu)

/-- Every unescaped dash that the lexer makes is the plain character. -/
theorem Produced.plainDashes (h : Produced b ks) :
    ∀ c : PatternChar, .char c ∈ ks → c.isDash = true → c = .simple '-' := by
  induction ks generalizing b with
  | nil =>
    intro c hc
    cases hc
  | cons k ks ih =>
    intro c hc hdash
    obtain ⟨⟨x, t, n, hfirst⟩, -, hrest⟩ := h
    rcases List.mem_cons.1 hc with rfl | hc
    · exact Lexical.dash ⟨x, t, n, hfirst⟩ hdash
    · exact ih hrest c hc hdash

end RegexKit.Token
