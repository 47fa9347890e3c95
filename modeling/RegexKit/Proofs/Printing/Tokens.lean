import RegexKit.Node.Printer
import RegexKit.Proofs.Grammar.WellFormed
import RegexKit.Proofs.Token.Braces

/-! The texts of single tokens. The text printed for a bracket, a condition, a reference or a
quantifier reads as that token when what follows does not run into it: a question mark runs
into an opening parenthesis and a quantifier, a digit into a number. -/

namespace RegexKit.Token

/-- No question mark comes first in the text. -/
def noQuestion (u : Text) : Prop := ∀ d ∈ u.head?, d ≠ '?'

variable {u : Text}

theorem noQuestion.head? (h : noQuestion u) : u.head? ≠ some '?' := fun hu => h '?' hu rfl

theorem noQuestion_cons {c : Char} (hc : c ≠ '?') (t : Text) : noQuestion (c :: t) :=
  fun d hd => by
    obtain rfl : c = d := by simpa using hd
    exact hc

theorem noDigit_cons {c : Char} (hc : c.isDigit = false) (t : Text) : noDigit (c :: t) :=
  fun d hd => by
    obtain rfl : c = d := by simpa using hd
    exact hc

theorem noDigit_nil : noDigit [] := fun _ hd => by cases hd

theorem noQuestion_nil : noQuestion [] := fun _ hd => by cases hd

/-! ### Groups -/

/-- The text that opens a group reads as its token. -/
theorem splits_opening {kind : GroupKind}
    (hname : ∀ number name, kind = .capturing number (some name) → isIdentifier name = true)
    (hu : ∀ number, kind = .capturing number none → noQuestion u) :
    Splits false kind.opening u [.groupOpen kind.opener] false := by
  cases kind with
  | capturing number name =>
    cases name with
    | none => exact .one (groupOpening_capturing (hu number rfl).head?)
    | some name =>
      refine .one (k := .groupOpen (.named name)) (v := '?' :: '<' :: (name ++ ['>'])) ?_
      have hread := groupOpening_named (hname number name rfl) u
      simpa [first, outside] using hread
  | _ => exact .one rfl

theorem splits_closing (u : Text) : Splits false [')'] u [.groupClose] false := .one rfl

theorem splits_bar (u : Text) : Splits false ['|'] u [.bar] false := .one rfl

/-- The text of a condition reads as the condition. -/
theorem splits_assertion (kind : AssertionKind) (u : Text) :
    Splits false kind.text u [.assertion kind] false := by
  cases kind <;> exact .one rfl

/-! ### References -/

/-- A number that is not zero begins with a digit that is not zero. -/
theorem exists_decimal_eq_cons {m : Nat} (hm : 1 ≤ m) :
    ∃ c cs, Numeral.decimal m = c :: cs ∧ '1' ≤ c ∧ c ≤ '9' := by
  induction m using Nat.strongRecOn with
  | ind m ih =>
    rw [Numeral.decimal, Nat.toDigits_eq_if (by decide)]
    split
    · rename_i hlt
      refine ⟨Nat.digitChar m, [], rfl, ?_⟩
      have hall : ∀ d < 10, 1 ≤ d → '1' ≤ Nat.digitChar d ∧ Nat.digitChar d ≤ '9' := by decide
      exact hall m hlt hm
    · obtain ⟨c, cs, hdecimal, hc⟩ := ih (m / 10) (by omega) (by omega)
      rw [Numeral.decimal] at hdecimal
      exact ⟨c, cs ++ [Nat.digitChar (m % 10)], by rw [hdecimal]; rfl, hc⟩

theorem takeWhile_isDigit_decimal {u : Text} (hu : noDigit u) (m : Nat) :
    (Numeral.decimal m ++ u).takeWhile Char.isDigit = Numeral.decimal m := by
  rw [List.takeWhile_append_of_pos fun c hc => Numeral.isDigit_of_mem_decimal hc]
  have hnil : u.takeWhile Char.isDigit = [] := by
    cases u with
    | nil => rfl
    | cons d u => exact List.takeWhile_cons_of_neg (by simp [hu d rfl])
  rw [hnil, List.append_nil]

/-- What a reference may be written with. -/
def writable : RefTarget → Prop
  | .number m => 1 ≤ m ∧ m ≤ Numeral.max64
  | .name t => isIdentifier t = true

/-- The text of a reference reads as the reference when no digit follows a number. -/
theorem splits_reference {target : RefTarget} (h : writable target)
    (hu : ∀ m, target = .number m → noDigit u) :
    Splits false ('\\' :: target.text) u [.backreference target] false := by
  cases target with
  | number m =>
    refine .one (k := .backreference (.number m)) ?_
    rw [first_backslash]
    obtain ⟨c, cs, hdecimal, hone, hnine⟩ := exists_decimal_eq_cons h.1
    have hrun := takeWhile_isDigit_decimal (hu m rfl) m
    have hvalue := Numeral.ofDecimal_decimal m
    simp only [RefTarget.text]
    rw [hdecimal] at hrun hvalue ⊢
    rw [List.cons_append] at hrun ⊢
    rw [escape_number ⟨hone, hnine⟩, hrun, hvalue, Nat.min_eq_left h.2]
  | name t =>
    refine .one (k := .backreference (.name t)) (v := 'k' :: '<' :: (t ++ ['>'])) ?_
    rw [first_backslash]
    have happend : 'k' :: '<' :: (t ++ ['>']) ++ u = 'k' :: '<' :: (t ++ '>' :: u) := by simp
    rw [happend]
    simp [escape, readName_append h]

/-! ### Quantifiers -/

/-- The text of a quantifier reads as the quantifier. -/
theorem splits_quantifier {min : Nat} {max : Option Nat} (greedy : Bool)
    (hmin : min ≤ Numeral.max32) (hmax : max.all (· ≤ Numeral.max32) = true) (hu : noQuestion u) :
    Splits false (Node.quantifierText min max greedy) u [.quantifier min max greedy] false := by
  have hgreedy : greedy = true → u.head? ≠ some '?' := fun _ => hu.head?
  have hsymbol : ∀ x, (∀ t, outside x t = .ok (quantifier min max 0 t)) →
      Splits false (x :: if greedy then [] else ['?']) u [.quantifier min max greedy] false := by
    intro x hx
    refine .one (k := .quantifier min max greedy) ?_
    change outside x _ = _
    rw [hx, quantifier_append min max greedy 0 hgreedy, Nat.zero_add]
  rw [Node.quantifierText]
  unfold Node.boundsText
  split
  · exact hsymbol '*' fun _ => rfl
  · exact hsymbol '+' fun _ => rfl
  · exact hsymbol '?' fun _ => rfl
  · exact splits_braces greedy (.atLeast (isDigits_decimal min)) (Numeral.ofDecimal_decimal min)
      rfl ⟨hmin, hmax⟩ hgreedy
  · rename_i max _
    have hhigh : (some (Numeral.decimal max)).map Numeral.ofDecimal = some max := by
      rw [Option.map_some, Numeral.ofDecimal_decimal]
    split
    · rename_i heq
      subst heq
      exact splits_braces greedy (.exactly (isDigits_decimal min)) (Numeral.ofDecimal_decimal min)
        hhigh ⟨hmin, hmax⟩ hgreedy
    · have hsplits := splits_braces greedy
        (.between (isDigits_decimal min) (isDigits_decimal max)) (Numeral.ofDecimal_decimal min)
        hhigh ⟨hmin, hmax⟩ hgreedy
      simpa using hsplits

/-! ### Classes -/

/-- The text that opens a class reads as its token, unless a caret would negate it. -/
theorem splits_bracket {negated : Bool} (hu : negated = false → u.head? ≠ some '^') :
    Splits false (if negated then ['[', '^'] else ['[']) u [.classOpen negated] true := by
  cases negated with
  | true => exact .one (k := .classOpen true) rfl
  | false =>
    refine .one (k := .classOpen false) ?_
    exact if_neg (hu rfl)

theorem splits_closingBracket (u : Text) : Splits true [']'] u [.classClose] false := .one rfl

theorem splits_dash (u : Text) : Splits true ['-'] u [.char (.simple '-')] true := .one rfl

end RegexKit.Token
