import RegexKit.Proofs.Printing.Members

/-! How printed texts begin. The text of a sequence is that of its parts one after the other, in
parentheses where they need them, and the text of a choice that of its branches between bars. Only
sequences and choices of nothing print nothing, and no text begins with a question mark. -/

namespace RegexKit.Node

open RegexKit.Token

/-! ### The text of a sequence -/

@[simp] theorem text_alternative_nil : (alternative []).text = [] := rfl

/-- The text of a sequence is that of its first part, in parentheses where it needs them, and
that of the rest. -/
theorem text_alternative_cons (e : Node) (es : List Node) :
    (alternative (e :: es)).text =
      (if isWrapped e es then wrap e.text else e.text) ++ (alternative es).text := by
  have hjoin : (alternative (e :: es)).text =
      (if e.endsOpen && digitFollows es then wrap (piece e e.text).text
        else (piece e e.text).text) ++ (alternative es).text := rfl
  rw [hjoin]
  cases hc : e.isChoice with
  | true =>
    have hopen : e.endsOpen = false := by
      cases e <;> first | rfl | cases hc
    simp [isWrapped, piece, hc, hopen]
  | false => simp [isWrapped, piece, hc]

theorem digitFollows_cons (e : Node) (es : List Node) :
    digitFollows (e :: es) =
      if (piece e e.text).text = [] then digitFollows es
      else (piece e e.text).text.head?.any Char.isDigit := by
  have hfirst : digitFollows (e :: es) =
      startWithDigit
        ((piece e e.text).text :: (List.zipWith piece es (texts es)).map Piece.text) := rfl
  rw [hfirst, startWithDigit, List.findSome?_cons]
  cases (piece e e.text).text with
  | nil => simp [digitFollows, startWithDigit]
  | cons c t => simp

/-! ### What prints nothing -/

theorem allPrintNothing_iff {es : List Node} :
    allPrintNothing es = true ↔ ∀ e ∈ es, e.printsNothing = true := by
  induction es with
  | nil => simp [allPrintNothing]
  | cons e es ih => simp [allPrintNothing, ih]

/-- A node that prints nothing has no text, and nothing in it takes in a digit. -/
theorem text_of_printsNothing {n : Node} (h : n.printsNothing = true) :
    n.text = [] ∧ n.endsOpen = false := by
  induction n with
  | alternative es ih =>
    rw [printsNothing, allPrintNothing_iff] at h
    have hlist : (alternative es).text = [] ∧ lastEndsOpen es = false := by
      induction es with
      | nil => exact ⟨rfl, rfl⟩
      | cons e es ihes =>
        obtain ⟨htext, hopen⟩ := ih e List.mem_cons_self (h e List.mem_cons_self)
        obtain ⟨htexts, hopens⟩ := ihes (fun k hk => ih k (List.mem_cons_of_mem _ hk))
          fun k hk => h k (List.mem_cons_of_mem _ hk)
        have hchoice : e.isChoice = false := by
          have := h e List.mem_cons_self
          cases e <;> first | rfl | cases this
        rw [text_alternative_cons, lastEndsOpen, htexts, htext]
        simp [isWrapped, hchoice, hopen, hopens]
    exact hlist
  | _ => cases h

/-- What follows a sequence follows its last part that prints anything. -/
theorem lastEndsOpen_of_allPrintNothing {es : List Node} (h : allPrintNothing es = true) :
    lastEndsOpen es = false :=
  (text_of_printsNothing (n := alternative es) h).2

/-! ### How a text begins -/

theorem text_isAtom_ne_nil {n : Node} (hn : n.Worded) (hatom : n.isAtom = true) :
    ∃ c t, n.text = c :: t ∧ c ≠ '?' := by
  cases n with
  | char c =>
    obtain ⟨x, v, htext, hx, -⟩ := exists_text_eq_cons hn
    exact ⟨x, v, htext, hx rfl⟩
  | charClass negated ms => cases negated <;> exact ⟨'[', _, rfl, by decide⟩
  | group kind e =>
    cases kind with
    | capturing number name => cases name <;> exact ⟨'(', _, rfl, by decide⟩
    | _ => exact ⟨'(', _, rfl, by decide⟩
  | backreference target number => exact ⟨'\\', _, rfl, by decide⟩
  | _ => cases hatom

/-- A node that prints something has a text that begins with no question mark; only a choice may
have an empty text all the same. -/
theorem exists_text_eq_cons_of_worded {n : Node} (hn : n.Worded) (h : n.printsNothing = false)
    (hchoice : n.isChoice = false) : ∃ c t, n.text = c :: t ∧ c ≠ '?' := by
  induction n with
  | alternative es ih =>
    rw [Worded, wordedAll_iff] at hn
    rw [printsNothing] at h
    induction es with
    | nil => cases h
    | cons e es ihes =>
      rw [text_alternative_cons]
      split
      · exact ⟨'(', _, rfl, by decide⟩
      · rename_i hwrap
        have hec : e.isChoice = false := by
          cases hc : e.isChoice with
          | false => rfl
          | true => simp [isWrapped, hc] at hwrap
        cases he : e.printsNothing with
        | true =>
          rw [allPrintNothing, he, Bool.true_and] at h
          rw [(text_of_printsNothing he).1, List.nil_append]
          exact ihes (fun k hk => ih k (List.mem_cons_of_mem _ hk))
            (fun k hk => hn k (List.mem_cons_of_mem _ hk)) h rfl
        | false =>
          obtain ⟨c, t, htext, hc⟩ := ih e List.mem_cons_self (hn e List.mem_cons_self) he hec
          exact ⟨c, t ++ (alternative es).text, by rw [htext]; rfl, hc⟩
  | disjunction _ _ => cases hchoice
  | assertion kind => cases kind <;> exact ⟨_, _, rfl, by decide⟩
  | repetition e min max greedy ih =>
    have htext : (repetition e min max greedy).text =
        (if e.isAtom then e.text else wrap e.text) ++ quantifierText min max greedy := rfl
    rw [htext]
    split
    · rename_i hatom
      obtain ⟨c, t, he, hc⟩ := text_isAtom_ne_nil hn.1 hatom
      exact ⟨c, _, by rw [he]; rfl, hc⟩
    · exact ⟨'(', _, rfl, by decide⟩
  | regExp _ _ _ | classRange _ _ => cases hn
  | group _ _ _ | backreference _ _ | char _ | charClass _ _ _ => exact text_isAtom_ne_nil hn rfl

variable {u : Text}

theorem noQuestion_append_of_cons {t : Text} (h : ∃ c s, t = c :: s ∧ c ≠ '?') :
    noQuestion (t ++ u) := by
  obtain ⟨c, s, rfl, hc⟩ := h
  exact noQuestion_cons hc _

/-- The text of a choice is that of its first branch, followed by a bar and the text of the rest
when there is one. -/
theorem text_disjunction_cons (b : Node) (bs : List Node) :
    (disjunction (b :: bs)).text =
      b.text ++ if bs = [] then [] else '|' :: (disjunction bs).text := by
  cases bs with
  | nil => simp [text, texts]
  | cons c cs => simp [text, texts, List.intercalate_cons_cons]

/-- No text begins with a question mark that the text after it does not begin with. -/
theorem noQuestion_text_append {n : Node} (hn : n.Worded) (hu : noQuestion u) :
    noQuestion (n.text ++ u) := by
  cases hnothing : n.printsNothing with
  | true =>
    rw [(text_of_printsNothing hnothing).1]
    exact hu
  | false =>
    cases hchoice : n.isChoice with
    | false => exact noQuestion_append_of_cons (exists_text_eq_cons_of_worded hn hnothing hchoice)
    | true =>
      induction n generalizing u with
      | disjunction bs ih =>
        cases bs with
        | nil => exact absurd rfl hn.1
        | cons b bs =>
          have hb : b.Worded := wordedAll_iff.1 hn.2 b List.mem_cons_self
          have hrest :
              noQuestion ((if bs = [] then [] else '|' :: (disjunction bs).text) ++ u) := by
            split
            · exact hu
            · exact noQuestion_cons (by decide) _
          rw [text_disjunction_cons, List.append_assoc]
          cases hbnothing : b.printsNothing with
          | true =>
            rw [(text_of_printsNothing hbnothing).1]
            exact hrest
          | false =>
            cases hbchoice : b.isChoice with
            | false =>
              exact noQuestion_append_of_cons (exists_text_eq_cons_of_worded hb hbnothing hbchoice)
            | true => exact ih b List.mem_cons_self hb hrest hbnothing hbchoice
      | _ => cases hchoice

/-- A sequence after which no digit is to follow has a text that begins with none. -/
theorem noDigit_text_append {es : List Node} (hes : WordedAll es) (h : digitFollows es = false)
    (hu : allPrintNothing es = true → noDigit u) : noDigit ((alternative es).text ++ u) := by
  induction es with
  | nil => exact hu rfl
  | cons e es ih =>
    obtain ⟨he, hes⟩ := hes
    rw [digitFollows_cons] at h
    rw [text_alternative_cons, List.append_assoc]
    split at h
    · rename_i hpiece
      have hchoice : e.isChoice = false := by
        cases hc : e.isChoice with
        | false => rfl
        | true => simp [piece, hc, wrap] at hpiece
      have hnothing : e.printsNothing = true := by
        cases hp : e.printsNothing with
        | true => rfl
        | false =>
          obtain ⟨c, t, htext, -⟩ := exists_text_eq_cons_of_worded he hp hchoice
          simp [piece, hchoice, htext] at hpiece
      obtain ⟨htext, hopen⟩ := text_of_printsNothing hnothing
      rw [isWrapped, hchoice, hopen, Bool.false_and, Bool.or_false, if_neg Bool.false_ne_true,
        htext]
      exact ih hes h fun hall => hu (by rw [allPrintNothing, hnothing, hall]; rfl)
    · rename_i hpiece
      split
      · exact noDigit_cons (by decide) _
      · rename_i hwrap
        have hchoice : e.isChoice = false := by
          cases hc : e.isChoice with
          | false => rfl
          | true => simp [isWrapped, hc] at hwrap
        have hplain : (piece e e.text).text = e.text := by simp [piece, hchoice]
        rw [hplain] at h hpiece
        obtain ⟨c, t, htext⟩ := List.exists_cons_of_ne_nil hpiece
        rw [htext] at h ⊢
        exact noDigit_cons (by simpa using h) _

end RegexKit.Node
