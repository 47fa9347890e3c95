import RegexKit.Token.Lexer

/-! Splitting a text token by token. `Splits` says what a text splits into when another text
follows it. Splits of adjacent texts join, and a body that splits outside classes from end to
end has the tokens of its split. -/

namespace RegexKit.Token

/-- The token that begins with `c`, inside a class or outside. -/
def first (inClass : Bool) (c : Char) (t : Text) : Except LexCause Lexeme :=
  if inClass then inside c t else outside c t

/-- Whether a class is open after a token. -/
def inClassAfter (inClass : Bool) : TokenKind → Bool
  | .classOpen _ => true
  | .classClose => false
  | _ => inClass

theorem isSome_classAfter (k : TokenKind) (offset : Nat) (openClass : Option Nat) :
    (classAfter k offset openClass).isSome = inClassAfter openClass.isSome k := by
  cases k <;> rfl

/-- When the text `u` follows, the text `t` splits into the tokens `ks`; the flags say whether
a class is open before and after it. -/
inductive Splits : Bool → Text → Text → List TokenKind → Bool → Prop
  | nil (b : Bool) (u : Text) : Splits b [] u [] b
  | cons {b b' : Bool} {c : Char} {v t u : Text} {k : TokenKind} {ks : List TokenKind}
      (hfirst : first b c (v ++ (t ++ u)) = .ok ⟨k, v.length⟩)
      (hrest : Splits (inClassAfter b k) t u ks b') : Splits b (c :: (v ++ t)) u (k :: ks) b'

variable {b b' b'' : Bool} {c : Char} {v t t' u : Text} {k : TokenKind} {ks ks' : List TokenKind}

/-- A text that is one token. -/
theorem Splits.one (h : first b c (v ++ u) = .ok ⟨k, v.length⟩) :
    Splits b (c :: v) u [k] (inClassAfter b k) := by
  have hcons := Splits.cons (t := []) (by simpa using h) (.nil _ u)
  rwa [List.append_nil] at hcons

/-- A text that splits into one token is that token. -/
theorem Splits.first_of_one (h : Splits b (c :: v) u [k] b') :
    first b c (v ++ u) = .ok ⟨k, v.length⟩ := by
  cases h with
  | cons hfirst hrest =>
    cases hrest
    rwa [List.append_nil]

/-- Splits of adjacent texts join. -/
theorem Splits.append (h : Splits b t (t' ++ u) ks b') (h' : Splits b' t' u ks' b'') :
    Splits b (t ++ t') u (ks ++ ks') b'' := by
  generalize hw : t' ++ u = w at h
  induction h with
  | nil => exact h'
  | cons hfirst _ ih =>
    subst hw
    rw [List.cons_append, List.append_assoc, List.cons_append]
    refine .cons ?_ (ih h' rfl)
    rw [List.append_assoc]
    exact hfirst

/-- What comes of a text is what comes of the rest, after its first token. -/
theorem lexFrom_step {offset : Nat} {openClass : Option Nat}
    (hfirst : first openClass.isSome c (v ++ t) = .ok ⟨k, v.length⟩) :
    lexFrom offset openClass (c :: (v ++ t)) =
      (lexFrom (offset + Text.bytes (c :: v)) (classAfter k offset openClass) t).map
        (⟨k, c :: v, offset⟩ :: ·) := by
  have hread : (if openClass.isSome then inside c (v ++ t) else outside c (v ++ t)) =
      .ok ⟨k, v.length⟩ := hfirst
  rw [lexFrom, hread]
  simp only [List.take_left, List.drop_left]
  cases lexFrom (offset + Text.bytes (c :: v)) (classAfter k offset openClass) t <;> rfl

/-- A text is its first token and the tokens of the rest. -/
theorem lexFrom_cons {offset : Nat} {openClass : Option Nat} {ts : List Token}
    (hfirst : first openClass.isSome c (v ++ t) = .ok ⟨k, v.length⟩)
    (hrest : lexFrom (offset + Text.bytes (c :: v)) (classAfter k offset openClass) t = .ok ts) :
    lexFrom offset openClass (c :: (v ++ t)) = .ok (⟨k, c :: v, offset⟩ :: ts) := by
  rw [lexFrom_step hfirst, hrest]
  rfl

theorem Splits.lexFrom (h : Splits b t u ks b') (hu : u = []) (hb' : b' = false) (offset : Nat)
    (openClass : Option Nat) (hopen : openClass.isSome = b) :
    ∃ ts, lexFrom offset openClass t = .ok ts ∧ ts.map Token.kind = ks := by
  induction h generalizing offset openClass with
  | nil =>
    cases openClass with
    | none => exact ⟨[], by rw [Token.lexFrom], rfl⟩
    | some _ =>
      subst hb'
      cases hopen
  | @cons b b' c v t u k ks hfirst _ ih =>
    subst hu
    rw [List.append_nil] at hfirst
    obtain ⟨ts, hlex, hkinds⟩ := ih rfl hb' (offset + Text.bytes (c :: v))
      (classAfter k offset openClass) (by rw [isSome_classAfter, hopen])
    exact ⟨⟨k, c :: v, offset⟩ :: ts, lexFrom_cons (by rwa [hopen]) hlex,
      by rw [List.map_cons, hkinds]⟩

/-- A body that splits has the tokens of its split. -/
theorem tokenize_of_splits (h : Splits false t [] ks false) :
    ∃ ts, tokenize t = .ok ts ∧ ts.map Token.kind = ks :=
  h.lexFrom rfl rfl 0 none rfl

end RegexKit.Token
