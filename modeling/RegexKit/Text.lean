/-! Pattern text. A text is the list of its characters; places in it are counted in
bytes of its UTF-8 form, so `bytes` measures a text and `dropBytes?` cuts one at a byte
offset. A text is split at the first or at the last occurrence of a mark. -/

namespace RegexKit

/-- Text as the list of its characters. -/
abbrev Text := List Char

namespace Text

/-- The text of a string. -/
def ofString (s : String) : Text := s.toList

/-- The string of a text. -/
def toString (t : Text) : String := String.ofList t

/-! ### Byte measure -/

/-- The length of the UTF-8 form. -/
def bytes : Text → Nat
  | [] => 0
  | c :: cs => c.utf8Size + bytes cs

@[simp] theorem bytes_nil : bytes [] = 0 := rfl

@[simp] theorem bytes_cons (c : Char) (cs : Text) :
    bytes (c :: cs) = c.utf8Size + bytes cs := rfl

theorem bytes_append (s t : Text) : bytes (s ++ t) = bytes s + bytes t := by
  induction s with
  | nil => simp
  | cons c cs ih => simp [ih, Nat.add_assoc]

/-- The text after the first `n` bytes; `none` when the text is shorter than that or
byte `n` lies inside a character. -/
def dropBytes? : Nat → Text → Option Text
  | 0, cs => some cs
  | _ + 1, [] => none
  | n + 1, c :: cs => if c.utf8Size ≤ n + 1 then dropBytes? (n + 1 - c.utf8Size) cs else none

@[simp] theorem dropBytes?_zero (cs : Text) : dropBytes? 0 cs = some cs := by
  cases cs <;> rfl

theorem dropBytes?_bytes_append (s t : Text) : dropBytes? (bytes s) (s ++ t) = some t := by
  induction s with
  | nil => simp
  | cons c cs ih =>
    have h : 0 < c.utf8Size := c.utf8Size_pos
    obtain ⟨n, hn⟩ : ∃ n, c.utf8Size + bytes cs = n + 1 := ⟨c.utf8Size + bytes cs - 1, by omega⟩
    have hle : c.utf8Size ≤ n + 1 := by omega
    have hsub : n + 1 - c.utf8Size = bytes cs := by omega
    simp only [bytes_cons, List.cons_append, hn, dropBytes?, hle, if_true, hsub, ih]

/-! ### Marks -/

/-- The text before and after the first `mark`; `none` when there is none. -/
def splitAtFirst? (mark : Char) : Text → Option (Text × Text)
  | [] => none
  | c :: cs =>
    if c = mark then some ([], cs)
    else (splitAtFirst? mark cs).map fun p => (c :: p.1, p.2)

/-- The text before and after the last `mark`; `none` when there is none. -/
def splitAtLast? (mark : Char) : Text → Option (Text × Text)
  | [] => none
  | c :: cs =>
    match splitAtLast? mark cs with
    | some (before, after) => some (c :: before, after)
    | none => if c = mark then some ([], cs) else none

theorem splitAtFirst?_eq_some {mark : Char} {t before after : Text}
    (h : splitAtFirst? mark t = some (before, after)) :
    t = before ++ mark :: after ∧ mark ∉ before := by
  induction t generalizing before with
  | nil => simp [splitAtFirst?] at h
  | cons c cs ih =>
    by_cases hc : c = mark
    · simp [splitAtFirst?, hc] at h
      simp [h.1, h.2, hc]
    · simp only [splitAtFirst?, hc, if_false, Option.map_eq_some_iff, Prod.mk.injEq] at h
      obtain ⟨⟨b, a⟩, hs, rfl, rfl⟩ := h
      obtain ⟨rfl, hb⟩ := ih hs
      simp [hb, Ne.symm hc]

end Text

end RegexKit
