import RegexKit.Proofs.Grammar.WellFormed

/-! How the members of a class are read. `readMembers` looks at a character and the two after
it; the open class of the reader keeps what it cannot decide yet as pending. The two come to
the same members, and these are exactly the lists that read as written. -/

namespace RegexKit

namespace Parser

/-! ### Reading by looking ahead -/

/-- The character `c` begins a range when an unescaped dash and a further character come next
and both ends have code points. -/
def beginsRange (c : PatternChar) : List PatternChar → Bool
  | d :: e :: _ => c.codePoint?.isSome && (d.isDash && e.codePoint?.isSome)
  | _ => false

/-- The members that characters between brackets are read as; none when a range is out of
order. -/
def readMembers : List PatternChar → Option (List Node)
  | c :: d :: e :: cs =>
    if beginsRange c (d :: e :: cs) then
      if c.codePoint?.getD 0 ≤ e.codePoint?.getD 0 then
        (readMembers cs).map (.classRange c e :: ·)
      else none
    else (readMembers (d :: e :: cs)).map (.char c :: ·)
  | cs => some (cs.map .char)

@[simp] theorem readMembers_nil : readMembers [] = some [] := by simp [readMembers]

/-- A character that begins no range is a member of its own. -/
theorem readMembers_cons {c : PatternChar} {cs : List PatternChar}
    (h : beginsRange c cs = false) :
    readMembers (c :: cs) = (readMembers cs).map (.char c :: ·) := by
  match cs with
  | [] => simp [readMembers]
  | [d] => simp [readMembers]
  | d :: e :: cs => rw [readMembers, if_neg (by simp [h])]

theorem readMembers_range {c d e : PatternChar} {x y : Nat} (hc : c.codePoint? = some x)
    (hd : d.isDash = true) (he : e.codePoint? = some y) (cs : List PatternChar) :
    readMembers (c :: d :: e :: cs) =
      if x ≤ y then (readMembers cs).map (.classRange c e :: ·) else none := by
  rw [readMembers, if_pos (by simp [beginsRange, hc, hd, he])]
  simp [hc, he]

/-! ### The members read are those that read as written -/

/-- Members that read as written are read so from their tokens. -/
theorem readMembers_of_classReads {ms : List Node} {cs : List PatternChar}
    (hms : Node.classReads ms = true) (hcs : Node.yieldList ms = cs.map .char) :
    readMembers cs = some ms := by
  induction ms generalizing cs with
  | nil =>
    obtain rfl : cs = [] := by simpa [Node.yieldList] using hcs.symm
    exact readMembers_nil
  | cons m ms ih =>
    cases m with
    | char c =>
      simp only [Node.classReads, Bool.and_eq_true, Bool.not_eq_true'] at hms
      obtain ⟨hfollow, hms⟩ := hms
      cases cs with
      | nil => simp [Node.yieldList, Node.yield] at hcs
      | cons c' cs =>
        simp only [Node.yieldList, Node.yield, List.cons_append, List.nil_append, List.map_cons,
          List.cons.injEq, TokenKind.char.injEq] at hcs
        obtain ⟨rfl, hcs⟩ := hcs
        have hbegin : beginsRange c cs = false := by
          rw [hcs] at hfollow
          rcases cs with _ | ⟨d, _ | ⟨e, cs⟩⟩
          · rfl
          · rfl
          · simpa [Node.dashThenPoint, beginsRange] using hfollow
        rw [readMembers_cons hbegin, ih hms hcs, Option.map_some]
    | classRange low high =>
      simp only [Node.classReads, Bool.and_eq_true] at hms
      obtain ⟨hord, hms⟩ := hms
      rcases cs with _ | ⟨c, _ | ⟨d, _ | ⟨e, cs⟩⟩⟩ <;>
        simp only [Node.yieldList, Node.yield, Node.dash, List.cons_append, List.nil_append,
          List.map_cons, List.map_nil, List.cons.injEq, TokenKind.char.injEq, reduceCtorEq,
          and_false] at hcs
      obtain ⟨rfl, rfl, rfl, hcs⟩ := hcs
      split at hord
      · rename_i x y hx hy
        rw [readMembers_range hx rfl hy, if_pos (by simpa using hord), ih hms hcs,
          Option.map_some]
      · cases hord
    | _ => simp [Node.classReads] at hms

/-- The members read read as written, and yield the characters they were read from. -/
theorem classReads_of_readMembers {cs : List PatternChar} {ms : List Node}
    (hdash : ∀ c ∈ cs, c.isDash = true → c = .simple '-') (h : readMembers cs = some ms) :
    Node.classReads ms = true ∧ Node.yieldList ms = cs.map .char := by
  have hcons : ∀ {c : PatternChar} {cs : List PatternChar} {ms : List Node},
      beginsRange c cs = false → Node.classReads ms = true → Node.yieldList ms = cs.map .char →
      Node.classReads (.char c :: ms) = true ∧
        Node.yieldList (.char c :: ms) = (c :: cs).map .char := by
    intro c cs ms hbegin hms hcs
    refine ⟨?_, by simp [Node.yieldList, Node.yield, hcs]⟩
    simp only [Node.classReads, hms, hcs, Bool.and_true, Bool.not_eq_true']
    rcases cs with _ | ⟨d, _ | ⟨e, cs⟩⟩
    · simp [Node.dashThenPoint]
    · simp [Node.dashThenPoint]
    · simpa [Node.dashThenPoint, beginsRange] using hbegin
  fun_induction readMembers cs generalizing ms with
  | case1 c d e cs hbegin hle ih =>
    obtain ⟨ms, hms, rfl⟩ := Option.map_eq_some_iff.1 h
    obtain ⟨hreads, hyield⟩ := ih (fun k hk => hdash k (by simp [hk])) hms
    simp only [beginsRange, Bool.and_eq_true] at hbegin
    obtain ⟨hc, hd, he⟩ := hbegin
    obtain ⟨x, hx⟩ := Option.isSome_iff_exists.1 hc
    obtain ⟨y, hy⟩ := Option.isSome_iff_exists.1 he
    obtain rfl := hdash d (by simp) hd
    simp only [hx, hy, Option.getD_some] at hle
    refine ⟨by simp [Node.classReads, hx, hy, hle, hreads], ?_⟩
    simp [Node.yieldList, Node.yield, Node.dash, hyield]
  | case2 => cases h
  | case3 c d e cs hbegin ih =>
    obtain ⟨ms, hms, rfl⟩ := Option.map_eq_some_iff.1 h
    obtain ⟨hreads, hyield⟩ := ih (fun k hk => hdash k (List.mem_cons_of_mem _ hk)) hms
    exact hcons (by simpa using hbegin) hreads hyield
  | case4 cs hshort =>
    cases h
    rcases cs with _ | ⟨c, _ | ⟨d, _ | ⟨e, cs⟩⟩⟩
    · exact ⟨rfl, rfl⟩
    · exact @hcons c [] [] rfl rfl rfl
    · have hd := @hcons d [] [] rfl rfl rfl
      exact hcons rfl hd.1 hd.2
    · exact absurd rfl (hshort c d e cs)

/-! ### The open class -/

/-- The characters that are not yet members. -/
def Pending.chars : Pending → List PatternChar
  | nothing => []
  | first c _ => [c]
  | dashed c _ d _ => [c, d]

/-- A pending dash is a dash. -/
def Pending.isSound : Pending → Bool
  | dashed _ _ d _ => d.isDash
  | _ => true

/-- The members that the class has in the end when the characters `rest` are still to come. -/
def OpenClass.reading (k : OpenClass) (rest : List PatternChar) : Option (List Node) :=
  (readMembers (k.pending.chars ++ rest)).map (k.members.reverse ++ ·)

/-- The second class is the first one after the character `c`. -/
structure OpenClass.Takes (k : OpenClass) (c : PatternChar) (k' : OpenClass) : Prop where
  negated : k'.negated = k.negated
  offset : k'.offset = k.offset
  sound : k'.pending.isSound = true
  reading (rest : List PatternChar) : k'.reading rest = k.reading (c :: rest)

/-- Taking a character after a pending one decides nothing that looking ahead would not. -/
theorem OpenClass.reading_follow (k : OpenClass) (first : PatternChar) (firstOffset : Nat)
    (c : PatternChar) (offset : Nat) (rest : List PatternChar) :
    (k.follow first firstOffset c offset).reading rest =
      (readMembers (first :: c :: rest)).map (k.members.reverse ++ ·) := by
  unfold OpenClass.follow
  split
  · rfl
  · rename_i hdash
    have hbegin : beginsRange first (c :: rest) = false := by
      cases rest <;> simp [beginsRange, hdash]
    rw [readMembers_cons hbegin, OpenClass.reading, Option.map_map]
    congr 1
    funext ms
    simp [OpenClass.begin]

theorem OpenClass.isSound_follow (k : OpenClass) (first : PatternChar) (firstOffset : Nat)
    (c : PatternChar) (offset : Nat) :
    (k.follow first firstOffset c offset).pending.isSound = true := by
  unfold OpenClass.follow
  split
  · assumption
  · rfl

theorem OpenClass.negated_follow (k : OpenClass) (first : PatternChar) (firstOffset : Nat)
    (c : PatternChar) (offset : Nat) :
    (k.follow first firstOffset c offset).negated = k.negated ∧
      (k.follow first firstOffset c offset).offset = k.offset := by
  unfold OpenClass.follow
  split <;> exact ⟨rfl, rfl⟩

/-- A character taken after a member that is decided. -/
theorem OpenClass.takes_follow {k m : OpenClass} {first c : PatternChar}
    (firstOffset offset : Nat) (hneg : m.negated = k.negated) (hoff : m.offset = k.offset)
    (h : ∀ rest, k.reading (c :: rest) =
      (readMembers (first :: c :: rest)).map (m.members.reverse ++ ·)) :
    k.Takes c (m.follow first firstOffset c offset) where
  negated := (m.negated_follow first firstOffset c offset).1.trans hneg
  offset := (m.negated_follow first firstOffset c offset).2.trans hoff
  sound := m.isSound_follow first firstOffset c offset
  reading rest := (m.reading_follow first firstOffset c offset rest).trans (h rest).symm

/-- A character is taken as looking ahead reads it, and refused when looking ahead reads
nothing. -/
theorem OpenClass.add_spec {k : OpenClass} (hk : k.pending.isSound = true) (c : PatternChar)
    (offset : Nat) :
    (∃ k', k.add c offset = .ok k' ∧ k.Takes c k') ∨
      (∃ e, k.add c offset = .error e) ∧ ∀ rest, k.reading (c :: rest) = none := by
  unfold OpenClass.add
  cases hp : k.pending with
  | nothing =>
    exact .inl ⟨_, rfl, rfl, rfl, rfl, fun rest => by
      simp [OpenClass.reading, OpenClass.begin, hp, Pending.chars]⟩
  | first low lowOffset =>
    exact .inl ⟨_, rfl, OpenClass.takes_follow lowOffset offset rfl rfl fun rest => by
      rw [OpenClass.reading, hp]
      rfl⟩
  | dashed low lowOffset dash dashOffset =>
    have hdash : dash.isDash = true := by simpa [hp, Pending.isSound] using hk
    have hreading : ∀ rest, k.reading (c :: rest) =
        (readMembers (low :: dash :: c :: rest)).map (k.members.reverse ++ ·) := fun rest => by
      rw [OpenClass.reading, hp]
      rfl
    -- without a code point at either end the first character is a member and the dash may begin one
    have hmember : (∀ rest, beginsRange low (dash :: c :: rest) = false) → k.Takes c
        (({ k with members := .char low :: k.members } : OpenClass).follow dash dashOffset c
          offset) :=
      fun hbegin => OpenClass.takes_follow dashOffset offset rfl rfl fun rest => by
        rw [hreading, readMembers_cons (hbegin rest)]
        simp [Option.map_map, Function.comp_def]
    cases hlow : low.codePoint? with
    | none =>
      simp only [hlow]
      exact .inl ⟨_, rfl, hp ▸ hmember fun _ => by simp [beginsRange, hlow]⟩
    | some x =>
      cases hc : c.codePoint? with
      | none =>
        simp only [hlow]
        exact .inl ⟨_, rfl, hp ▸ hmember fun _ => by simp [beginsRange, hc]⟩
      | some y =>
        simp only [hlow]
        by_cases hle : x ≤ y
        · simp only [hle, if_true]
          refine .inl ⟨_, rfl, rfl, rfl, rfl, fun rest => ?_⟩
          rw [hreading, readMembers_range hlow hdash hc, if_pos hle, OpenClass.reading]
          simp [Pending.chars, Option.map_map, Function.comp_def]
        · simp only [hle, if_false]
          refine .inr ⟨⟨_, rfl⟩, fun rest => ?_⟩
          rw [hreading, readMembers_range hlow hdash hc, if_neg hle, Option.map_none]

/-- The class that closes has the members read when nothing more comes. -/
theorem OpenClass.close_eq {k : OpenClass} {ms : List Node} (h : k.reading [] = some ms) :
    k.close = .charClass k.negated ms := by
  unfold OpenClass.reading at h
  unfold OpenClass.close
  cases hp : k.pending <;> simp [hp, Pending.chars, readMembers] at h <;> simp [← h]

/-- Some members are always read when nothing more comes. -/
theorem OpenClass.exists_reading_nil (k : OpenClass) : ∃ ms, k.reading [] = some ms := by
  unfold OpenClass.reading
  cases k.pending <;> simp [Pending.chars, readMembers]

end Parser

end RegexKit
