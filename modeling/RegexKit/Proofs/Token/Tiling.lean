import RegexKit.Proofs.Token.Braces
import RegexKit.Proofs.Token.Produced
import Mathlib.Data.List.Infix

/-! Tokens tile a body. A reader looks past the end of its token only to see that the token ends
there, so it reads the same token when the text breaks off anywhere behind it. A body cut between
two tokens outside classes therefore splits into the same tokens on both sides of the cut, and only
the offsets on the right count from the cut. -/

namespace RegexKit.Token

variable {t u v w : Text} {l : Lexeme}

/-! ### Readers -/

/-- A reader takes a part of the text, and the same part when the rest breaks off earlier; `d`
characters of the token were taken before. -/
def Takes (d : Nat) (read : Text → Except LexCause Lexeme) : Prop :=
  ∀ t l, read t = .ok l → ∃ w u, t = w ++ u ∧ l.extra = w.length + d ∧
    ∀ v, v <+: u → read (w ++ v) = .ok l

theorem takes_ok (l : Lexeme) : Takes l.extra fun _ => .ok l := by
  intro t m h
  cases h
  exact ⟨[], t, rfl, (Nat.zero_add _).symm, fun _ _ => rfl⟩

/-- A reader that chooses by the characters taken before. -/
theorem Takes.ite {d : Nat} {P : Prop} [Decidable P] {f g : Text → Except LexCause Lexeme}
    (hf : P → Takes d f) (hg : Takes d g) : Takes d fun t => if P then f t else g t := by
  by_cases hP : P
  · simpa only [hP, if_true] using hf hP
  · simpa only [hP, if_false] using hg

/-! ### Runs -/

/-- A run ends where it ended when the rest breaks off earlier. -/
theorem takeWhile_append_of_begins {p : Char → Bool} (h : (w ++ u).takeWhile p = w)
    (hv : v <+: u) : (w ++ v).takeWhile p = w := by
  have hw : ∀ c ∈ w, p c = true := fun c hc => List.mem_takeWhile_imp (h.symm ▸ hc)
  rw [List.takeWhile_append_of_pos hw] at h ⊢
  have hu : u.takeWhile p = [] := by simpa using h
  cases v with
  | nil => simp
  | cons c v =>
    obtain ⟨u, rfl⟩ := hv
    have hc : ¬p c = true := fun hc => by
      rw [List.cons_append, List.takeWhile_cons_of_pos hc] at hu
      cases hu
    rw [List.takeWhile_cons_of_neg hc, List.append_nil]

/-! ### Escapes -/

/-- An octal run ends where it ended. -/
theorem octalRun_of_begins (hw : ((w ++ u).take 2).takeWhile Numeral.isOctal = w) (hv : v <+: u) :
    octalRun 2 (w ++ v) = w.length := by
  have hle : w.length ≤ 2 := by
    rw [← hw]
    exact Nat.le_trans (List.takeWhile_prefix _).length_le (List.length_take_le 2 _)
  have htake : ∀ u, (w ++ u).take 2 = w ++ u.take (2 - w.length) := fun u => by
    rw [List.take_append, List.take_of_length_le hle]
  rw [htake] at hw
  rw [octalRun, htake, takeWhile_append_of_begins hw (List.IsPrefix.take hv _)]

theorem takes_octal (x : Char) :
    Takes 1 fun cs => .ok (escapeText .octal (octalRun 2 cs + 1) (x :: cs)) := by
  intro t l h
  cases h
  obtain ⟨u, hu⟩ := (List.takeWhile_prefix Numeral.isOctal).trans (List.take_prefix 2 t)
  generalize hw : (t.take 2).takeWhile Numeral.isOctal = w at hu
  subst hu
  have hrun : ∀ v, v <+: u → octalRun 2 (w ++ v) = w.length := fun v => octalRun_of_begins hw
  refine ⟨w, u, rfl, congrArg (· + 1) (hrun u (List.prefix_refl u)), fun v hv => ?_⟩
  simp only [escapeText, hrun v hv, hrun u (List.prefix_refl u), List.take_succ_cons,
    List.take_left]

/-- A number takes in all digits that follow. -/
theorem takes_number {x : Char} (hx : x.isDigit = true) :
    Takes 1 fun cs => .ok ⟨.backreference (.number (min
      (Numeral.ofDecimal ((x :: cs).takeWhile Char.isDigit)) Numeral.max64)),
      ((x :: cs).takeWhile Char.isDigit).length⟩ := by
  intro t l h
  cases h
  obtain ⟨u, hu⟩ := List.takeWhile_prefix Char.isDigit (l := t)
  generalize hw : t.takeWhile Char.isDigit = w at hu
  subst hu
  have hrun : ∀ v, v <+: u → (x :: (w ++ v)).takeWhile Char.isDigit = x :: w := fun v hv => by
    rw [List.takeWhile_cons_of_pos hx, takeWhile_append_of_begins hw hv]
  refine ⟨w, u, rfl, ?_, fun v hv => ?_⟩
  · simp only [hrun u (List.prefix_refl u), List.length_cons]
  · simp only [hrun v hv, hrun u (List.prefix_refl u)]

/-- An escape whose length its own text tells. -/
theorem takes_escapeText {x : Char} {kind : CharKind} {cause : LexCause} {f : Text → Option Nat}
    (hf : ∀ {cs n}, f cs = some n → ∃ m, n = m + 1 ∧ (cs.take m).length = m ∧
      ∀ u, f (cs.take m ++ u) = some n) :
    Takes 1 fun cs =>
      match f cs with
      | some n => .ok (escapeText kind n (x :: cs))
      | none => .error cause := by
  intro t l h
  dsimp only at h
  split at h
  · rename_i n hn
    cases h
    obtain ⟨m, rfl, hlen, hagain⟩ := hf hn
    refine ⟨t.take m, t.drop m, (List.take_append_drop m t).symm, by rw [hlen]; rfl, fun v _ => ?_⟩
    simp only [hagain v, escapeText, List.take_succ_cons]
    rw [List.take_append, hlen, List.take_take]
    simp
  · cases h

theorem takes_hex (x : Char) :
    Takes 1 fun cs =>
      if (cs.take 2).length = 2 ∧ (cs.take 2).all Numeral.isHex then
        .ok (escapeText .hex 3 (x :: cs))
      else .error .invalidHexEscape := by
  intro t l h
  dsimp only at h
  split at h
  · rename_i hhex
    cases h
    rcases t with _ | ⟨c, _ | ⟨d, t⟩⟩
    · cases hhex.1
    · cases hhex.1
    · exact ⟨[c, d], t, rfl, rfl, fun v _ => if_pos hhex⟩
  · cases h

theorem takes_control (x : Char) :
    Takes 1 fun cs =>
      if cs.head?.any Char.isAlpha then .ok (escapeText .control 2 (x :: cs))
      else .error .invalidControlEscape := by
  intro t l h
  dsimp only at h
  split at h
  · rename_i halpha
    cases h
    cases t with
    | nil => cases halpha
    | cons c t => exact ⟨[c], t, rfl, rfl, fun v _ => if_pos halpha⟩
  · cases h

theorem takes_name :
    Takes 1 fun cs =>
      match cs with
      | '<' :: u =>
        match readName u with
        | .ok name => .ok ⟨.backreference (.name name), name.length + 3⟩
        | .error _ => .error .invalidNamedReference
      | _ => .error .invalidNamedReference := by
  intro t l h
  dsimp only at h
  split at h
  · split at h
    · rename_i name hname
      cases h
      obtain ⟨u, rfl, hident⟩ := readName_eq_ok hname
      refine ⟨'<' :: (name ++ ['>']), u, by simp, by simp, fun v _ => ?_⟩
      simp only [List.cons_append, List.append_assoc, List.nil_append, readName_append hident v]
    · cases h
  · cases h

theorem takes_escape (inClass : Bool) : Takes 0 (escape inClass) := by
  have hcons : ∀ x, Takes 1 fun cs => escape inClass (x :: cs) := by
    intro x
    simp only [escape]
    -- one step for each branch of the reader, in its order
    refine .ite (fun _ => takes_ok (escapeText .special 1 [x])) ?_
    refine .ite (fun _ => .ite (fun _ => takes_ok (escapeText .special 1 [x]))
      (takes_ok ⟨.assertion .wordBoundary, 1⟩)) ?_
    refine .ite (fun _ => takes_ok ⟨.assertion .nonWordBoundary, 1⟩) ?_
    refine .ite (fun _ => takes_octal x) ?_
    refine .ite (fun hnumber => takes_number (isDigit_iff_zero_or.2 (.inr hnumber.2))) ?_
    refine .ite (fun _ => takes_hex x) ?_
    refine .ite (fun _ => takes_escapeText unicodeLength?_take) ?_
    refine .ite (fun _ => takes_control x) ?_
    refine .ite (fun _ => takes_escapeText propertyLength?_take) ?_
    exact .ite (fun _ => takes_name) (takes_ok ⟨.char (.identityEscape x), 1⟩)
  intro t l h
  cases t with
  | nil => cases h
  | cons x cs =>
    obtain ⟨w, u, rfl, hextra, hagain⟩ := hcons x cs l h
    exact ⟨x :: w, u, rfl, hextra, hagain⟩

/-! ### Quantifiers and groups -/

/-- A text that does not begin with `c` does not when it breaks off earlier. -/
theorem head?_ne_of_begins {c : Char} (hu : u.head? ≠ some c) (hv : v <+: u) :
    v.head? ≠ some c := by
  intro hc
  obtain ⟨rest, rfl⟩ := hv
  obtain ⟨v, rfl⟩ := List.head?_eq_some_iff.1 hc
  exact hu rfl

theorem takes_quantifier (min : Nat) (max : Option Nat) (extra : Nat) :
    Takes extra fun rest => .ok (quantifier min max extra rest) := by
  intro t l h
  cases h
  by_cases hlazy : t.head? = some '?'
  · obtain ⟨u, rfl⟩ := List.head?_eq_some_iff.1 hlazy
    exact ⟨['?'], u, rfl, Nat.add_comm _ _, fun v _ => rfl⟩
  · refine ⟨[], t, rfl, by simp [quantifier, hlazy], fun v hv => ?_⟩
    simp [quantifier, hlazy, head?_ne_of_begins hlazy hv]

theorem takes_brace : Takes 0 brace := by
  intro t l h
  by_cases hform : ∃ w u low high, t = w ++ u ∧ BracedBounds w low high
  · obtain ⟨w, u, low, high, rfl, hform⟩ := hform
    by_cases hwords : AreWords (Numeral.ofDecimal low) (high.map Numeral.ofDecimal)
    · rw [hform.brace hwords] at h
      obtain ⟨w', u', rfl, hextra, hagain⟩ := takes_quantifier _ _ _ u l h
      refine ⟨w ++ w', u', (List.append_assoc _ _ _).symm, ?_, fun v hv => ?_⟩
      · rw [hextra, List.length_append, Nat.add_zero, Nat.add_comm]
      · rw [List.append_assoc, hform.brace hwords]
        exact hagain v hv
    · rw [hform.brace_overflow hwords] at h
      cases h
  · rw [brace_literal fun w u low high ht hw => hform ⟨w, u, low, high, ht, hw⟩] at h
    cases h
    refine ⟨[], t, rfl, rfl, fun v hv => brace_literal ?_⟩
    -- what is no quantifier does not become one by breaking off
    rintro w u low high rfl hw
    obtain ⟨rest, rfl⟩ := hv
    exact hform ⟨w, u ++ rest, low, high, List.append_assoc _ _ _, hw⟩

theorem takes_groupOpening : Takes 0 groupOpening := by
  intro t l h
  unfold groupOpening at h
  split at h
  case h_1 u =>
    cases h
    exact ⟨['?', ':'], u, rfl, rfl, fun v _ => rfl⟩
  case h_2 u =>
    cases h
    exact ⟨['?', '='], u, rfl, rfl, fun v _ => rfl⟩
  case h_3 u =>
    cases h
    exact ⟨['?', '!'], u, rfl, rfl, fun v _ => rfl⟩
  case h_4 u =>
    cases h
    exact ⟨['?', '<', '='], u, rfl, rfl, fun v _ => rfl⟩
  case h_5 u =>
    cases h
    exact ⟨['?', '<', '!'], u, rfl, rfl, fun v _ => rfl⟩
  case h_6 t _ _ =>
    cases hread : readName t with
    | error _ =>
      rw [hread] at h
      cases h
    | ok name =>
      rw [hread] at h
      cases h
      obtain ⟨u, rfl, hident⟩ := readName_eq_ok hread
      refine ⟨'?' :: '<' :: (name ++ ['>']), u, by simp, by simp, fun v _ => ?_⟩
      rw [List.cons_append, List.cons_append, List.append_assoc]
      exact groupOpening_named hident v
  case h_7 => cases h
  case h_8 hcapturing =>
    cases h
    refine ⟨[], t, rfl, rfl, fun v hv => groupOpening_capturing (head?_ne_of_begins ?_ hv)⟩
    intro hquestion
    obtain ⟨u, rfl⟩ := List.head?_eq_some_iff.1 hquestion
    exact hcapturing u rfl

/-! ### Tokens -/

theorem takes_classOpen : Takes 0 fun t =>
    if t.head? = some '^' then .ok ⟨.classOpen true, 1⟩ else .ok ⟨.classOpen false, 0⟩ := by
  intro t l h
  dsimp only at h
  split at h
  · rename_i hnegated
    cases h
    obtain ⟨u, rfl⟩ := List.head?_eq_some_iff.1 hnegated
    exact ⟨['^'], u, rfl, rfl, fun v _ => rfl⟩
  · rename_i hplain
    cases h
    exact ⟨[], t, rfl, rfl, fun v hv => if_neg (head?_ne_of_begins hplain hv)⟩

theorem takes_outside (c : Char) : Takes 0 (outside c) := by
  cases hr : (PatternChar.reserved .pattern).contains c with
  | false =>
    rw [funext (outside_of_not_reserved hr)]
    exact takes_ok _
  | true =>
    simp only [PatternChar.reserved, List.contains_eq_mem, List.mem_cons, List.not_mem_nil,
      or_false, decide_eq_true_eq] at hr
    rcases hr with rfl | rfl | rfl | rfl | rfl | rfl | rfl | rfl | rfl | rfl | rfl | rfl | rfl |
      rfl | rfl
    · exact takes_escape false
    · exact takes_ok ⟨.assertion .start, 0⟩
    · exact takes_ok ⟨.assertion .finish, 0⟩
    · exact takes_ok ⟨.char .dot, 0⟩
    · exact takes_ok ⟨.bar, 0⟩
    · exact takes_quantifier 0 (some 1) 0
    · exact takes_quantifier 0 none 0
    · exact takes_quantifier 1 none 0
    · exact takes_groupOpening
    · exact takes_ok ⟨.groupClose, 0⟩
    · exact takes_classOpen
    · exact takes_ok ⟨.char (.simple ']'), 0⟩
    · exact takes_brace
    · exact takes_ok ⟨.char (.simple '\x7d'), 0⟩
    · exact takes_ok ⟨.char (.simple '/'), 0⟩

theorem takes_inside (c : Char) : Takes 0 (inside c) := by
  cases hr : (PatternChar.reserved .inClass).contains c with
  | false =>
    rw [funext (inside_of_not_reserved hr)]
    exact takes_ok _
  | true =>
    simp only [PatternChar.reserved, List.contains_eq_mem, List.mem_cons, List.not_mem_nil,
      or_false, decide_eq_true_eq] at hr
    rcases hr with rfl | rfl | rfl | rfl | rfl | rfl
    · exact takes_escape true
    · exact takes_ok ⟨.classClose, 0⟩
    · exact takes_ok ⟨.char (.simple '['), 0⟩
    · exact takes_ok ⟨.char (.simple '^'), 0⟩
    · exact takes_ok ⟨.char (.simple '-'), 0⟩
    · exact takes_ok ⟨.char (.simple '/'), 0⟩

/-- Every token is read from its own text and whatever follows it, or the beginning of that. -/
theorem takes_first (inClass : Bool) (c : Char) : Takes 0 (first inClass c) := by
  cases inClass with
  | true => exact takes_inside c
  | false => exact takes_outside c

/-! ### Runs of tokens -/

/-- The text that tokens were read from. -/
def source (ts : List Token) : Text := ts.flatMap Token.raw

/-- The token when the text begins `d` bytes later. -/
def shift (d : Nat) (token : Token) : Token := { token with offset := token.offset + d }

variable {offset : Nat} {openClass : Option Nat} {token : Token} {ts pre post : List Token}

theorem lexFrom_eq_nil (h : lexFrom offset openClass t = .ok []) : t = [] ∧ openClass = none := by
  rcases lexFrom_eq_ok h with ⟨rfl, -⟩ | ⟨_, _, _, _, _, -, -, -, heq⟩
  · have hclosed := inClassAfterAll_of_lexFrom h
    cases openClass with
    | none => exact ⟨rfl, rfl⟩
    | some _ => cases hclosed
  · cases heq

/-- The first token takes its text, and is the same when the rest breaks off earlier. -/
theorem lexFrom_eq_cons (h : lexFrom offset openClass t = .ok (token :: ts)) :
    ∃ c w u, t = c :: (w ++ u) ∧ token.raw = c :: w ∧ token.offset = offset ∧
      (∀ v, v <+: u → first openClass.isSome c (w ++ v) = .ok ⟨token.kind, w.length⟩) ∧
      lexFrom (offset + Text.bytes token.raw) (classAfter token.kind offset openClass) u =
        .ok ts := by
  rcases lexFrom_eq_ok h with ⟨-, hnil⟩ | ⟨c, cs, k, n, us, rfl, hfirst, hrest, heq⟩
  · cases hnil
  · obtain ⟨w, u, rfl, hlen, hagain⟩ := takes_first _ c cs _ hfirst
    obtain rfl : n = w.length := hlen
    rw [List.take_left, List.drop_left] at hrest
    rw [List.take_left] at heq
    cases heq
    exact ⟨c, w, u, rfl, rfl, rfl, hagain, hrest⟩

theorem source_of_lexFrom (h : lexFrom offset openClass t = .ok ts) :
    source ts = t ∧ ∀ token ∈ ts, token.raw ≠ [] := by
  induction ts generalizing offset openClass t with
  | nil =>
    obtain ⟨rfl, -⟩ := lexFrom_eq_nil h
    exact ⟨rfl, List.forall_mem_nil _⟩
  | cons token ts ih =>
    obtain ⟨c, w, u, rfl, hraw, -, -, hrest⟩ := lexFrom_eq_cons h
    obtain ⟨hsource, hne⟩ := ih hrest
    refine ⟨?_, List.forall_mem_cons.2 ⟨by rw [hraw]; exact List.cons_ne_nil _ _, hne⟩⟩
    rw [source, List.flatMap_cons, ← source, hsource, hraw, List.cons_append]

/-- A token begins where the text of the tokens before it ends. -/
theorem offset_of_lexFrom (h : lexFrom offset openClass t = .ok (pre ++ token :: post)) :
    token.offset = offset + Text.bytes (source pre) := by
  induction pre generalizing offset openClass t with
  | nil =>
    obtain ⟨_, _, _, -, -, hoffset, -, -⟩ := lexFrom_eq_cons h
    exact hoffset
  | cons earlier pre ih =>
    obtain ⟨_, _, _, -, -, -, -, hrest⟩ := lexFrom_eq_cons h
    rw [ih hrest, source, source, List.flatMap_cons, Text.bytes_append, Nat.add_assoc]

/-- Every token is read from its own text. -/
theorem first_of_lexFrom (h : lexFrom offset openClass t = .ok (pre ++ token :: post)) :
    ∃ x w, token.raw = x :: w ∧
      first (inClassAfterAll openClass.isSome (pre.map Token.kind)) x w =
        .ok ⟨token.kind, w.length⟩ := by
  induction pre generalizing offset openClass t with
  | nil =>
    obtain ⟨x, w, u, -, hraw, -, hfirst, -⟩ := lexFrom_eq_cons h
    have hown := hfirst [] (List.nil_prefix)
    rw [List.append_nil] at hown
    exact ⟨x, w, hraw, hown⟩
  | cons earlier pre ih =>
    obtain ⟨_, _, _, -, -, -, -, hrest⟩ := lexFrom_eq_cons h
    obtain ⟨x, w, hraw, hown⟩ := ih hrest
    rw [isSome_classAfter] at hown
    exact ⟨x, w, hraw, hown⟩

/-- Reading does not depend on the offset where it begins. -/
theorem lexFrom_shift {d : Nat} (openClass' : Option Nat)
    (hopen : openClass'.isSome = openClass.isSome)
    (h : lexFrom (offset + d) openClass t = .ok ts) :
    ∃ us, lexFrom offset openClass' t = .ok us ∧ ts = us.map (shift d) := by
  induction ts generalizing offset openClass openClass' t with
  | nil =>
    obtain ⟨rfl, rfl⟩ := lexFrom_eq_nil h
    cases openClass' with
    | none => exact ⟨[], by rw [lexFrom], rfl⟩
    | some _ => cases hopen
  | cons token ts ih =>
    obtain ⟨c, w, u, rfl, hraw, hoffset, hfirst, hrest⟩ := lexFrom_eq_cons h
    rw [Nat.add_right_comm] at hrest
    obtain ⟨us, hlex, rfl⟩ := ih (classAfter token.kind offset openClass')
      (by rw [isSome_classAfter, isSome_classAfter, hopen]) hrest
    rw [hraw] at hlex
    refine ⟨⟨token.kind, c :: w, offset⟩ :: us, lexFrom_cons ?_ hlex, ?_⟩
    · rw [hopen]
      exact hfirst u (List.prefix_refl u)
    · rw [List.map_cons, shift, ← hraw, ← hoffset]

/-- A text cut where no class is open: the tokens before the cut are those of the text before it,
and the tokens after the cut are read from where it is. -/
theorem lexFrom_append (h : lexFrom offset openClass t = .ok (pre ++ post))
    (hclosed : inClassAfterAll openClass.isSome (pre.map Token.kind) = false) :
    ∃ u, t = source pre ++ u ∧ lexFrom offset openClass (source pre) = .ok pre ∧
      lexFrom (offset + Text.bytes (source pre)) none u = .ok post := by
  induction pre generalizing offset openClass t with
  | nil =>
    cases openClass with
    | none => exact ⟨t, rfl, by rw [source, List.flatMap_nil, lexFrom], h⟩
    | some _ => cases hclosed
  | cons token pre ih =>
    obtain ⟨c, w, u, rfl, hraw, hoffset, hfirst, hrest⟩ := lexFrom_eq_cons h
    obtain ⟨u, rfl, hbefore, hafter⟩ := ih hrest (by rw [isSome_classAfter]; exact hclosed)
    have hsource : source (token :: pre) = c :: (w ++ source pre) := by
      rw [source, List.flatMap_cons, hraw, List.cons_append, source]
    rw [hraw] at hbefore
    refine ⟨u, by rw [hsource, List.cons_append, List.append_assoc], ?_, ?_⟩
    · rw [hsource, lexFrom_cons (hfirst _ (List.prefix_append _ _)) hbefore, ← hraw, ← hoffset]
    · rwa [source, List.flatMap_cons, Text.bytes_append, ← Nat.add_assoc]

/-- A text is cut in one way at a number of bytes. -/
theorem append_eq_of_bytes {p q : Text} (h : p ++ q = t ++ u) (hb : Text.bytes p = Text.bytes t) :
    p = t ∧ q = u := by
  induction p generalizing t with
  | nil =>
    cases t with
    | nil => exact ⟨rfl, h⟩
    | cons c t =>
      have hpos := c.utf8Size_pos
      simp only [Text.bytes_nil, Text.bytes_cons] at hb
      omega
  | cons c p ih =>
    cases t with
    | nil =>
      have hpos := c.utf8Size_pos
      simp only [Text.bytes_nil, Text.bytes_cons] at hb
      omega
    | cons d t =>
      obtain ⟨rfl, htail⟩ := List.cons.inj h
      obtain ⟨rfl, rfl⟩ := ih htail (Nat.add_left_cancel hb)
      exact ⟨rfl, rfl⟩

/-- The tokens of a body tile it: each has a text, their texts in order are the body, and each
begins after the bytes of the texts before it. Wherever the body is cut between two tokens and no
class is open, the texts on both sides have tokens, and these are the tokens of the body when those
on the right count their offsets from the cut. -/
theorem tokenize_tiles {body : Text} {ts : List Token} (h : tokenize body = .ok ts) :
    (∀ token ∈ ts, token.raw ≠ []) ∧ source ts = body ∧
      (∀ pre token post, ts = pre ++ token :: post → token.offset = Text.bytes (source pre)) ∧
      ∀ pre post, ts = pre ++ post → inClassAfterAll false (pre.map Token.kind) = false →
        ∀ p q, body = p ++ q → Text.bytes p = Text.bytes (source pre) →
          ∃ us vs, tokenize p = .ok us ∧ tokenize q = .ok vs ∧
            ts = us ++ vs.map (shift (Text.bytes p)) := by
  obtain ⟨hsource, hne⟩ := source_of_lexFrom h
  refine ⟨hne, hsource, ?_, ?_⟩
  · rintro pre token post rfl
    rw [offset_of_lexFrom h, Nat.zero_add]
  · rintro pre post rfl hclosed p q rfl hbytes
    obtain ⟨u, hcut, hbefore, hafter⟩ := lexFrom_append h hclosed
    obtain ⟨rfl, rfl⟩ := append_eq_of_bytes hcut hbytes
    obtain ⟨vs, hlex, rfl⟩ := lexFrom_shift none rfl hafter
    exact ⟨pre, vs, hbefore, hlex, rfl⟩

/-- The body `é*?a` cut after its first character, which takes two bytes. -/
theorem tokenize_tiles_lazy :
    tokenize ['é', '*', '?', 'a'] = .ok [⟨.char (.simple 'é'), ['é'], 0⟩,
        ⟨.quantifier 0 none false, ['*', '?'], 2⟩, ⟨.char (.simple 'a'), ['a'], 4⟩] ∧
      ∃ us vs, tokenize ['é'] = .ok us ∧ tokenize ['*', '?', 'a'] = .ok vs ∧
        [⟨.char (.simple 'é'), ['é'], 0⟩, ⟨.quantifier 0 none false, ['*', '?'], 2⟩,
          ⟨.char (.simple 'a'), ['a'], 4⟩] = us ++ vs.map (shift 2) := by
  have htokens : tokenize ['é', '*', '?', 'a'] = .ok [⟨.char (.simple 'é'), ['é'], 0⟩,
      ⟨.quantifier 0 none false, ['*', '?'], 2⟩, ⟨.char (.simple 'a'), ['a'], 4⟩] := by
    decide +kernel
  obtain ⟨-, -, -, hcut⟩ := tokenize_tiles htokens
  exact ⟨htokens, hcut [_] [_, _] rfl rfl ['é'] ['*', '?', 'a'] rfl rfl⟩

end RegexKit.Token
