import RegexKit.Proofs.Printing.AsRead
import RegexKit.Proofs.Printing.Printable
import RegexKit.Proofs.Printing.Tokens
import RegexKit.Proofs.Token.Octal

/-! Classes with octal escapes. The printer respells an octal escape before a digit by its code
point, but it looks for the digit in the text that the next member has before it is respelled
itself. Unless an octal escape stands before one that is respelled as an octal digit, the text of a
class is read back as the members that were printed, in the spelling that they were printed in. -/

namespace RegexKit.Node

open RegexKit.Token

/-! ### Members of lexed characters -/

/-- A member of a class: a character that the lexer makes there, or a range of two such with code
points in order. -/
def LexedMember : Node → Prop
  | char c => Lexical true c
  | classRange low high => Lexical true low ∧ Lexical true high ∧
      ∃ x y, low.codePoint? = some x ∧ high.codePoint? = some y ∧ x ≤ y
  | _ => False

theorem BuiltMember.lexed {m : Node} (h : m.BuiltMember) : m.LexedMember := by
  cases m with
  | char c => exact h.1
  | classRange low high => exact ⟨h.1.1, h.2.1.1, h.2.2⟩
  | _ => cases h

mutual

/-- Trees as built ones are, but whose classes may hold octal escapes. -/
def Lexed : Node → Prop
  | regExp _ _ => False
  | alternative es => LexedAll es
  | disjunction bs => bs ≠ [] ∧ LexedAll bs
  | group _ e => Lexed e
  | backreference _ _ | assertion _ => True
  | char c => Lexical false c
  | charClass _ ms => ∀ m ∈ ms, LexedMember m
  | classRange _ _ => False
  | repetition e min max _ => Lexed e ∧ e.isLookbehindGroup = false ∧ inOrder min max = true ∧
      min ≤ Numeral.max32 ∧ max.all (· ≤ Numeral.max32) = true

def LexedAll : List Node → Prop
  | [] => True
  | n :: ns => Lexed n ∧ LexedAll ns

end

theorem lexedAll_iff {ns : List Node} : LexedAll ns ↔ ∀ n ∈ ns, n.Lexed := by
  induction ns with
  | nil => simp [LexedAll]
  | cons n ns ih => simp [LexedAll, ih]

mutual

/-- Trees as lexed ones are, but whose repetitions may be over anything. -/
def Worded : Node → Prop
  | regExp _ _ => False
  | alternative es => WordedAll es
  | disjunction bs => bs ≠ [] ∧ WordedAll bs
  | group _ e => Worded e
  | backreference _ _ | assertion _ => True
  | char c => Lexical false c
  | charClass _ ms => ∀ m ∈ ms, LexedMember m
  | classRange _ _ => False
  | repetition e min max _ => Worded e ∧ inOrder min max = true ∧
      min ≤ Numeral.max32 ∧ max.all (· ≤ Numeral.max32) = true

def WordedAll : List Node → Prop
  | [] => True
  | n :: ns => Worded n ∧ WordedAll ns

end

theorem wordedAll_iff {ns : List Node} : WordedAll ns ↔ ∀ n ∈ ns, n.Worded := by
  induction ns with
  | nil => simp [WordedAll]
  | cons n ns ih => simp [WordedAll, ih]

theorem Lexed.worded {n : Node} (hn : n.Lexed) : n.Worded := by
  induction n with
  | regExp _ _ _ | classRange _ _ => cases hn
  | alternative es ih => exact wordedAll_iff.2 fun e he => ih e he (lexedAll_iff.1 hn e he)
  | disjunction bs ih =>
    exact ⟨hn.1, wordedAll_iff.2 fun b hb => ih b hb (lexedAll_iff.1 hn.2 b hb)⟩
  | group _ _ ih => exact ih hn
  | backreference _ _ | assertion _ => exact trivial
  | char _ | charClass _ _ _ => exact hn
  | repetition _ _ _ _ ih => exact ⟨ih hn.1, hn.2.2⟩

theorem LexedAll.worded {ns : List Node} (hns : LexedAll ns) : WordedAll ns :=
  wordedAll_iff.2 fun n hn => (lexedAll_iff.1 hns n hn).worded

theorem Built.lexed {n : Node} (hn : n.Built) : n.Lexed := by
  induction n with
  | regExp _ _ _ | classRange _ _ => cases hn
  | alternative es ih => exact lexedAll_iff.2 fun e he => ih e he (builtAll_iff.1 hn e he)
  | disjunction bs ih =>
    exact ⟨hn.1, lexedAll_iff.2 fun b hb => ih b hb (builtAll_iff.1 hn.2 b hb)⟩
  | group _ _ ih => exact ih hn
  | backreference _ _ | assertion _ => exact trivial
  | char _ => exact hn
  | charClass _ ms _ => exact fun m hm => (hn m hm).lexed
  | repetition _ _ _ _ ih => exact ⟨ih hn.1, hn.2⟩

theorem BuiltAll.lexed {ns : List Node} (hns : BuiltAll ns) : LexedAll ns :=
  lexedAll_iff.2 fun n hn => (builtAll_iff.1 hns n hn).lexed

/-- Members read back read as written: the only plain dashes are those of ranges. -/
theorem classReads_rereadMember {ms : List Node} (hms : ∀ m ∈ ms, m.LexedMember) :
    classReads (ms.map rereadMember) = true := by
  induction ms with
  | nil => rfl
  | cons m ms ih =>
    have hrest := ih fun k hk => hms k (List.mem_cons_of_mem _ hk)
    have hdash : dashThenPoint (yieldList (ms.map rereadMember)) = false := by
      cases ms with
      | nil => rfl
      | cons k ks =>
        have hk := hms k (List.mem_cons_of_mem _ List.mem_cons_self)
        have hfirst : ∀ c ts, Lexical true c →
            dashThenPoint (.char (reread true c) :: ts) = false := fun c ts hc => by
          unfold dashThenPoint
          split
          · rename_i heq
            cases heq
            rw [isDash_reread c hc, Bool.false_and]
          · rfl
        cases k with
        | char c => exact hfirst c _ hk
        | classRange low high => exact hfirst low _ hk.1
        | _ => cases hk
    have hm := hms m List.mem_cons_self
    cases m with
    | char c =>
      rw [List.map_cons, rereadMember, classReads, hdash, hrest]
      simp
    | classRange low high =>
      obtain ⟨-, -, x, y, hx, hy, hle⟩ := hm
      rw [List.map_cons, rereadMember, classReads, codePoint?_reread, codePoint?_reread, hx, hy,
        hrest]
      simpa using hle
    | _ => cases hm

/-! ### The spelling in which members are printed -/

/-- The text of a member where no digit follows. -/
def memberText (m : Node) : Text := (memberPiece m m.text).text

/-- A digit comes first in the text of these members. -/
def digitFirst (ms : List Node) : Bool := startWithDigit (ms.map memberText)

/-- An octal escape spelled by its code point, any other character as it is. -/
def respell (c : PatternChar) : PatternChar := (respellOctal? c).getD c

/-- The member with its last character respelled. -/
def respellMember : Node → Node
  | char c => char (respell c)
  | classRange low high => classRange low (respell high)
  | n => n

/-- The members in the spelling that they are printed in. -/
def spelled : List Node → List Node
  | [] => []
  | m :: ms => (if digitFirst ms then respellMember m else m) :: spelled ms

theorem respelled_memberPiece (m : Node) (hms : Bool) :
    (match (memberPiece m m.text).respelled with
      | some t => if hms then t else memberText m
      | none => memberText m) = memberText (if hms then respellMember m else m) := by
  cases m with
  | char c =>
    cases h : respellOctal? c <;> cases hms <;>
      simp [memberPiece, memberText, respellMember, respell, h]
  | classRange low high =>
    cases h : respellOctal? high <;> cases hms <;>
      simp [memberPiece, memberText, respellMember, respell, h]
  | _ => cases hms <;> rfl

theorem zipWith_memberPiece (ms : List Node) :
    List.zipWith memberPiece ms (texts ms) = ms.map fun m => memberPiece m m.text := by
  rw [texts_eq, List.zipWith_map_right, List.zipWith_self]

/-- The printed members are the texts of the members as they are spelled. -/
theorem joinMembers_eq (ms : List Node) :
    joinMembers (List.zipWith memberPiece ms (texts ms)) = (spelled ms).flatMap memberText := by
  rw [zipWith_memberPiece]
  induction ms with
  | nil => rfl
  | cons m ms ih =>
    have hdigit : startWithDigit ((ms.map fun k => memberPiece k k.text).map MemberPiece.text) =
        digitFirst ms := by rw [List.map_map]; rfl
    rw [List.map_cons, joinMembers, hdigit, spelled, List.flatMap_cons, ih]
    exact congrArg (· ++ _) (respelled_memberPiece m _)

/-! ### Respelled escapes -/

variable {c : PatternChar}

theorem respell_of_ne (h : c.kind ≠ .octal) : respell c = c := by simp [respell, respellOctal?, h]

theorem respell_of_octal (hc : Lexical true c) (h : c.kind = .octal) :
    ∃ v < 512, c.codePoint? = some v ∧ respell c = .ofCodePoint v := by
  obtain ⟨v, hv, hpoint⟩ := hc.octal_codePoint? h
  exact ⟨v, hv, hpoint, by simp [respell, respellOctal?, h, hpoint]⟩

theorem kind_respell (hc : Lexical true c) : (respell c).kind ≠ .octal := by
  by_cases h : c.kind = .octal
  · obtain ⟨v, hv, -, heq⟩ := respell_of_octal hc h
    rw [heq]
    exact kind_ofCodePoint_ne_octal hv
  · rwa [respell_of_ne h]

theorem lexical_reread_respell (hc : Lexical true c) : Lexical true (reread true (respell c)) := by
  by_cases h : c.kind = .octal
  · obtain ⟨v, hv, -, heq⟩ := respell_of_octal hc h
    rw [heq]
    exact lexical_reread_ofCodePoint hv
  · rw [respell_of_ne h]
    exact hc.reread

theorem codePoint?_respell (hc : Lexical true c) : (respell c).codePoint? = c.codePoint? := by
  by_cases h : c.kind = .octal
  · obtain ⟨v, hv, hpoint, heq⟩ := respell_of_octal hc h
    rw [heq, hpoint]
    exact PatternChar.codePoint?_ofCodePoint (by unfold Numeral.max32; omega)
  · rw [respell_of_ne h]

theorem lexedMember_rereadMember {m : Node} (hm : m.LexedMember) :
    (rereadMember m).LexedMember := by
  cases m with
  | char c =>
    have hc : Lexical true c := hm
    exact hc.reread
  | classRange low high =>
    obtain ⟨hlow, hhigh, hord⟩ := hm
    exact ⟨hlow.reread, hhigh.reread, by simpa using hord⟩
  | _ => cases hm

theorem lexedMember_respellMember {m : Node} (hm : m.LexedMember) :
    (rereadMember (respellMember m)).LexedMember := by
  cases m with
  | char c => exact lexical_reread_respell hm
  | classRange low high =>
    obtain ⟨hlow, hhigh, hord⟩ := hm
    exact ⟨hlow.reread, lexical_reread_respell hhigh,
      by simpa [codePoint?_respell hhigh] using hord⟩
  | _ => cases hm

theorem lexedMember_spelled {m : Node} (hm : m.LexedMember) (respells : Bool) :
    (rereadMember (if respells then respellMember m else m)).LexedMember := by
  cases respells with
  | false => exact lexedMember_rereadMember hm
  | true => exact lexedMember_respellMember hm

theorem lexedMember_of_mem {ms : List Node} (hms : ∀ m ∈ ms, m.LexedMember) :
    ∀ m ∈ (spelled ms).map rereadMember, m.LexedMember := by
  induction ms with
  | nil => exact fun _ hm => by cases hm
  | cons m ms ih =>
    rw [spelled, List.map_cons, List.forall_mem_cons]
    exact ⟨lexedMember_spelled (hms m List.mem_cons_self) (digitFirst ms),
      ih fun k hk => hms k (List.mem_cons_of_mem _ hk)⟩

theorem rereadMember_rereadMember (m : Node) : rereadMember (rereadMember m) = rereadMember m := by
  cases m with
  | char c => simp [rereadMember, reread_reread]
  | classRange low high => simp [rereadMember, reread_reread]
  | _ => rfl

/-- Members that are printed and read back read as written. -/
theorem classReads_spelled {ms : List Node} (hms : ∀ m ∈ ms, m.LexedMember) :
    classReads ((spelled ms).map rereadMember) = true := by
  have hagain : ((spelled ms).map rereadMember).map rereadMember =
      (spelled ms).map rereadMember := by
    rw [List.map_map]
    exact List.map_congr_left fun m _ => rereadMember_rereadMember m
  rw [← hagain]
  exact classReads_rereadMember (lexedMember_of_mem hms)

/-! ### Where members run together -/

/-- The last character of a member. -/
def lastChar? : Node → Option PatternChar
  | char c => some c
  | classRange _ high => some high
  | _ => none

/-- The member ends in an octal escape of fewer than three digits. -/
def endsShort (m : Node) : Bool :=
  m.lastChar?.any fun c => c.kind == .octal && decide (c.value.length < 4)

/-- The member is an octal escape for an octal digit. -/
def isEscapedDigit : Node → Bool
  | char c => c.kind == .octal && c.codePoint?.any fun v => '0'.toNat ≤ v && v ≤ '7'.toNat
  | _ => false

/-- The first member is printed as an octal digit in place of its escape. -/
def respellsDigit : List Node → Bool
  | m :: ms => m.isEscapedDigit && digitFirst ms
  | [] => false

/-- Some member takes in the digit that the next one is printed as. -/
def runsTogether : List Node → Bool
  | m :: ms => (m.endsShort && respellsDigit ms) || runsTogether ms
  | [] => false

theorem exists_memberText_eq_cons {m : Node} (hm : (rereadMember m).LexedMember) :
    ∃ x t, memberText m = x :: t ∧ x ≠ '^' := by
  have hchar : ∀ c, Lexical true (reread true c) → ∃ x t, c.text .inClass = x :: t ∧ x ≠ '^' :=
    fun c hc => by
      obtain ⟨x, t, htext, -, hx⟩ := exists_text_eq_cons hc
      rw [text_reread] at htext
      exact ⟨x, t, htext, (hx rfl).1⟩
  cases m with
  | char c => exact hchar c hm
  | classRange low high =>
    obtain ⟨x, t, htext, hx⟩ := hchar low hm.1
    refine ⟨x, t ++ '-' :: high.text .inClass, ?_, hx⟩
    rw [memberText, memberPiece, rangeText, htext, List.cons_append]
  | _ => cases hm

theorem digitFirst_cons {m : Node} {ms : List Node} (hm : m.LexedMember) :
    digitFirst (m :: ms) = (memberText m).head?.any Char.isDigit := by
  obtain ⟨x, t, htext, -⟩ := exists_memberText_eq_cons (lexedMember_rereadMember hm)
  rw [digitFirst, List.map_cons, startWithDigit, List.findSome?_cons, htext]
  rfl

/-- Respelling a member changes how its text begins only when it is an octal escape, and then it
begins with an octal digit only when it is the escape of that digit. -/
theorem isOctal_head?_respellMember {m : Node} (hm : m.LexedMember)
    (hescaped : m.isEscapedDigit = false)
    (hdigit : (memberText m).head?.any Char.isDigit = false) {x : Char}
    (hx : x ∈ (memberText (respellMember m)).head?) : Numeral.isOctal x = false := by
  by_contra hoctal
  rw [Bool.not_eq_false] at hoctal
  have hsame : x ∉ (memberText m).head? := fun hmem => by
    rw [hmem, Option.any_some, isDigit_of_isOctal hoctal] at hdigit
    cases hdigit
  cases m with
  | char c =>
    have hc : Lexical true c := hm
    by_cases hkind : c.kind = .octal
    · obtain ⟨v, hv, hpoint, heq⟩ := respell_of_octal hc hkind
      have htext :
          memberText (respellMember (char c)) = (PatternChar.ofCodePoint v).text .inClass := by
        rw [← heq]
        rfl
      rw [htext] at hx
      obtain rfl := toNat_of_head?_ofCodePoint hv hx hoctal
      have hescape : (char c).isEscapedDigit = true := by
        simp only [Numeral.isOctal, Bool.and_eq_true, decide_eq_true_eq] at hoctal
        simp only [isEscapedDigit, hkind, hpoint, Option.any_some, beq_self_eq_true, Bool.true_and,
          Bool.and_eq_true, decide_eq_true_eq]
        exact hoctal
      rw [hescape] at hescaped
      cases hescaped
    · rw [respellMember, respell_of_ne hkind] at hx
      exact hsame hx
  | classRange low high =>
    obtain ⟨y, t, htext, -⟩ := exists_text_eq_cons (b := true) hm.1
    have hhead : ∀ d, (memberText (classRange low d)).head? = some y := fun d => by
      rw [memberText, memberPiece, rangeText, show low.text .inClass = y :: t from htext]
      rfl
    rw [respellMember, hhead] at hx
    rw [hhead] at hsame
    exact hsame hx
  | _ => cases hm

/-- No octal digit comes first in the text of members when no digit does before respelling and the
first member is not respelled as one. -/
theorem noOctal_spelled {ms : List Node} (hms : ∀ m ∈ ms, m.LexedMember)
    (hdigit : digitFirst ms = false) (hrespells : respellsDigit ms = false) {u : Text}
    (hu : noOctal u) : noOctal ((spelled ms).flatMap memberText ++ u) := by
  cases ms with
  | nil => exact hu
  | cons m ms =>
    have hm := hms m List.mem_cons_self
    rw [digitFirst_cons hm] at hdigit
    have hfirst : ∀ x ∈ (memberText (if digitFirst ms then respellMember m else m)).head?,
        Numeral.isOctal x = false := fun x hx => by
      cases hnext : digitFirst ms with
      | false =>
        rw [hnext, if_neg Bool.false_ne_true] at hx
        by_contra hoctal
        rw [hx, Option.any_some, isDigit_of_isOctal (by simpa using hoctal)] at hdigit
        cases hdigit
      | true =>
        rw [hnext, if_pos rfl] at hx
        rw [respellsDigit, hnext, Bool.and_true] at hrespells
        exact isOctal_head?_respellMember hm hrespells hdigit hx
    obtain ⟨x, t, htext, -⟩ := exists_memberText_eq_cons (lexedMember_spelled hm (digitFirst ms))
    rw [spelled, List.flatMap_cons, List.append_assoc, htext]
    exact noOctal_cons (hfirst x (by rw [htext]; rfl)) _

/-- The text of a member splits into its tokens when it takes in nothing of what follows. -/
theorem splits_member {m : Node} (hm : (rereadMember m).LexedMember) {u : Text}
    (hu : ∀ c, m.lastChar? = some c → c.kind = .octal → c.value.length = 4 ∨ noOctal u) :
    Splits true (memberText m) u (rereadMember m).yield true := by
  have hchar : ∀ c v, Lexical true (reread true c) →
      (c.kind = .octal → c.value.length = 4 ∨ noOctal v) →
      Splits true (c.text .inClass) v [.char (reread true c)] true := fun c v hc hv => by
    have hsplits := splits_inClass (u := v) hc (by simpa using hv)
    rwa [text_reread, reread_reread] at hsplits
  cases m with
  | char c => exact hchar c u hm (hu c rfl)
  | classRange low high =>
    have hlow := hchar low ('-' :: (high.text .inClass ++ u)) hm.1
      fun _ => .inr (noOctal_cons (by decide) _)
    exact hlow.append ((splits_dash _).append (hchar high u hm.2.1 (hu high rfl)))
  | _ => cases hm

theorem lexical_of_lastChar? {m : Node} (hm : m.LexedMember) (hc : m.lastChar? = some c) :
    Lexical true c := by
  cases m with
  | char d => exact Option.some.inj hc ▸ hm
  | classRange low high => exact Option.some.inj hc ▸ hm.2.1
  | _ => cases hm

/-- The member that is printed takes in nothing of the text of the members after it. -/
theorem lastChar?_spelled {m : Node} {ms : List Node} (hms : ∀ k ∈ m :: ms, k.LexedMember)
    (hrun : (m.endsShort && respellsDigit ms) = false) {u : Text} (hu : noOctal u) :
    ∀ c, (if digitFirst ms then respellMember m else m).lastChar? = some c → c.kind = .octal →
      c.value.length = 4 ∨ noOctal ((spelled ms).flatMap memberText ++ u) := by
  intro c hc hkind
  have hm := hms m List.mem_cons_self
  cases hnext : digitFirst ms with
  | true =>
    rw [hnext, if_pos rfl] at hc
    have hrespelled : ∀ d, Lexical true d → respell d ≠ c := fun d hd heq =>
      kind_respell hd (heq ▸ hkind)
    cases m with
    | char d => exact absurd (Option.some.inj hc) (hrespelled d hm)
    | classRange low high => exact absurd (Option.some.inj hc) (hrespelled high hm.2.1)
    | _ => cases hm
  | false =>
    rw [hnext, if_neg Bool.false_ne_true] at hc
    cases hshort : m.endsShort with
    | false =>
      rw [endsShort, hc] at hshort
      have hlen := (lexical_of_lastChar? hm hc).length_octal_le hkind
      have hnot : ¬c.value.length < 4 := by simpa [hkind] using hshort
      exact .inl (by omega)
    | true =>
      rw [hshort, Bool.true_and] at hrun
      exact .inr (noOctal_spelled (fun k hk => hms k (List.mem_cons_of_mem _ hk)) hnext hrun hu)

/-- Members that do not run together split into the tokens of the members as they are spelled. -/
theorem splits_spelled {ms : List Node} (hms : ∀ m ∈ ms, m.LexedMember)
    (hrun : runsTogether ms = false) {u : Text} (hu : noOctal u) :
    Splits true ((spelled ms).flatMap memberText) u (yieldList ((spelled ms).map rereadMember))
      true := by
  induction ms with
  | nil => exact .nil true u
  | cons m ms ih =>
    rw [runsTogether, Bool.or_eq_false_iff] at hrun
    have hm := lexedMember_spelled (hms m List.mem_cons_self) (digitFirst ms)
    rw [spelled, List.flatMap_cons, List.map_cons, yieldList]
    exact (splits_member hm (lastChar?_spelled hms hrun.1 hu)).append
      (ih (fun k hk => hms k (List.mem_cons_of_mem _ hk)) hrun.2)

/-- The text of a class splits into the tokens of the brackets and of the members. -/
theorem splits_brackets {ms : List Node} (hms : ∀ m ∈ ms, m.LexedMember) (negated : Bool)
    {ks : List TokenKind} {u : Text}
    (hsplits : Splits true ((spelled ms).flatMap memberText) (']' :: u) ks true) :
    Splits false (charClass negated ms).text u (.classOpen negated :: ks ++ [.classClose])
      false := by
  have hcaret : ((spelled ms).flatMap memberText ++ ']' :: u).head? ≠ some '^' := by
    cases ms with
    | nil => simp [spelled]
    | cons m ms =>
      obtain ⟨x, t, htext, hx⟩ := exists_memberText_eq_cons
        (lexedMember_spelled (hms m List.mem_cons_self) (digitFirst ms))
      rw [spelled, List.flatMap_cons, htext]
      simpa using hx
  rw [text, joinMembers_eq]
  have hopen := splits_bracket (u := (spelled ms).flatMap memberText ++ ([']'] ++ u))
    fun _ : negated = false => hcaret
  exact (hopen.append hsplits).append (splits_closingBracket u)

theorem noOctal_closingBracket (u : Text) : noOctal (']' :: u) := noOctal_cons (by decide) u

/-- The text of a class whose members do not run together splits into the tokens of the class of
the members as they are spelled. -/
theorem splits_charClass_spelled {ms : List Node} (hms : ∀ m ∈ ms, m.LexedMember)
    (hrun : runsTogether ms = false) (negated : Bool) (u : Text) :
    Splits false (charClass negated ms).text u
      (charClass negated ((spelled ms).map rereadMember)).yield false :=
  splits_brackets hms negated (splits_spelled hms hrun (noOctal_closingBracket u))

/-! ### Classes without octal escapes -/

theorem BuiltMember.respellMember_eq {m : Node} (h : m.BuiltMember) : respellMember m = m := by
  cases m with
  | char c => rw [respellMember, respell_of_ne h.2]
  | classRange low high => rw [respellMember, respell_of_ne h.2.1.2]
  | _ => cases h

theorem BuiltMember.endsShort_eq {m : Node} (h : m.BuiltMember) : m.endsShort = false := by
  cases m with
  | char c => simp [endsShort, lastChar?, h.2]
  | classRange low high => simp [endsShort, lastChar?, h.2.1.2]
  | _ => cases h

/-- Members that are not respelled are printed as they are. -/
theorem spelled_eq_self {ms : List Node} (hms : ∀ m ∈ ms, respellMember m = m) :
    spelled ms = ms := by
  induction ms with
  | nil => rfl
  | cons m ms ih =>
    rw [spelled, hms m List.mem_cons_self, ih fun k hk => hms k (List.mem_cons_of_mem _ hk),
      ite_self]

theorem spelled_of_built {ms : List Node} (hms : ∀ m ∈ ms, m.BuiltMember) : spelled ms = ms :=
  spelled_eq_self fun m hm => (hms m hm).respellMember_eq

/-- Members run together only where one of them ends in a short octal escape. -/
theorem runsTogether_of_endsShort {ms : List Node} (hms : ∀ m ∈ ms, m.endsShort = false) :
    runsTogether ms = false := by
  induction ms with
  | nil => rfl
  | cons m ms ih =>
    rw [runsTogether, hms m List.mem_cons_self, ih fun k hk => hms k (List.mem_cons_of_mem _ hk)]
    rfl

theorem runsTogether_of_built {ms : List Node} (hms : ∀ m ∈ ms, m.BuiltMember) :
    runsTogether ms = false :=
  runsTogether_of_endsShort fun m hm => (hms m hm).endsShort_eq

/-- The members of a class run together. -/
def isRunTogether : Node → Bool
  | charClass _ ms => runsTogether ms
  | _ => false

/-- No class of the tree has members that run together. -/
def ClassesApart (n : Node) : Prop := ∀ m ∈ n.preorder, m.isRunTogether = false

instance (n : Node) : Decidable n.ClassesApart :=
  inferInstanceAs (Decidable (∀ m ∈ n.preorder, m.isRunTogether = false))

theorem classesApart_iff {n : Node} :
    n.ClassesApart ↔ n.isRunTogether = false ∧ ∀ c ∈ n.children, c.ClassesApart :=
  forall_preorder_iff

theorem ClassesApart.child {n c : Node} (h : n.ClassesApart) (hc : c ∈ n.children) :
    c.ClassesApart := (classesApart_iff.1 h).2 c hc

theorem classesApart_of_built {n : Node} (hn : n.Built) : n.ClassesApart := by
  induction n with
  | regExp _ _ _ | classRange _ _ => cases hn
  | alternative es ih =>
    exact classesApart_iff.2 ⟨rfl, fun e he => ih e he (builtAll_iff.1 hn e he)⟩
  | disjunction bs ih =>
    exact classesApart_iff.2 ⟨rfl, fun b hb => ih b hb (builtAll_iff.1 hn.2 b hb)⟩
  | group _ e ih => exact classesApart_iff.2 ⟨rfl, List.forall_mem_singleton.2 (ih hn)⟩
  | repetition e _ _ _ ih => exact classesApart_iff.2 ⟨rfl, List.forall_mem_singleton.2 (ih hn.1)⟩
  | charClass _ ms _ =>
    refine classesApart_iff.2 ⟨runsTogether_of_built hn, fun m hm => ?_⟩
    have hm := hn m hm
    cases m with
    | char _ | classRange _ _ => exact classesApart_iff.2 ⟨rfl, fun _ hc => by cases hc⟩
    | _ => cases hm
  | backreference _ _ | assertion _ | char _ =>
    exact classesApart_iff.2 ⟨rfl, fun _ hc => by cases hc⟩

end RegexKit.Node
