import RegexKit.Linear.Engine
import RegexKit.Proofs.Host.Dialect

/-! Set operators in the text that the host gets. In a class the host reads two ampersands, two
tildes or two dashes next to each other as an operator, where the pattern dialect has two members.
The text of an adapted tree holds exactly the operators of ampersands and tildes that members of
its classes run together into, and none of dashes. -/

namespace RegexKit.Host

open Node (LexedMember lexedAll_iff memberText)
open Token (EscapeOf Lexical isEscapePart)

/-! ### Operators in a text -/

/-- What is an operator when it stands twice in a class. -/
inductive Mark
  | ampersand
  | tilde
  | dash
  deriving DecidableEq, Repr

def Mark.of? (c : Char) : Option Mark :=
  if c = '&' then some ampersand else if c = '~' then some tilde
  else if c = '-' then some dash else none

/-- The operator of a mark and the mark right before it, if they are the same. -/
def meet (before mark : Option Mark) : List Mark := if before = mark then mark.toList else []

@[simp] theorem meet_none_left (mark : Option Mark) : meet none mark = [] := by
  cases mark <;> rfl

@[simp] theorem meet_none_right (before : Option Mark) : meet before none = [] := by
  cases before <;> rfl

/-- Where a reader of the host stands: outside classes or in a class, there with the mark right
before, and in either place after a backslash. -/
inductive Standing
  | outside
  | escaped
  | inClass (before : Option Mark)
  | escapedInClass
  deriving DecidableEq, Repr

namespace Standing

/-- Where the reader stands after a character. -/
def next : Standing → Char → Standing
  | outside, c => if c = '\\' then escaped else if c = '[' then inClass none else outside
  | escaped, _ => outside
  | inClass _, c =>
    if c = '\\' then escapedInClass else if c = ']' then outside else inClass (Mark.of? c)
  | escapedInClass, _ => inClass none

/-- The operator that a character completes. -/
def completes : Standing → Char → List Mark
  | inClass before, c => meet before (Mark.of? c)
  | _, _ => []

end Standing

/-- The operators that are read in a text, in their order. -/
def operatorsFrom : Standing → Text → List Mark
  | _, [] => []
  | s, c :: t => s.completes c ++ operatorsFrom (s.next c) t

/-- The operators that the host reads in a pattern. -/
def operators (t : Text) : List Mark := operatorsFrom .outside t

/-- Reading the text from one standing finds the operators and ends in the other. -/
def Runs (s : Standing) (t : Text) (marks : List Mark) (s' : Standing) : Prop :=
  operatorsFrom s t = marks ∧ t.foldl Standing.next s = s'

theorem Runs.nil (s : Standing) : Runs s [] [] s := ⟨rfl, rfl⟩

theorem Runs.cons {s s' : Standing} {c : Char} {t : Text} {marks : List Mark}
    (h : Runs (s.next c) t marks s') : Runs s (c :: t) (s.completes c ++ marks) s' :=
  ⟨congrArg (s.completes c ++ ·) h.1, h.2⟩

theorem Runs.append {s s' s'' : Standing} {t u : Text} {xs ys : List Mark} (ht : Runs s t xs s')
    (hu : Runs s' u ys s'') : Runs s (t ++ u) (xs ++ ys) s'' := by
  induction t generalizing s xs with
  | nil =>
    obtain ⟨rfl, rfl⟩ := ht
    exact hu
  | cons c t ih =>
    obtain ⟨rfl, hstand⟩ := ht
    rw [operatorsFrom, List.append_assoc]
    exact .cons (ih ⟨rfl, hstand⟩)

/-! ### Texts without operators -/

/-- The text leaves the reader outside classes and holds no operator. -/
abbrev Quiet (t : Text) : Prop := Runs .outside t [] .outside

theorem quiet_of_forall {t : Text} (h : ∀ x ∈ t, x ≠ '\\' ∧ x ≠ '[') : Quiet t := by
  induction t with
  | nil => exact .nil _
  | cons x t ih =>
    obtain ⟨hx, ht⟩ := List.forall_mem_cons.1 h
    refine .cons (s := .outside) ?_
    rw [Standing.next, if_neg hx.1, if_neg hx.2]
    exact ih ht

/-- Parts of escapes are no marks, and neither open nor close anything. -/
theorem isEscapePart_ne {x : Char} (h : isEscapePart x = true) :
    x ≠ '\\' ∧ x ≠ '[' ∧ x ≠ ']' ∧ Mark.of? x = none := by
  have hne : ∀ y ∈ ['\\', '[', ']', '&', '~', '-'], x ≠ y := by
    intro y hy heq
    subst heq
    have hnone : ['\\', '[', ']', '&', '~', '-'].any isEscapePart = false := by decide
    exact List.any_eq_false.1 hnone x hy h
  simp only [List.forall_mem_cons] at hne
  obtain ⟨hslash, hopen, hclose, hampersand, htilde, hdash, -⟩ := hne
  simp [Mark.of?, hslash, hopen, hclose, hampersand, htilde, hdash]

theorem quiet_of_isEscapePart {t : Text} (h : ∀ x ∈ t, isEscapePart x = true) : Quiet t :=
  quiet_of_forall fun x hx => ⟨(isEscapePart_ne (h x hx)).1, (isEscapePart_ne (h x hx)).2.1⟩

/-- A backslash takes in the character after it. -/
theorem quiet_escape (x : Char) {u : Text} (hu : Quiet u) : Quiet ('\\' :: x :: u) :=
  .cons (s := .outside) (.cons hu)

theorem runs_inClass_of_isEscapePart {t : Text} (h : ∀ x ∈ t, isEscapePart x = true) :
    Runs (.inClass none) t [] (.inClass none) := by
  induction t with
  | nil => exact .nil _
  | cons x t ih =>
    obtain ⟨hx, ht⟩ := List.forall_mem_cons.1 h
    obtain ⟨hslash, -, hclose, hmark⟩ := isEscapePart_ne hx
    have hnext : (Standing.inClass none).next x = .inClass none := by
      rw [Standing.next, if_neg hslash, if_neg hclose, hmark]
    have hrest := ih ht
    rw [← hnext] at hrest
    simpa [Standing.completes, hnext] using hrest.cons

/-! ### Characters -/

/-- A literal, the dot, or a backslash before parts of escapes. -/
def Written (c : PatternChar) : Prop :=
  (∃ x escaped, c = ⟨[x], .simple, escaped⟩) ∨
    ∃ x u, c.value = '\\' :: x :: u ∧ c.kind ≠ .simple ∧ ∀ y ∈ u, isEscapePart y = true

theorem written_ofCodePoint (x : ℕ) : Written (.ofCodePoint x) := by
  obtain ⟨y, h⟩ | ⟨letter, u, kind, -, -, h, hescape⟩ := Token.ofCodePoint_spelling x
  · exact .inl ⟨y, false, h⟩
  · rw [h]
    exact .inr ⟨letter, u, rfl, hescape.kind_ne, (List.forall_mem_cons.1 hescape.parts).2⟩

theorem written_of_lexical {b : Bool} {c : PatternChar} (hc : Lexical b c) :
    Written c ∨ (c = .dot ∧ b = false) := by
  rcases hc.spelling with hliteral | hdot | ⟨x, u, heq, hescape⟩
  · exact .inl (.inl hliteral)
  · exact .inr hdot
  · have hvalue : c.value = '\\' :: x :: u := by rw [heq]
    exact .inl (.inr ⟨x, u, hvalue, hescape.kind_ne, (List.forall_mem_cons.1 hescape.parts).2⟩)

theorem Adapted.written {b : Bool} {c : PatternChar} (hc : Adapted b c) :
    Written c ∨ (c = .dot ∧ b = false) := by
  rcases hc with ⟨x, rfl⟩ | ⟨hlexical, -⟩
  · exact .inl (written_ofCodePoint x)
  · exact written_of_lexical hlexical

/-- Outside classes the text of a character is quiet. -/
theorem quiet_text {c : PatternChar} (hc : Written c ∨ c = .dot) : Quiet (c.text .pattern) := by
  rcases hc with (⟨x, escaped, rfl⟩ | ⟨x, u, hvalue, hkind, hu⟩) | rfl
  · rw [PatternChar.text]
    split
    · exact ⟨rfl, rfl⟩
    · rename_i hplain
      refine quiet_of_forall (List.forall_mem_singleton.2 ⟨?_, ?_⟩) <;>
      · rintro rfl
        exact hplain ⟨rfl, rfl⟩
  · rw [PatternChar.text, if_neg fun h => hkind h.1, hvalue]
    exact quiet_escape x (quiet_of_isEscapePart hu)
  · exact ⟨rfl, rfl⟩

/-- The mark that a character is written as in a class. -/
def mark? (c : PatternChar) : Option Mark :=
  match c.kind, c.value with
  | .simple, [x] => if PatternChar.needsEscape .inClass [x] then none else Mark.of? x
  | _, _ => none

theorem mark?_simple (x : Char) (escaped : Bool) :
    mark? ⟨[x], .simple, escaped⟩ =
      if PatternChar.needsEscape .inClass [x] then none else Mark.of? x := rfl

theorem mark?_of_kind {c : PatternChar} (hkind : c.kind ≠ .simple) : mark? c = none := by
  unfold mark?
  split
  · rename_i hsimple _
    exact absurd hsimple hkind
  · rfl

theorem eq_dash_of_mark {x : Char} (h : Mark.of? x = some .dash) : x = '-' := by
  unfold Mark.of? at h
  repeat' split at h
  all_goals first | assumption | cases h

/-- A dash is never written plainly. -/
theorem mark?_ne_dash (c : PatternChar) : mark? c ≠ some .dash := by
  unfold mark?
  split
  · split
    · exact fun h => nomatch h
    · rename_i hplain
      intro hdash
      obtain rfl := eq_dash_of_mark hdash
      exact hplain rfl
  · exact fun h => nomatch h

/-- In a class the text of a character completes an operator when it is the mark before. -/
theorem runs_text {c : PatternChar} (hc : Written c) (before : Option Mark) :
    Runs (.inClass before) (c.text .inClass) (meet before (mark? c)) (.inClass (mark? c)) := by
  rcases hc with ⟨x, escaped, rfl⟩ | ⟨x, u, hvalue, hkind, hu⟩
  · rw [mark?_simple, PatternChar.text]
    cases hescape : PatternChar.needsEscape .inClass [x] with
    | true =>
      rw [if_pos rfl, if_pos ⟨rfl, rfl⟩, meet_none_right]
      exact ⟨by simp [operatorsFrom, Standing.completes, Standing.next, Mark.of?], rfl⟩
    | false =>
      have hslash : x ≠ '\\' := by
        rintro rfl
        cases hescape
      have hclose : x ≠ ']' := by
        rintro rfl
        cases hescape
      rw [if_neg Bool.false_ne_true, if_neg (by simp)]
      exact ⟨by simp [operatorsFrom, Standing.completes],
        by simp [Standing.next, hslash, hclose]⟩
  · rw [mark?_of_kind hkind, meet_none_right, PatternChar.text, if_neg fun h => hkind h.1, hvalue]
    have hrest := Runs.cons (c := '\\')
      (Runs.cons (s := (Standing.inClass before).next '\\') (c := x)
        (runs_inClass_of_isEscapePart hu))
    simpa [Standing.completes, Standing.next, Mark.of?] using hrest

/-! ### Members -/

/-- The mark that a member begins with. -/
def firstMark? : Node → Option Mark
  | .char c => mark? c
  | .classRange low _ => mark? low
  | _ => none

/-- The mark that a member ends with. -/
def lastMark? : Node → Option Mark
  | .char c => mark? c
  | .classRange _ high => mark? high
  | _ => none

/-- The operators that members run together into, the first one after a mark. -/
def meetings : Option Mark → List Node → List Mark
  | _, [] => []
  | before, m :: ms => meet before (firstMark? m) ++ meetings (lastMark? m) ms

theorem AdaptedMember.written {m : Node} (hm : AdaptedMember m) : ∀ c ∈ charsOf m, Written c := by
  intro c hc
  rcases (hm.2 c hc).written with hwritten | ⟨-, hfalse⟩
  · exact hwritten
  · cases hfalse

theorem runs_memberText {m : Node} (hm : AdaptedMember m) (before : Option Mark) :
    Runs (.inClass before) (memberText m) (meet before (firstMark? m))
      (.inClass (lastMark? m)) := by
  have hchars := hm.written
  cases m with
  | char c => exact runs_text (hchars c List.mem_cons_self) before
  | classRange low high =>
    have hlow := hchars low List.mem_cons_self
    have hhigh := hchars high (List.mem_cons_of_mem _ List.mem_cons_self)
    have hdash := Runs.cons (s := .inClass (mark? low)) (c := '-') (runs_text hhigh (some .dash))
    -- the dash of the range meets no other
    have hbefore : (Standing.inClass (mark? low)).completes '-' = [] := if_neg (mark?_ne_dash low)
    have hafter : meet (some .dash) (mark? high) = [] := if_neg fun h => mark?_ne_dash high h.symm
    rw [hbefore, hafter] at hdash
    have hboth := (runs_text hlow before).append hdash
    rwa [List.append_nil, List.append_nil] at hboth
  | _ => cases hm.1

/-- The members of a class up to its bracket. -/
theorem runs_members {ms : List Node} (hms : ∀ m ∈ ms, AdaptedMember m) (before : Option Mark) :
    Runs (.inClass before) (ms.flatMap memberText ++ [']']) (meetings before ms) .outside := by
  induction ms generalizing before with
  | nil => exact ⟨by simp [operatorsFrom, Standing.completes, Mark.of?, meetings], rfl⟩
  | cons m ms ih =>
    rw [List.flatMap_cons, List.append_assoc]
    exact (runs_memberText (hms m List.mem_cons_self) before).append
      (ih (fun k hk => hms k (List.mem_cons_of_mem _ hk)) _)

/-! ### Trees -/

/-- The operators that the members of a class run together into. -/
def classMeetings : Node → List Mark
  | .charClass _ ms => meetings none ms
  | _ => []

/-- The operators that the members of the classes of a tree run together into, in preorder. -/
def treeMeetings (n : Node) : List Mark := n.preorder.flatMap classMeetings

theorem treeMeetings_eq (n : Node) :
    treeMeetings n = classMeetings n ++ n.children.flatMap treeMeetings := by
  rw [treeMeetings, Node.preorder_eq, List.flatMap_cons, List.flatMap_assoc]
  rfl

theorem treeMeetings_alternative (es : List Node) :
    treeMeetings (.alternative es) = es.flatMap treeMeetings := treeMeetings_eq _

theorem treeMeetings_disjunction (bs : List Node) :
    treeMeetings (.disjunction bs) = bs.flatMap treeMeetings := treeMeetings_eq _

theorem treeMeetings_group (kind : GroupKind) (e : Node) :
    treeMeetings (.group kind e) = treeMeetings e :=
  (treeMeetings_eq _).trans (List.flatMap_singleton _ e)

theorem treeMeetings_repetition (e : Node) (min : ℕ) (max : Option ℕ) (greedy : Bool) :
    treeMeetings (.repetition e min max greedy) = treeMeetings e :=
  (treeMeetings_eq _).trans (List.flatMap_singleton _ e)

/-- No class is a member of a class. -/
theorem treeMeetings_charClass (negated : Bool) {ms : List Node}
    (hms : ∀ m ∈ ms, m.isMember = true) :
    treeMeetings (.charClass negated ms) = meetings none ms := by
  have hnil : ms.flatMap treeMeetings = [] := List.flatMap_eq_nil_iff.2 fun m hm => by
    cases m with
    | char _ | classRange _ _ => rfl
    | _ => cases hms _ hm
  rw [treeMeetings_eq, Node.children, hnil, List.append_nil]
  rfl

/-- No members run together in a dash. -/
theorem dash_notMem_treeMeetings (n : Node) : .dash ∉ treeMeetings n := by
  have hfirst : ∀ m : Node, firstMark? m ≠ some .dash := fun m => by
    cases m with
    | char c | classRange c _ => exact mark?_ne_dash c
    | _ => exact fun h => nomatch h
  have hmeet : ∀ before m, .dash ∉ meet before (firstMark? m) := by
    intro before m
    unfold meet
    split
    · exact fun hmem => hfirst m (Option.mem_toList.1 hmem)
    · exact List.not_mem_nil
  have hmeetings : ∀ ms before, .dash ∉ meetings before ms := by
    intro ms
    induction ms with
    | nil => exact fun _ => List.not_mem_nil
    | cons m ms ih =>
      intro before
      rw [meetings, List.mem_append, not_or]
      exact ⟨hmeet before m, ih _⟩
  intro hmem
  obtain ⟨m, -, hmem⟩ := List.mem_flatMap.1 hmem
  cases m with
  | charClass _ ms => exact hmeetings ms none hmem
  | _ => cases hmem

/-- The operators in the text of the node are those that its members run together into. -/
abbrev Scans (n : Node) : Prop := Runs .outside n.text (treeMeetings n) .outside

/-- Quiet text around another adds no operators. -/
theorem Runs.enclosed {t u v : Text} {marks : List Mark} (ht : Quiet t)
    (hu : Runs .outside u marks .outside) (hv : Quiet v) :
    Runs .outside (t ++ u ++ v) marks .outside := by
  have hall := (ht.append hu).append hv
  rwa [List.nil_append, List.append_nil] at hall

theorem runs_wrap {t : Text} {marks : List Mark} (ht : Runs .outside t marks .outside) :
    Runs .outside (Node.wrap t) marks .outside :=
  .enclosed (t := ['(', '?', ':']) (v := [')']) ⟨rfl, rfl⟩ ht ⟨rfl, rfl⟩

theorem scans_alternative {es : List Node} (hes : ∀ e ∈ es, Scans e) : Scans (.alternative es) := by
  induction es with
  | nil => exact .nil _
  | cons e es ih =>
    have he := hes e List.mem_cons_self
    have hpart : Runs .outside (if Node.isWrapped e es then Node.wrap e.text else e.text)
        (treeMeetings e) .outside := by
      split
      · exact runs_wrap he
      · exact he
    have hrest := ih fun k hk => hes k (List.mem_cons_of_mem _ hk)
    rw [Scans, treeMeetings_alternative] at hrest ⊢
    rw [Node.text_alternative_cons]
    exact hpart.append hrest

theorem scans_disjunction {bs : List Node} (hbs : ∀ b ∈ bs, Scans b) : Scans (.disjunction bs) := by
  induction bs with
  | nil => exact .nil _
  | cons b bs ih =>
    have hrest : Runs .outside (if bs = [] then [] else '|' :: (Node.disjunction bs).text)
        (treeMeetings (.disjunction bs)) .outside := by
      split
      · rename_i hnil
        subst hnil
        exact .nil _
      · exact .cons (s := .outside) (ih fun k hk => hbs k (List.mem_cons_of_mem _ hk))
    rw [treeMeetings_disjunction] at hrest
    rw [Scans, treeMeetings_disjunction, Node.text_disjunction_cons]
    exact (hbs b List.mem_cons_self).append hrest

/-- Names hold neither backslashes nor brackets. -/
theorem quiet_name {name : Text} (h : Token.isIdentifier name = true) : Quiet name := by
  refine quiet_of_forall fun x hx => ⟨?_, ?_⟩ <;>
  · rintro rfl
    exact absurd (Token.isNamePart_of_isIdentifier h _ hx) (by decide +kernel)

theorem scans_group {kind : GroupKind} {e : Node} (he : Scans e)
    (hname : ∀ number name, kind = .capturing number (some name) → Token.isIdentifier name = true) :
    Scans (.group kind e) := by
  have hopening : Quiet kind.opening := by
    cases kind with
    | capturing number name =>
      cases name with
      | none => exact ⟨rfl, rfl⟩
      | some name =>
        exact .enclosed (t := ['(', '?', '<']) (v := ['>']) ⟨rfl, rfl⟩
          (quiet_name (hname number name rfl)) ⟨rfl, rfl⟩
    | _ => exact ⟨rfl, rfl⟩
  rw [Scans, treeMeetings_group]
  exact .enclosed (v := [')']) hopening he ⟨rfl, rfl⟩

theorem quiet_decimal (m : ℕ) : Quiet (Numeral.decimal m) := by
  refine quiet_of_forall fun x hx => ⟨?_, ?_⟩ <;>
  · rintro rfl
    exact absurd (Numeral.isDigit_of_mem_decimal hx) (by decide)

theorem quiet_quantifierText (min : ℕ) (max : Option ℕ) (greedy : Bool) :
    Quiet (Node.quantifierText min max greedy) := by
  have hbounds : Quiet (Node.boundsText min max) := by
    unfold Node.boundsText
    split
    · exact ⟨rfl, rfl⟩
    · exact ⟨rfl, rfl⟩
    · exact ⟨rfl, rfl⟩
    · exact .enclosed (t := ['\x7b']) ⟨rfl, rfl⟩ (quiet_decimal _) ⟨rfl, rfl⟩
    · rename_i high _
      split
      · exact .enclosed (t := ['\x7b']) ⟨rfl, rfl⟩ (quiet_decimal _) ⟨rfl, rfl⟩
      · have hboth : Quiet (Numeral.decimal min ++ ',' :: Numeral.decimal high) :=
          (quiet_decimal min).append (.cons (s := .outside) (quiet_decimal high))
        exact .enclosed (t := ['\x7b']) ⟨rfl, rfl⟩ hboth ⟨rfl, rfl⟩
  have hlazy : Quiet (if greedy then [] else ['?']) := by
    cases greedy <;> exact ⟨rfl, rfl⟩
  exact hbounds.append hlazy

theorem scans_repetition {e : Node} {min : ℕ} {max : Option ℕ} {greedy : Bool} (he : Scans e) :
    Scans (.repetition e min max greedy) := by
  have hoperand : Runs .outside (if e.isAtom then e.text else Node.wrap e.text) (treeMeetings e)
      .outside := by
    split
    · exact he
    · exact runs_wrap he
  have hall := hoperand.append (quiet_quantifierText min max greedy)
  rw [List.append_nil] at hall
  rw [Scans, treeMeetings_repetition]
  exact hall

theorem scans_backreference {target : RefTarget} {number : ℕ} (h : Token.writable target) :
    Scans (.backreference target number) := by
  cases target with
  | number m =>
    obtain ⟨d, ds, hdecimal, -, -⟩ := Token.exists_decimal_eq_cons h.1
    have hdigits := quiet_decimal m
    have htext : (Node.backreference (.number m) number).text = '\\' :: d :: ds := by
      rw [← hdecimal]
      rfl
    have hquiet : Quiet ds := quiet_of_forall fun x hx => by
      have hmem : x ∈ Numeral.decimal m := hdecimal ▸ List.mem_cons_of_mem d hx
      have hdigit := Numeral.isDigit_of_mem_decimal hmem
      constructor <;>
      · rintro rfl
        exact absurd hdigit (by decide)
    rw [Scans, htext]
    exact quiet_escape d hquiet
  | name name =>
    have hbracketed : Quiet ('<' :: (name ++ ['>'])) :=
      .enclosed (t := ['<']) ⟨rfl, rfl⟩ (quiet_name h) ⟨rfl, rfl⟩
    exact quiet_escape 'k' hbracketed

theorem scans_assertion (kind : AssertionKind) : Scans (.assertion kind) := by
  cases kind <;> exact ⟨rfl, rfl⟩

/-- The operators in the text of a class are those that its members run together into. -/
theorem scans_adaptedClass {n : Node} (hn : AdaptedClass n) : Scans n := by
  obtain ⟨negated, ms, rfl, -, hms⟩ := hn
  have hspelled : Node.spelled ms = ms := by
    refine Node.spelled_eq_self fun m hm => ?_
    have hoctal : ∀ c ∈ charsOf m, c.kind ≠ .octal := fun c hc heq =>
      ((hms m hm).2 c hc).not_foreign (.inr (.inl heq))
    cases m with
    | char c => rw [Node.respellMember, Node.respell_of_ne (hoctal c List.mem_cons_self)]
    | classRange low high =>
      rw [Node.respellMember,
        Node.respell_of_ne (hoctal high (List.mem_cons_of_mem _ List.mem_cons_self))]
    | _ => rfl
  have htext : (Node.charClass negated ms).text =
      (if negated then ['[', '^'] else ['[']) ++ (ms.flatMap memberText ++ [']']) := by
    rw [Node.text, Node.joinMembers_eq, hspelled, List.append_assoc]
  have hopening : Runs .outside (if negated then ['[', '^'] else ['[']) [] (.inClass none) := by
    cases negated <;> exact ⟨rfl, rfl⟩
  rw [Scans, htext, treeMeetings_charClass negated fun m hm => (hms m hm).1]
  exact hopening.append (runs_members hms none)

/-! ### Adapted trees -/

variable {flags : Flags} {parent : Option NodeType}

/-- The operators in the text of an adapted tree are those that the members of its classes run
together into. -/
theorem scans_up {n : Node} (hn : n.Lexed) (hnamed : n.Named) (hparent : parent ≠ some .charClass) :
    Scans ((rewriting flags).up parent n) := by
  have hkept : ∀ (p : Option NodeType) (m : Node), m.type ∉ dialectKinds → Scans m →
      Scans ((rewriting flags).apply p m) := by
    intro p m htype hm
    rwa [Rewrite.apply_of_eq_none (rewriting_eq_none (fun h => htype (by simp [h, dialectKinds]))
      fun h => htype (by simp [h, dialectKinds]))]
  induction n generalizing parent with
  | regExp _ _ _ | classRange _ _ => cases hn
  | alternative es ih =>
    refine hkept _ _ (by simp [dialectKinds, Node.type]) ?_
    rw [Rewrite.upList_eq]
    exact scans_alternative (List.forall_mem_map.2 fun e he =>
      ih e he (lexedAll_iff.1 hn e he) (hnamed.child he) (by decide))
  | disjunction bs ih =>
    refine hkept _ _ (by simp [dialectKinds, Node.type]) ?_
    rw [Rewrite.upList_eq]
    exact scans_disjunction (List.forall_mem_map.2 fun b hb =>
      ih b hb (lexedAll_iff.1 hn.2 b hb) (hnamed.child hb) (by decide))
  | group kind e ih =>
    have he : Scans ((rewriting flags).up (some .group) e) :=
      ih hn (hnamed.child List.mem_cons_self) (by decide)
    exact hkept _ _ (by simp [dialectKinds, Node.type])
      (scans_group he hnamed.isIdentifier_of_group)
  | repetition e min max greedy ih =>
    refine hkept _ _ (by simp [dialectKinds, Node.type]) (scans_repetition ?_)
    exact ih hn.1 (hnamed.child List.mem_cons_self) (by decide)
  | backreference target number =>
    exact hkept _ _ (by simp [dialectKinds, Node.type])
      (scans_backreference hnamed.writable_of_backreference)
  | assertion kind => exact hkept _ _ (by simp [dialectKinds, Node.type]) (scans_assertion kind)
  | char c =>
    rw [Rewrite.up, Rewrite.apply, rewriting_char hparent]
    rcases getD_adaptChar? hn with ⟨d, hd, hadapted, -⟩ | hclass
    · rw [hd]
      exact quiet_text (hadapted.written.imp_right And.left)
    · exact scans_adaptedClass hclass
  | charClass negated ms _ =>
    rw [up_charClass hn]
    exact scans_adaptedClass (adaptedClass_getD_adaptClass? hn)

/-! ### Trees that were read -/

/-- Whatever the flags, the text of a tree that was read and adapted holds the operators that
neighbouring members of its classes run together into, and no others; none is of dashes. -/
theorem operators_adapt {source : Text} {n : Node} (h : Source.parse source = .ok n)
    (flags : Flags) :
    operators (adapt flags n).pattern = treeMeetings (adapt flags n) ∧
      .dash ∉ operators (adapt flags n).pattern := by
  obtain ⟨t, rootFlags, rfl, hwell, hproduced⟩ := Source.exists_of_parse h
  have hadapt : adapt flags (.regExp t rootFlags) =
      .regExp ((rewriting flags).up (some .regExp) t) rootFlags := by
    rw [adapt, run_dialect]
    rfl
  have hscans : Scans ((rewriting flags).up (some .regExp) t) :=
    scans_up (Node.lexed_of_produced hwell.shape hproduced)
      (Node.named_of_produced hwell hproduced) (by decide)
  have hmeetings : treeMeetings (adapt flags (.regExp t rootFlags)) =
      treeMeetings ((rewriting flags).up (some .regExp) t) := by
    rw [hadapt, treeMeetings_eq]
    exact List.flatMap_singleton _ _
  have hoperators : operators (adapt flags (.regExp t rootFlags)).pattern =
      treeMeetings (adapt flags (.regExp t rootFlags)) := by
    rw [hmeetings, hadapt, Node.pattern, Node.patternText]
    split
    · rename_i hnil
      -- the body of an empty pattern holds no operator, and neither does the empty text
      rw [← hscans.1, hnil]
      rfl
    · exact hscans.1
  rw [hoperators]
  exact ⟨rfl, dash_notMem_treeMeetings _⟩

/-- Two tildes run together, and so do two ampersands; the two dashes of a range do not. -/
theorem operators_adapt_marks :
    ∃ n, Source.parse ['/', '[', '~', '~', '&', '&', '-', '-', ']', '/'] = .ok n ∧
      operators (adapt {} n).pattern = [.tilde, .ampersand] := by
  have hparse : Source.parse ['/', '[', '~', '~', '&', '&', '-', '-', ']', '/'] =
      .ok (.regExp (.charClass false [.char (.simple '~'), .char (.simple '~'), .char (.simple '&'),
        .classRange (.simple '&') (.simple '-')]) {}) := by
    decide +kernel
  refine ⟨_, hparse, (operators_adapt hparse {}).1.trans ?_⟩
  decide +kernel

/-- The class of `a`, two ampersands and `b` is compiled to an intersection. -/
theorem operators_of_ampersands :
    ∃ n m, Source.parse ['/', '[', 'a', '&', '&', 'b', ']', '/'] = .ok n ∧
      firstUnsupported? n = none ∧ compile Linear.engine n = .ok m ∧
      m.hostText = ['[', 'a', '&', '&', 'b', ']'] ∧ operators m.hostText = [.ampersand] := by
  have hparse : Source.parse ['/', '[', 'a', '&', '&', 'b', ']', '/'] =
      .ok (.regExp (.charClass false [.char (.simple 'a'), .char (.simple '&'), .char (.simple '&'),
        .char (.simple 'b')]) {}) := by
    decide +kernel
  refine ⟨_, ⟨['[', 'a', '&', '&', 'b', ']'], {}, .regExp (.charClass false [.char (.simple 'a'),
    .char (.simple '&'), .char (.simple '&'), .char (.simple 'b')]) {}⟩, hparse, ?_⟩
  decide +kernel

end RegexKit.Host
