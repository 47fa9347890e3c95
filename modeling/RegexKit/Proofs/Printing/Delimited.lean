import RegexKit.Proofs.Printing.Lexed
import RegexKit.Proofs.Printing.Nesting
import RegexKit.Source

/-! Texts between slashes. No flag letter is a slash, so the full text of a root comes apart
into its pattern and its flags, and a source that is read is a lexed tree with flags. A tree
that comes from such a source can be printed while it stays one level below the limit of the
reader. -/

namespace RegexKit

/-! ### Slashes -/

theorem Text.splitAtLast?_of_not_mem {mark : Char} {t : Text} (h : mark ∉ t) :
    splitAtLast? mark t = none := by
  induction t with
  | nil => rfl
  | cons c cs ih =>
    rw [List.mem_cons, not_or] at h
    rw [splitAtLast?, ih h.2]
    exact if_neg (Ne.symm h.1)

/-- A mark with none after it is the last one. -/
theorem Text.splitAtLast?_append_cons {mark : Char} (before : Text) {after : Text}
    (h : mark ∉ after) : splitAtLast? mark (before ++ mark :: after) = some (before, after) := by
  induction before with
  | nil =>
    rw [List.nil_append, splitAtLast?, splitAtLast?_of_not_mem h]
    exact if_pos rfl
  | cons c cs ih => rw [List.cons_append, splitAtLast?, ih]

theorem Flags.slash_not_mem_text (fs : Flags) : '/' ∉ fs.text := by
  intro h
  obtain ⟨f, -, hf⟩ := List.mem_map.1 h
  cases f <;> cases hf

/-- The full text of a root is read as its pattern with its flags. -/
theorem Source.parse_fullText (body : Node) (flags : Flags) :
    parse (Node.regExp body flags).fullText =
      parseWithFlags (Node.regExp body flags).pattern flags.text := by
  have hsplit : split (Node.regExp body flags).fullText =
      .ok ((Node.regExp body flags).pattern, flags.text) := by
    have hlast := Text.splitAtLast?_append_cons (Node.patternText body) flags.slash_not_mem_text
    have htext : (Node.regExp body flags).fullText =
        '/' :: (Node.patternText body ++ '/' :: flags.text) := rfl
    rw [htext, split, hlast]
    rfl
  rw [parse, hsplit]
  rfl

/-- A source that is read gives a well-formed tree of tokens that the lexer makes. -/
theorem Source.exists_of_parse {source : Text} {n : Node} (h : parse source = .ok n) :
    ∃ t flags, n = .regExp t flags ∧ t.WellFormed ∧ Token.Produced false t.yield := by
  unfold parse at h
  cases hsplit : split source with
  | error e =>
    rw [hsplit] at h
    cases h
  | ok parts =>
    obtain ⟨body, letters⟩ := parts
    rw [hsplit] at h
    change parseWithFlags body letters = .ok n at h
    unfold parseWithFlags at h
    cases hflags : Flags.parse letters with
    | error e =>
      rw [hflags] at h
      cases h
    | ok flags =>
      rw [hflags] at h
      obtain ⟨ts, t, hlex, hparse, rfl⟩ := Parser.parseBody_eq_ok.1 h
      have hproduced := Token.produced_of_tokenize hlex
      obtain ⟨hwell, hyield⟩ :=
        Parser.wellFormed_of_parseTokens hproduced.plainDashes hparse
      exact ⟨t, flags, rfl, hwell, by rw [hyield]; exact hproduced⟩

namespace Node

/-! ### Bounds in order -/

theorem badBoundsList?_of_forall {ns : List Node} (h : ∀ n ∈ ns, n.badBounds? = none) :
    badBoundsList? ns = none := by
  induction ns with
  | nil => rfl
  | cons n ns ih =>
    rw [badBoundsList?, h n List.mem_cons_self, ih fun k hk => h k (List.mem_cons_of_mem _ hk)]
    rfl

theorem badBounds?_repetition {e : Node} {min : Nat} {max : Option Nat} {greedy : Bool}
    (h : inOrder min max = true) : (repetition e min max greedy).badBounds? = e.badBounds? := by
  cases max with
  | none => rfl
  | some max =>
    have hle : min ≤ max := by simpa [inOrder] using h
    exact if_neg (by omega)

theorem badBounds?_of_built {n : Node} (hn : n.Built) : n.badBounds? = none := by
  induction n with
  | regExp _ _ _ | classRange _ _ => cases hn
  | alternative es ih => exact badBoundsList?_of_forall fun e he => ih e he (builtAll_iff.1 hn e he)
  | disjunction bs ih =>
    exact badBoundsList?_of_forall fun b hb => ih b hb (builtAll_iff.1 hn.2 b hb)
  | group kind e ih => exact ih hn
  | charClass negated ms _ =>
    refine badBoundsList?_of_forall fun m hm => ?_
    have hm := hn m hm
    cases m <;> first | rfl | cases hm
  | repetition e min max greedy ih =>
    obtain ⟨hbuilt, -, hord, -, -⟩ := hn
    rw [badBounds?_repetition hord, ih hbuilt]
  | backreference _ _ | assertion _ | char _ => rfl

theorem badBoundsList?_of_classReads {ms : List Node} (h : classReads ms = true) :
    badBoundsList? ms = none := by
  induction ms with
  | nil => rfl
  | cons m ms ih =>
    cases m with
    | char c | classRange low high =>
      simp only [classReads, Bool.and_eq_true] at h
      rw [badBoundsList?, ih h.2]
      rfl
    | _ => cases h

theorem badBounds?_of_grammatical {n : Node} (hn : n.grammatical = true) : n.badBounds? = none := by
  induction n with
  | regExp _ _ _ | classRange _ _ => cases hn
  | alternative es ih =>
    simp only [grammatical, Bool.and_eq_true, grammaticalParts_eq, List.all_eq_true] at hn
    exact badBoundsList?_of_forall fun e he => ih e he (grammatical_of_isPart (hn.2 e he))
  | disjunction bs ih =>
    simp only [grammatical, Bool.and_eq_true, grammaticalBranches_eq, List.all_eq_true] at hn
    exact badBoundsList?_of_forall fun b hb => ih b hb (grammatical_of_isBranch (hn.2 b hb))
  | group kind e ih => exact ih hn
  | charClass negated ms _ => exact badBoundsList?_of_classReads hn
  | repetition e min max greedy ih =>
    simp only [grammatical, Bool.and_eq_true] at hn
    rw [badBounds?_repetition hn.2, ih hn.1.1]
  | backreference _ _ | assertion _ | char _ => rfl

/-- A root whose bounds are in order is printed. -/
theorem render_regExp {body : Node} (h : body.badBounds? = none) (flags : Flags) :
    (regExp body flags).render = .ok (regExp body flags).fullText := by
  rw [render, badBounds?, h]

/-! ### Printable trees -/

variable {body t : Node} {flags : Flags}

open Match in
/-- A printable tree is printed, and the parts of its text are read as a tree with its flags, its
groups and its outcomes. -/
theorem printable_reparses (h : Printable body flags) :
    (regExp body flags).render = .ok (regExp body flags).fullText ∧
    ∃ n, Source.parseWithFlags (regExp body flags).pattern (regExp body flags).flags.text = .ok n ∧
      n.flags = flags ∧ n.captureGroups? = (regExp body flags).captureGroups? ∧
      ∀ s : Subject, outcomes s n = outcomes s (regExp body flags) := by
  refine ⟨render_regExp (badBounds?_of_built h.built) flags, regExp (bodyAsRead body) flags,
    h.parseWithFlags_eq, rfl, ?_, fun s => ?_⟩
  · rw [captureGroups?, captureGroups?, h.writable.captures_bodyAsRead]
  · rw [outcomes, outcomes, h.writable.outcomes_bodyAsRead]

open Match Token in
/-- A choice within a sequence is printed in parentheses. -/
theorem printable_reparses_choice_in_sequence :
    ∃ n, Source.parseWithFlags ['(', '?', ':', 'a', '|', 'b', ')', 'c'] [] = .ok n ∧
      ∀ s : Subject, outcomes s n = outcomes s (regExp (alternative
        [disjunction [char (.simple 'a'), char (.simple 'b')], char (.simple 'c')]) {}) := by
  have hlex : tokenize ['(', '?', ':', 'a', '|', 'b', ')', 'c'] =
      .ok [⟨.groupOpen .nonCapturing, ['(', '?', ':'], 0⟩, ⟨.char (.simple 'a'), ['a'], 3⟩,
        ⟨.bar, ['|'], 4⟩, ⟨.char (.simple 'b'), ['b'], 5⟩, ⟨.groupClose, [')'], 6⟩,
        ⟨.char (.simple 'c'), ['c'], 7⟩] := by decide +kernel
  have hprintable : Printable (alternative
      [disjunction [char (.simple 'a'), char (.simple 'b')], char (.simple 'c')]) {} := {
    built := ⟨⟨by decide, ⟨'a', [], 0, rfl⟩, ⟨'b', [], 0, rfl⟩, trivial⟩, ⟨'c', [], 0, rfl⟩,
      trivial⟩
    numbers := rfl
    names := by decide
    identifiers := by decide
    resolved := fun _ hr => by cases hr
    words := fun _ _ hr => by cases hr
    nested := by
      intro ts hts
      cases hlex.symm.trans hts
      decide }
  obtain ⟨-, n, hparse, -, -, hout⟩ := printable_reparses hprintable
  exact ⟨n, hparse, hout⟩

/-! ### Printing what was read -/

/-- The full text of a printable tree is read as the tree with its body read back. -/
theorem Printable.parse_fullText (h : Printable body flags) :
    Source.parse (regExp body flags).fullText = .ok (regExp (bodyAsRead body) flags) := by
  rw [Source.parse_fullText]
  exact h.parseWithFlags_eq

/-- The text of a tidy tree nests within the limit when the tree stays one level below it. -/
theorem Writable.nested (h : Writable body) (htidy : body.tidy = true)
    (hdepth : body.groupDepth < Parser.maxDepth) :
    ∀ ts, Token.tokenize (pattern (regExp body flags)) = .ok ts →
      nesting 0 (ts.map Token.kind) ≤ Parser.maxDepth := by
  intro ts hts
  rw [h.nesting_pattern hts]
  exact Nat.le_trans (groupDepth_bodyAsRead htidy) hdepth

/-- The names of a tree that was read are identifiers. -/
theorem isIdentifier_of_produced (hp : Token.Produced false t.yield) :
    ∀ p ∈ groupNames t.captures, Token.isIdentifier p.1 = true :=
  fun _ hg => bounded_of_mem hp _ (named_mem_yield hg)

/-- The numbers of a tree that was read are words. -/
theorem le_max64_of_produced (hp : Token.Produced false t.yield) :
    ∀ m number, (.number m, number) ∈ t.references → m ≤ Numeral.max64 :=
  fun _ _ hr => bounded_of_mem hp _ (reference_mem_yield hr)

/-- A tree that was read is named with identifiers and words. -/
theorem named_of_produced (ht : t.WellFormed) (hp : Token.Produced false t.yield) : t.Named where
  groups := isIdentifier_of_produced hp
  references := by
    intro r hr
    have htarget := ht.resolved r hr
    obtain ⟨target, number⟩ := r
    cases target with
    | number m => exact ⟨htarget.2.1, le_max64_of_produced hp m number hr⟩
    | name name => exact isIdentifier_of_produced hp (name, number) (mem_groupNames.2 htarget)

/-- A tree that was read can be written. -/
theorem writable_of_produced (ht : t.WellFormed) (hp : Token.Produced false t.yield)
    (hoctal : t.NoOctalClass) : Writable t where
  built := built_of_produced ht.shape hp hoctal
  names := isIdentifier_of_produced hp
  references := (named_of_produced ht hp).references

/-- A tree that was read is printable while it stays one level below the limit and its classes
hold no octal escapes. -/
theorem printable_of_produced (ht : t.WellFormed) (hp : Token.Produced false t.yield)
    (hdepth : t.groupDepth < Parser.maxDepth) (hoctal : t.NoOctalClass) : Printable t flags where
  built := built_of_produced ht.shape hp hoctal
  numbers := ht.numbers
  names := ht.names
  identifiers := isIdentifier_of_produced hp
  resolved := ht.resolved
  words := le_max64_of_produced hp
  nested := (writable_of_produced ht hp hoctal).nested (tidy_of_grammatical ht.shape) hdepth

end Node

end RegexKit
