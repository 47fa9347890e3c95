import RegexKit.Proofs.Printing.Splits

/-! Printed trees are read back. The tree that the text of a printable tree is read as is well
formed, so the reader makes it of the tokens of the text; its groups, references and outcomes
are those of the tree that was printed. -/

namespace RegexKit.Node

open RegexKit.Token
open RegexKit.Match

/-! ### Shape -/

theorem grammatical_assemble {bs : List (List Node)} (hne : bs ≠ [])
    (hbs : ∀ b ∈ bs, ∀ e ∈ b, e.isPart = true) : (assemble bs).grammatical = true := by
  refine Parser.grammatical_collapse (by simpa using hne) fun b hb => ?_
  obtain ⟨es, hes, rfl⟩ := List.mem_map.1 hb
  exact Parser.isBranch_collapse (hbs es hes)

theorem isPart_group {kind : GroupKind} {e : Node} (he : e.grammatical = true) :
    (group kind e).isPart = true := by
  simp [isPart, grammatical, he, isSequence, isChoice]

/-- An atom that is no lookbehind is read back as one that a quantifier may stand behind. -/
theorem isRepeatable_asRead {e : Node} (hatom : e.isAtom = true)
    (hbehind : e.isLookbehindGroup = false) : e.asRead.isRepeatable = true := by
  cases e with
  | group kind e =>
    rw [asRead_group, isRepeatable]
    rw [isLookbehindGroup] at hbehind
    rw [hbehind]
    rfl
  | char _ | charClass _ _ | backreference _ _ => rfl
  | _ => cases hatom

/-- What a lexed tree is read back as consists of parts. -/
theorem isPart_of_mem_readBranches {n : Node} (hn : n.Lexed) :
    ∀ b ∈ readBranches n.asSpelled, ∀ e ∈ b, e.isPart = true := by
  have hgrammatical : ∀ {e : Node}, e.Lexed →
      (∀ b ∈ readBranches e.asSpelled, ∀ k ∈ b, k.isPart = true) → e.readBack.grammatical = true :=
    fun he hparts => grammatical_assemble (readBranches_ne_nil he.worded) hparts
  have hsingle : ∀ {m : Node}, m.isPart = true → ∀ b ∈ [[m]], ∀ e ∈ b, e.isPart = true := by
    intro m hm b hb e he
    obtain rfl := List.mem_singleton.1 hb
    obtain rfl := List.mem_singleton.1 he
    exact hm
  induction n with
  | regExp _ _ _ | classRange _ _ => cases hn
  | alternative es ih =>
    intro b hb
    obtain rfl := List.mem_singleton.1 hb
    rw [Lexed, lexedAll_iff] at hn
    induction es with
    | nil =>
      intro e he
      cases he
    | cons k ks ihks =>
      intro e he
      have hk := ih k List.mem_cons_self (hn k List.mem_cons_self)
      rcases List.mem_append.1 he with he | he
      · split at he
        · obtain rfl := List.mem_singleton.1 he
          exact isPart_group (hgrammatical (hn k List.mem_cons_self) hk)
        · obtain ⟨b, hb, he⟩ := List.mem_flatten.1 he
          exact hk b hb e he
      · exact ihks (fun m hm => ih m (List.mem_cons_of_mem _ hm))
          (fun m hm => hn m (List.mem_cons_of_mem _ hm)) List.mem_cons_self e he
  | disjunction bs ih =>
    intro b hb
    rw [asSpelled, asSpelledAll_eq, readBranches, readChoices_eq, List.flatMap_map] at hb
    obtain ⟨c, hc, hb⟩ := List.mem_flatMap.1 hb
    exact ih c hc (lexedAll_iff.1 hn.2 c hc) b hb
  | group kind e ih => exact hsingle (isPart_group (hgrammatical hn (ih hn)))
  | backreference _ _ | assertion _ | char _ => exact hsingle rfl
  | charClass negated ms _ =>
    refine hsingle ?_
    simp [isPart, grammatical, classReads_spelled hn, isSequence, isChoice]
  | repetition e min max greedy ih =>
    obtain ⟨hlexed, hbehind, hord, -, -⟩ := hn
    have he := hgrammatical hlexed (ih hlexed)
    have hatom : e.asSpelled.isAtom = true → e.readBack.isRepeatable = true := fun hatom =>
      isRepeatable_asRead hatom (by cases e <;> exact hbehind)
    have hoperand : (if e.asSpelled.isAtom then e.readBack
        else group .nonCapturing e.readBack).grammatical = true ∧
        (if e.asSpelled.isAtom then e.readBack
          else group .nonCapturing e.readBack).isRepeatable = true := by
      split
      · rename_i hoperand
        exact ⟨he, hatom hoperand⟩
      · exact ⟨he, rfl⟩
    have hpart : (repetition (if e.asSpelled.isAtom then e.readBack
        else group .nonCapturing e.readBack) min max greedy).isPart = true := by
      simp only [isPart, grammatical, hoperand, hord, isSequence, isChoice]
      rfl
    exact hsingle hpart

theorem grammatical_readBack {n : Node} (hn : n.Lexed) : n.readBack.grammatical = true :=
  grammatical_assemble (readBranches_ne_nil hn.worded) (isPart_of_mem_readBranches hn)

/-! ### Depth -/

theorem le_nesting (d : Nat) (ks : List TokenKind) : d ≤ nesting d ks := by
  induction ks generalizing d with
  | nil => exact Nat.le_refl d
  | cons k ks ih =>
    cases k with
    | groupOpen _ | groupClose => exact Nat.le_max_left _ _
    | _ => exact ih d

/-- The tokens of the node nest as deep as its groups do, wherever they stand. -/
def NestsAsGroups (n : Node) : Prop :=
  ∀ d ks, nesting d (n.yield ++ ks) = max (d + n.groupDepth) (nesting d ks)

theorem nesting_yieldList {ns : List Node} (h : ∀ n ∈ ns, n.NestsAsGroups) (d : Nat)
    (ks : List TokenKind) :
    nesting d (yieldList ns ++ ks) = max (d + groupDepthList ns) (nesting d ks) := by
  induction ns with
  | nil => exact (Nat.max_eq_right (le_nesting d ks)).symm
  | cons n ns ih =>
    rw [yieldList, List.append_assoc, h n List.mem_cons_self,
      ih fun k hk => h k (List.mem_cons_of_mem _ hk), groupDepthList]
    omega

theorem nesting_yieldMore {ns : List Node} (h : ∀ n ∈ ns, n.NestsAsGroups) (d : Nat)
    (ks : List TokenKind) :
    nesting d (yieldMore ns ++ ks) = max (d + groupDepthList ns) (nesting d ks) := by
  induction ns with
  | nil => exact (Nat.max_eq_right (le_nesting d ks)).symm
  | cons n ns ih =>
    have hbar : nesting d (yieldMore (n :: ns) ++ ks) =
        nesting d (n.yield ++ (yieldMore ns ++ ks)) := by
      rw [yieldMore, List.append_assoc]
      rfl
    rw [hbar, h n List.mem_cons_self, ih fun k hk => h k (List.mem_cons_of_mem _ hk),
      groupDepthList]
    omega

/-- The tokens of a tree nest as deep as its groups do. -/
theorem nesting_yield (n : Node) : n.NestsAsGroups := by
  intro d ks
  induction n generalizing d ks with
  | regExp b _ ih => exact ih d ks
  | alternative es ih => exact nesting_yieldList ih d ks
  | disjunction bs ih =>
    cases bs with
    | nil => exact (Nat.max_eq_right (le_nesting d ks)).symm
    | cons b bs =>
      rw [yield, yieldBranches, List.append_assoc, ih b List.mem_cons_self,
        nesting_yieldMore fun k hk => ih k (List.mem_cons_of_mem _ hk), groupDepth, groupDepthList]
      omega
  | group kind e ih =>
    have hgroup : nesting d ((group kind e).yield ++ ks) =
        max d (nesting (d + 1) (e.yield ++ .groupClose :: ks)) := by
      simp [yield, nesting]
    have hclose : nesting (d + 1) (.groupClose :: ks) = max (d + 1) (nesting d ks) := rfl
    rw [hgroup, ih, hclose, groupDepth]
    omega
  | charClass negated ms ih =>
    have hclass : nesting d ((charClass negated ms).yield ++ ks) =
        nesting d (yieldList ms ++ .classClose :: ks) := by
      simp [yield, nesting]
    rw [hclass, nesting_yieldList ih]
    rfl
  | repetition e min max greedy ih =>
    rw [yield, List.append_assoc, ih]
    rfl
  | backreference _ _ | assertion _ | char _ | classRange _ _ =>
    exact (Nat.max_eq_right (le_nesting d ks)).symm

/-! ### Reading back -/

/-- A tree that yields nothing is the empty sequence. -/
theorem eq_empty_of_yield_eq_nil {n : Node} (hn : n.grammatical = true) (h : n.yield = []) :
    n = empty := by
  have hpart : ∀ {e : Node}, e.isPart = true → e.yield ≠ [] := by
    intro e he
    cases e with
    | repetition e min max greedy => simp [yield]
    | group _ _ | charClass _ _ => simp [yield]
    | backreference _ _ | assertion _ | char _ | classRange _ _ => simp [yield]
    | regExp _ _ => simp at he
    | alternative _ | disjunction _ => simp at he
  cases n with
  | alternative es =>
    simp only [grammatical, Bool.and_eq_true, grammaticalParts_eq, List.all_eq_true] at hn
    cases es with
    | nil => rfl
    | cons e es =>
      simp only [yield, yieldList, List.append_eq_nil_iff] at h
      exact absurd h.1 (hpart (hn.2 e List.mem_cons_self))
  | disjunction bs =>
    simp only [grammatical, Bool.and_eq_true, decide_eq_true_eq] at hn
    rcases bs with _ | ⟨b, _ | ⟨c, bs⟩⟩
    · simp at hn
    · simp at hn
    · simp [yield, yieldBranches, yieldMore] at h
  | _ => exact absurd h (hpart (by simp [isPart, hn, isSequence, isChoice]))

theorem eq_nil_of_splits_nil {b b' : Bool} {t u : Text} {ks : List TokenKind}
    (h : Splits b t u ks b') (ht : t = []) : ks = [] := by
  cases h with
  | nil => rfl
  | cons => cases ht

/-- The body that the pattern text of a root is read as. -/
def bodyAsRead (body : Node) : Node :=
  if body.text = [] then group .nonCapturing empty else body.asRead

/-- The body that the pattern text of a root is read as, octal escapes in classes included. -/
def bodyReadBack (body : Node) : Node := bodyAsRead body.asSpelled

/-- A body whose text splits into the tokens of the body that it is read back as. -/
structure Legible (body : Node) : Prop where
  lexed : body.Lexed
  apart : body.ClassesApart
  named : body.Named

variable {body : Node} {flags : Flags}

theorem bodyReadBack_eq (body : Node) :
    bodyReadBack body = if body.text = [] then group .nonCapturing empty else body.readBack := by
  rw [bodyReadBack, bodyAsRead]
  exact if_congr text_asSpelled_eq_nil rfl rfl

namespace Legible

/-- The text of a body splits into the tokens of the tree that it is read back as. -/
theorem splits (h : Legible body) : Splits false body.text [] body.readBack.yield false :=
  splits_text_of_worded h.lexed.worded h.apart h.named [] (fun _ => noQuestion_nil)
    fun _ => noDigit_nil

/-- A body without text is read back as the empty sequence. -/
theorem readBack_eq_empty (h : Legible body) (htext : body.text = []) : body.readBack = empty :=
  eq_empty_of_yield_eq_nil (grammatical_readBack h.lexed) (eq_nil_of_splits_nil h.splits htext)

/-- The pattern text of a root splits into the tokens of the body that it is read back as. -/
theorem splits_pattern (h : Legible body) (flags : Flags) :
    Splits false (pattern (regExp body flags)) [] (bodyReadBack body).yield false := by
  rw [bodyReadBack_eq]
  by_cases htext : body.text = []
  · have hpattern : pattern (regExp body flags) = emptyBody := if_pos htext
    rw [hpattern, if_pos htext]
    have hopen : Splits false (GroupKind.opening .nonCapturing) [')'] [.groupOpen .nonCapturing]
        false := splits_opening (fun _ _ h => by cases h) fun _ h => by cases h
    exact hopen.append (splits_closing [])
  · have hpattern : pattern (regExp body flags) = body.text := if_neg htext
    rw [hpattern, if_neg htext]
    exact h.splits

theorem grammatical_bodyReadBack (h : Legible body) : (bodyReadBack body).grammatical = true := by
  rw [bodyReadBack_eq]
  split
  · rfl
  · exact grammatical_readBack h.lexed

theorem captures_bodyReadBack (h : Legible body) :
    (bodyReadBack body).captures = body.captures := by
  rw [← captures_readBack body, bodyReadBack_eq]
  split
  · rename_i htext
    rw [h.readBack_eq_empty htext]
    rfl
  · rfl

theorem references_bodyReadBack (h : Legible body) :
    (bodyReadBack body).references = body.references := by
  rw [← references_readBack body, bodyReadBack_eq]
  split
  · rename_i htext
    rw [h.readBack_eq_empty htext]
    rfl
  · rfl

/-- The tokens of the pattern text nest as deep as the groups of the body that it is read back
as. -/
theorem nesting_pattern (h : Legible body) {ts : List Token}
    (hts : tokenize (pattern (regExp body flags)) = .ok ts) :
    nesting 0 (ts.map Token.kind) = (bodyReadBack body).groupDepth := by
  obtain ⟨us, hus, hkinds⟩ := tokenize_of_splits (h.splits_pattern flags)
  rw [hts] at hus
  cases hus
  have hyield := nesting_yield (bodyReadBack body) 0 []
  rw [List.append_nil] at hyield
  rw [hkinds, hyield, nesting]
  omega

/-- The body read back is well formed when its groups are numbered and named like those of a tree
that was read, and it nests within the limit. -/
theorem wellFormed (h : Legible body) (hdepth : (bodyReadBack body).groupDepth ≤ Parser.maxDepth)
    (hnumbers : body.captures.map Prod.fst = List.range' 1 body.captures.length)
    (hnames : ((groupNames body.captures).map Prod.fst).Nodup)
    (hresolved : ∀ r ∈ body.references, targets body.captures r.1 r.2) :
    (bodyReadBack body).WellFormed where
  shape := h.grammatical_bodyReadBack
  depth := hdepth
  numbers := by rw [h.captures_bodyReadBack, hnumbers]
  names := by rw [h.captures_bodyReadBack]; exact hnames
  resolved := by
    rw [h.references_bodyReadBack, h.captures_bodyReadBack]
    exact hresolved

/-- The parts of the text of a root are read as the root with its body read back, when that is well
formed. -/
theorem parseWithFlags_eq (h : Legible body) (hwell : (bodyReadBack body).WellFormed) :
    Source.parseWithFlags (regExp body flags).pattern flags.text =
      .ok (regExp (bodyReadBack body) flags) := by
  obtain ⟨ts, hlex, hkinds⟩ := tokenize_of_splits (h.splits_pattern flags)
  have hbody : Source.parseBody (regExp body flags).pattern flags =
      .ok (regExp (bodyReadBack body) flags) :=
    Parser.parseBody_eq_ok.2 ⟨ts, _, hlex, Parser.parseTokens_of_wellFormed hwell hkinds, rfl⟩
  rw [Source.parseWithFlags, Flags.parse_text]
  exact hbody

end Legible

/-! ### Trees without octal escapes in classes -/

/-- A body whose names and references can be written. -/
structure Writable (body : Node) : Prop where
  built : body.Built
  names : ∀ p ∈ groupNames body.captures, isIdentifier p.1 = true
  references : ∀ r ∈ body.references, Token.writable r.1

theorem bodyReadBack_of_built (hbody : body.Built) : bodyReadBack body = bodyAsRead body := by
  rw [bodyReadBack, asSpelled_of_built hbody]

theorem Writable.legible (h : Writable body) : Legible body :=
  ⟨h.built.lexed, classesApart_of_built h.built, ⟨h.names, h.references⟩⟩

/-- A body without text is read as the empty sequence. -/
theorem Writable.asRead_eq_empty (h : Writable body) (htext : body.text = []) :
    body.asRead = empty := by
  rw [← h.legible.readBack_eq_empty htext, readBack, asSpelled_of_built h.built]

theorem Writable.grammatical_bodyAsRead (h : Writable body) :
    (bodyAsRead body).grammatical = true := by
  rw [← bodyReadBack_of_built h.built]
  exact h.legible.grammatical_bodyReadBack

theorem Writable.captures_bodyAsRead (h : Writable body) :
    (bodyAsRead body).captures = body.captures := by
  rw [← bodyReadBack_of_built h.built, h.legible.captures_bodyReadBack]

theorem Writable.references_bodyAsRead (h : Writable body) :
    (bodyAsRead body).references = body.references := by
  rw [← bodyReadBack_of_built h.built, h.legible.references_bodyReadBack]

theorem Writable.outcomes_bodyAsRead (h : Writable body) (s : Subject) :
    outcomes s (bodyAsRead body) = outcomes s body := by
  rw [← outcomes_asRead s body, bodyAsRead]
  split
  · rename_i htext
    rw [h.asRead_eq_empty htext, outcomes_group, grouped_nonCapturing]
  · rfl

/-- The tokens of the pattern text nest as deep as the groups of the body that it is read as. -/
theorem Writable.nesting_pattern (h : Writable body) {ts : List Token}
    (hts : tokenize (pattern (regExp body flags)) = .ok ts) :
    nesting 0 (ts.map Token.kind) = (bodyAsRead body).groupDepth := by
  rw [h.legible.nesting_pattern hts, bodyReadBack_of_built h.built]

/-- A printable tree can be written. -/
theorem Printable.writable (h : Printable body flags) : Writable body where
  built := h.built
  names := h.identifiers
  references := by
    intro r hr
    have htarget := h.resolved r hr
    obtain ⟨target, number⟩ := r
    cases target with
    | number m => exact ⟨htarget.2.1, h.words m number hr⟩
    | name t => exact h.identifiers (t, number) (mem_groupNames.2 htarget)

/-- The body that a printable tree is read as is well formed. -/
theorem Printable.wellFormed (h : Printable body flags) : (bodyAsRead body).WellFormed := by
  have hlegible := h.writable.legible
  obtain ⟨ts, hlex, -⟩ := tokenize_of_splits (hlegible.splits_pattern flags)
  have hdepth : (bodyReadBack body).groupDepth ≤ Parser.maxDepth := by
    rw [← hlegible.nesting_pattern hlex]
    exact h.nested ts hlex
  rw [← bodyReadBack_of_built h.built]
  exact hlegible.wellFormed hdepth h.numbers h.names h.resolved

/-- The parts of the text of a printable tree are read as the tree with its body read back. -/
theorem Printable.parseWithFlags_eq (h : Printable body flags) :
    Source.parseWithFlags (regExp body flags).pattern flags.text =
      .ok (regExp (bodyAsRead body) flags) := by
  rw [← bodyReadBack_of_built h.built]
  exact h.writable.legible.parseWithFlags_eq (bodyReadBack_of_built h.built ▸ h.wellFormed)

end RegexKit.Node
