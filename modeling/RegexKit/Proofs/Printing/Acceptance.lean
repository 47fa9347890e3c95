import RegexKit.Proofs.Printing.RoundTrip

/-! When a printed pattern is accepted again. The reader counts groups, and the printer adds groups
of its own without counting them. The text of a tree that was read nests as deep as the tree with
the added groups in it, which is at most one level deeper than the tree, and it is accepted exactly
when that is within the limit of the reader. -/

namespace RegexKit.Node

open RegexKit.Token

/-! ### Changes that keep depth -/

theorem groupDepth_unmark (n : Node) : n.unmark.groupDepth = n.groupDepth := by
  induction n with
  | regExp _ _ ih => exact ih
  | alternative es ih =>
    rw [unmark, unmarkAll_eq]
    exact groupDepthList_map ih
  | disjunction bs ih =>
    rw [unmark, unmarkAll_eq]
    exact groupDepthList_map ih
  | group _ _ ih => exact congrArg (· + 1) ih
  | charClass _ ms ih =>
    rw [unmark, unmarkAll_eq]
    exact groupDepthList_map ih
  | repetition _ _ _ _ ih => exact ih
  | backreference _ _ | assertion _ | char _ | classRange _ _ => rfl

theorem groupDepthList_spelled (ms : List Node) :
    groupDepthList (spelled ms) = groupDepthList ms := by
  have hmember : ∀ m : Node, (respellMember m).groupDepth = m.groupDepth := fun m => by
    cases m <;> rfl
  induction ms with
  | nil => rfl
  | cons m ms ih =>
    rw [spelled, groupDepthList, groupDepthList, ih]
    split
    · rw [hmember]
    · rfl

theorem groupDepth_asSpelled (n : Node) : n.asSpelled.groupDepth = n.groupDepth := by
  induction n with
  | regExp _ _ ih => exact ih
  | alternative es ih =>
    rw [asSpelled, asSpelledAll_eq]
    exact groupDepthList_map ih
  | disjunction bs ih =>
    rw [asSpelled, asSpelledAll_eq]
    exact groupDepthList_map ih
  | group _ _ ih => exact congrArg (· + 1) ih
  | charClass _ ms _ => exact groupDepthList_spelled ms
  | repetition _ _ _ _ ih => exact ih
  | backreference _ _ | assertion _ | char _ | classRange _ _ => rfl

theorem tidy_asSpelled {n : Node} (hn : n.tidy = true) : n.asSpelled.tidy = true := by
  have hall : ∀ {parent : Option NodeType} {ns : List Node},
      (∀ n ∈ ns, n.tidy = true → n.asSpelled.tidy = true) → tidyAll parent ns = true →
        tidyAll parent (asSpelledAll ns) = true := fun ih hns => by
    rw [asSpelledAll_eq, tidyAll_iff]
    refine List.forall_mem_map.2 fun n hn => ?_
    obtain ⟨hstands, htidy⟩ := tidyAll_iff.1 hns n hn
    exact ⟨by rwa [mayStand_asSpelled], ih n hn htidy⟩
  induction n with
  | regExp _ _ ih => exact ih hn
  | alternative _ ih => exact hall ih hn
  | disjunction _ ih => exact hall ih hn
  | group _ _ ih => exact ih hn
  | repetition e _ _ _ ih =>
    simp only [tidy, Bool.and_eq_true] at hn
    rw [asSpelled, tidy, mayStand_asSpelled, hn.1, ih hn.2]
    rfl
  | backreference _ _ | assertion _ | char _ | charClass _ _ _ | classRange _ _ => rfl

/-- The printer adds the same groups however classes are spelled. -/
theorem regroup_asSpelled (n : Node) : n.asSpelled.regroup = n.regroup.asSpelled := by
  induction n with
  | regExp b flags ih =>
    rw [asSpelled, regroup, regroup, asSpelled]
    simp only [asSpelled_eq_empty]
    split
    · rfl
    · rw [ih]
  | alternative es ih =>
    have hparts : regroupParts (asSpelledAll es) = asSpelledAll (regroupParts es) := by
      induction es with
      | nil => rfl
      | cons e es ihes =>
        rw [asSpelledAll, regroupParts, regroupParts, asSpelledAll, isOctalEscape_asSpelled,
          digitNext_asSpelledAll, ihes fun k hk => ih k (List.mem_cons_of_mem _ hk)]
        split
        · rfl
        · rw [ih e List.mem_cons_self]
    exact congrArg alternative hparts
  | disjunction bs ih =>
    rw [asSpelled, regroup, regroup, asSpelled, asSpelledAll_eq, asSpelledAll_eq, regroupAll_eq,
      regroupAll_eq, List.map_map, List.map_map]
    exact congrArg disjunction (List.map_congr_left ih)
  | group kind e ih => exact congrArg (group kind) ih
  | repetition e min max greedy ih => exact congrArg (repetition · min max greedy) ih
  | backreference _ _ | assertion _ | char _ | charClass _ _ _ | classRange _ _ => rfl

/-! ### The depth of what was read -/

variable {body : Node} {flags : Flags}

/-- The body read back nests as deep as the root with the groups that the printer adds. -/
theorem groupDepth_bodyReadBack (hn : body.grammatical = true) (hp : Produced false body.yield) :
    (bodyReadBack body).groupDepth = (regExp body flags).regroup.groupDepth :=
  calc
    (bodyReadBack body).groupDepth
      = (regExp (bodyReadBack body) flags).unmark.groupDepth :=
        (groupDepth_unmark (regExp (bodyReadBack body) flags)).symm
    _ = (regExp body flags).asSpelled.regroup.unmark.groupDepth := by
        rw [unmark_bodyReadBack hn hp]
    _ = (regExp body flags).regroup.groupDepth := by
        rw [groupDepth_unmark, regroup_asSpelled, groupDepth_asSpelled]

/-- The groups that the printer adds do not nest in one another. -/
theorem groupDepth_regroup_le (hn : body.grammatical = true) (hp : Produced false body.yield) :
    (regExp body flags).regroup.groupDepth ≤ (regExp body flags).groupDepth + 1 := by
  have htidy := tidy_asSpelled (tidy_of_grammatical hn)
  have hbody : (bodyReadBack body).groupDepth ≤ body.asSpelled.groupDepth + 1 :=
    groupDepth_bodyAsRead htidy
  rwa [groupDepth_bodyReadBack hn hp, groupDepth_asSpelled] at hbody

/-- A text that the reader accepts nests within its limit. -/
theorem Legible.groupDepth_le (h : Legible body) {n : Node}
    (hparse : Source.parse (regExp body flags).fullText = .ok n) :
    (bodyReadBack body).groupDepth ≤ Parser.maxDepth := by
  rw [Source.parse_fullText, Source.parseWithFlags, Flags.parse_text] at hparse
  obtain ⟨ts, t, hlex, htree, -⟩ := Parser.parseBody_eq_ok.1 hparse
  obtain ⟨hwell, hyield⟩ :=
    Parser.wellFormed_of_parseTokens (produced_of_tokenize hlex).plainDashes htree
  have hnests := nesting_yield t 0 []
  have hdepth := hwell.depth
  rw [List.append_nil, hyield, h.nesting_pattern hlex, nesting] at hnests
  omega

/-! ### Acceptance -/

/-- A source that is read is printed, and when no class of it has members that run together, the
text is accepted exactly if the tree with the groups that the printer adds nests within the limit of
the reader. That tree nests at most one level deeper than the tree that was read. -/
theorem accepts_printed_iff {source : Text} {n : Node} (h : Source.parse source = .ok n)
    (hapart : n.ClassesApart) :
    n.render = .ok n.fullText ∧ n.regroup.groupDepth ≤ n.groupDepth + 1 ∧
      ((∃ n', Source.parse n.fullText = .ok n') ↔ n.regroup.groupDepth ≤ Parser.maxDepth) := by
  obtain ⟨body, flags, rfl, hwell, hp⟩ := Source.exists_of_parse h
  have hlegible : Legible body :=
    ⟨lexed_of_produced hwell.shape hp, hapart.child List.mem_cons_self, named_of_produced hwell hp⟩
  refine ⟨render_regExp (badBounds?_of_grammatical hwell.shape) flags,
    groupDepth_regroup_le hwell.shape hp, ?_⟩
  rw [← groupDepth_bodyReadBack hwell.shape hp]
  constructor
  · rintro ⟨n', hparse⟩
    exact hlegible.groupDepth_le hparse
  · intro hdepth
    have hread := hlegible.wellFormed hdepth hwell.numbers hwell.names hwell.resolved
    refine ⟨regExp (bodyReadBack body) flags, ?_⟩
    rw [Source.parse_fullText]
    exact hlegible.parseWithFlags_eq hread

/-- The text of `/([\01-8]\0001)/` is accepted, with a second group around the octal escape. -/
theorem accepts_printed_octal_in_group :
    ∃ n, Source.parse ['/', '(', '[', '\\', '0', '1', '-', '8', ']', '\\', '0', '0', '0', '1', ')',
        '/'] = .ok n ∧ n.ClassesApart ∧ n.regroup.groupDepth = 2 ∧
      ∃ n', Source.parse n.fullText = .ok n' := by
  have hsource : Source.parse ['/', '(', '[', '\\', '0', '1', '-', '8', ']', '\\', '0', '0', '0',
      '1', ')', '/'] = .ok (regExp (group (.capturing 1 none) (alternative
        [charClass false [classRange ⟨['\\', '0', '1'], .octal, false⟩ (.simple '8')],
          char ⟨['\\', '0', '0', '0'], .octal, false⟩, char (.simple '1')])) {}) := by
    decide +kernel
  obtain ⟨-, -, haccepts⟩ := accepts_printed_iff hsource (by decide)
  exact ⟨_, hsource, by decide, by decide, haccepts.2 (by decide)⟩

/-- Groups nested up to the limit around `\0001` are read, but the group that the printer adds
around `\000` is one too many. -/
theorem refuses_printed_at_limit :
    ∃ n, Source.parse ('/' :: (List.replicate Parser.maxDepth '(' ++ ['\\', '0', '0', '0', '1'] ++
        List.replicate Parser.maxDepth ')' ++ ['/'])) = .ok n ∧ n.render = .ok n.fullText ∧
      Source.parse n.fullText = .error (.parse ⟨.nestingTooDeep, Parser.maxDepth⟩) := by
  have hread : ((Source.parse ('/' :: (List.replicate Parser.maxDepth '(' ++
      ['\\', '0', '0', '0', '1'] ++ List.replicate Parser.maxDepth ')' ++ ['/']))).bind fun n =>
        .ok (n.badBounds?, Source.parse n.fullText)) =
      .ok (none, .error (.parse ⟨.nestingTooDeep, Parser.maxDepth⟩)) := by decide +kernel
  cases hsource : Source.parse ('/' :: (List.replicate Parser.maxDepth '(' ++
      ['\\', '0', '0', '0', '1'] ++ List.replicate Parser.maxDepth ')' ++ ['/'])) with
  | error e =>
    rw [hsource] at hread
    cases hread
  | ok n =>
    rw [hsource] at hread
    obtain ⟨hbounds, hrefused⟩ := Prod.mk.inj (Except.ok.inj hread)
    exact ⟨n, rfl, by rw [render, hbounds], hrefused⟩

/-- The members of `[\1\0602-5]` run together: the text `[\102-5]` has a range out of order. -/
example : ((Source.parse ['/', '[', '\\', '1', '\\', '0', '6', '0', '2', '-', '5', ']', '/']).bind
    fun n => Source.parse n.fullText) =
      .error (.parse ⟨.rangeOutOfOrder ['\\', '1', '0', '2'] ['5'], 1⟩) := by decide +kernel

end RegexKit.Node
