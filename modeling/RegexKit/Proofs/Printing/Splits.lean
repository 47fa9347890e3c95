import RegexKit.Proofs.Printing.Spelled

/-! How a printed tree splits into tokens. Wherever the text of a tree stands, it splits
into the tokens of the tree that it is read back as, when the members of its classes do not run
together; the parentheses that the printer adds are what keeps adjacent texts apart. -/

namespace RegexKit.Node

open RegexKit.Token

/-! ### The tokens of the tree read back -/

theorem yield_assemble (bs : List (List Node)) :
    (assemble bs).yield = yieldBranches (bs.map (Parser.collapse .alternative)) := by
  rw [assemble, Parser.yield_collapse_disjunction]

theorem yield_asRead_of_not_choice {n : Node} (hn : n.isChoice = false) :
    n.asRead.yield = yieldList (readBranches n).flatten := by
  rw [asRead_of_not_choice hn, Parser.yield_collapse_alternative]

theorem readBranches_ne_nil {n : Node} (hn : n.Worded) : readBranches n.asSpelled ≠ [] := by
  induction n with
  | disjunction bs ih =>
    cases bs with
    | nil => exact absurd rfl hn.1
    | cons b bs =>
      have hb := ih b List.mem_cons_self (wordedAll_iff.1 hn.2 b List.mem_cons_self)
      simp [asSpelled, asSpelledAll, readBranches, readChoices, hb]
  | _ => simp [asSpelled, readBranches]

theorem yieldBranches_append {bs cs : List Node} (hbs : bs ≠ []) (hcs : cs ≠ []) :
    yieldBranches (bs ++ cs) = yieldBranches bs ++ .bar :: yieldBranches cs := by
  cases bs with
  | nil => exact absurd rfl hbs
  | cons b bs =>
    cases cs with
    | nil => exact absurd rfl hcs
    | cons c cs => simp [yieldBranches, yieldMore_append, yieldMore]

theorem yield_readBack_alternative (es : List Node) :
    (alternative es).readBack.yield = yieldList (readParts (asSpelledAll es)) := by
  rw [readBack, asSpelled, yield_asRead_of_not_choice rfl, readBranches, List.flatten_singleton]

/-- A sequence is read part by part, in parentheses where the printer puts them. -/
theorem yield_readParts_cons (e : Node) (es : List Node) :
    yieldList (readParts (asSpelledAll (e :: es))) =
      (if isWrapped e es then .groupOpen .nonCapturing :: e.readBack.yield ++ [.groupClose]
        else e.readBack.yield) ++ yieldList (readParts (asSpelledAll es)) := by
  rw [asSpelledAll, readParts, yieldList_append, isWrapped_asSpelled]
  cases hwrap : isWrapped e es with
  | true => simp [yieldList, yield, readBack, asRead, GroupKind.opener]
  | false =>
    have hchoice : e.isChoice = false := by
      simp only [isWrapped, Bool.or_eq_false_iff] at hwrap
      exact hwrap.1
    rw [if_neg Bool.false_ne_true, if_neg Bool.false_ne_true,
      ← yield_asRead_of_not_choice ((isChoice_asSpelled e).trans hchoice)]
    rfl

/-- The branches of a choice are read one after the other, those of a choice among them
included. -/
theorem yield_readBack_disjunction {b : Node} {bs : List Node} (hb : b.Worded)
    (hbs : WordedAll bs) :
    (disjunction (b :: bs)).readBack.yield =
      b.readBack.yield ++ if bs = [] then [] else .bar :: (disjunction bs).readBack.yield := by
  simp only [readBack, asRead, yield_assemble, asSpelled, asSpelledAll, readBranches, readChoices,
    List.map_append]
  cases bs with
  | nil => simp [asSpelledAll, readChoices]
  | cons c cs =>
    have hc := readBranches_ne_nil (n := disjunction (c :: cs)) ⟨by simp, hbs⟩
    rw [asSpelled, readBranches] at hc
    rw [yieldBranches_append (by simpa using readBranches_ne_nil hb) (by simpa using hc)]
    rfl

/-! ### The tokens of the text -/

/-- Where nothing that follows runs into it, the text of the node splits into the tokens of the
tree that it is read back as. -/
def SplitsAsRead (n : Node) : Prop :=
  ∀ u, (n.isAtom = false → noQuestion u) → (n.endsOpen = true ∨ n.isChoice = true → noDigit u) →
    Splits false n.text u n.readBack.yield false

/-- Nothing runs into a text that a parenthesis closes. -/
theorem SplitsAsRead.enclosed {e : Node} (he : SplitsAsRead e) (hworded : e.Worded)
    (kind : GroupKind)
    (hname : ∀ number name, kind = .capturing number (some name) → isIdentifier name = true)
    (u : Text) : Splits false (kind.opening ++ e.text ++ [')']) u
      (.groupOpen kind.opener :: e.readBack.yield ++ [.groupClose]) false := by
  have hclose : noQuestion (')' :: u) := noQuestion_cons (by decide) u
  have hbody : Splits false e.text ([')'] ++ u) e.readBack.yield false :=
    he (')' :: u) (fun _ => hclose) fun _ => noDigit_cons (by decide) u
  have hopening : Splits false kind.opening (e.text ++ [')'] ++ u) [.groupOpen kind.opener]
      false := by
    rw [List.append_assoc]
    exact splits_opening hname fun _ _ => noQuestion_text_append hworded hclose
  rw [List.append_assoc]
  exact hopening.append (hbody.append (splits_closing u))

theorem SplitsAsRead.wrapped {e : Node} (he : SplitsAsRead e) (hworded : e.Worded) (u : Text) :
    Splits false (wrap e.text) u (.groupOpen .nonCapturing :: e.readBack.yield ++ [.groupClose])
      false :=
  he.enclosed hworded .nonCapturing (fun _ _ h => by cases h) u

/-- The parts of a sequence do not run together. -/
theorem splits_parts {es : List Node} (hes : WordedAll es) (ih : ∀ e ∈ es, SplitsAsRead e)
    {u : Text} (hquestion : noQuestion u) (hdigit : lastEndsOpen es = true → noDigit u) :
    Splits false (alternative es).text u (yieldList (readParts (asSpelledAll es))) false := by
  induction es generalizing u with
  | nil => exact .nil false u
  | cons e es ihes =>
    obtain ⟨he, hes⟩ := hes
    have hrest :
        Splits false (alternative es).text u (yieldList (readParts (asSpelledAll es))) false := by
      refine ihes hes (fun k hk => ih k (List.mem_cons_of_mem _ hk)) hquestion
        fun hopen => hdigit ?_
      rw [lastEndsOpen, if_neg fun hall => ?_]
      · exact hopen
      · rw [lastEndsOpen_of_allPrintNothing hall] at hopen
        cases hopen
    rw [text_alternative_cons, yield_readParts_cons]
    refine Splits.append ?_ hrest
    cases hwrap : isWrapped e es with
    | true =>
      rw [if_pos rfl, if_pos rfl]
      exact (ih e List.mem_cons_self).wrapped he _
    | false =>
      simp only [isWrapped, Bool.or_eq_false_iff, Bool.and_eq_false_iff] at hwrap
      obtain ⟨hchoice, hopen⟩ := hwrap
      rw [if_neg Bool.false_ne_true, if_neg Bool.false_ne_true]
      refine ih e List.mem_cons_self _ (fun _ => ?_) fun h => ?_
      · exact noQuestion_text_append (n := alternative es) hes hquestion
      · have hopens : e.endsOpen = true := by simpa [hchoice] using h
        have hfollows : digitFollows es = false := by simpa [hopens] using hopen
        refine noDigit_text_append hes hfollows fun hall => hdigit ?_
        rw [lastEndsOpen, if_pos hall]
        exact hopens

/-- The branches of a choice stand between bars. -/
theorem splits_branches {bs : List Node} (hne : bs ≠ []) (hbs : WordedAll bs)
    (ih : ∀ b ∈ bs, SplitsAsRead b) {u : Text} (hquestion : noQuestion u) (hdigit : noDigit u) :
    Splits false (disjunction bs).text u (disjunction bs).readBack.yield false := by
  induction bs with
  | nil => exact absurd rfl hne
  | cons b bs ihbs =>
    obtain ⟨hb, hbs⟩ := hbs
    rw [text_disjunction_cons, yield_readBack_disjunction hb hbs]
    split
    · rw [List.append_nil, List.append_nil]
      exact ih b List.mem_cons_self u (fun _ => hquestion) fun _ => hdigit
    · rename_i hne'
      have hmore := (splits_bar _).append
        (ihbs hne' hbs fun k hk => ih k (List.mem_cons_of_mem _ hk))
      refine Splits.append ?_ hmore
      exact ih b List.mem_cons_self _ (fun _ => noQuestion_cons (by decide) _)
        fun _ => noDigit_cons (by decide) _

theorem noDigit_quantifierText (min : Nat) (max : Option Nat) (greedy : Bool) (u : Text) :
    noDigit (quantifierText min max greedy ++ u) := by
  rw [quantifierText]
  unfold boundsText
  split <;> try split
  all_goals exact noDigit_cons (by decide) _

theorem mem_groupNames {groups : List (Nat × Option Text)} {p : Text × Nat} :
    p ∈ groupNames groups ↔ (p.2, some p.1) ∈ groups := by
  rw [groupNames, List.mem_filterMap]
  constructor
  · rintro ⟨g, hg, hname⟩
    obtain ⟨name, hsome, rfl⟩ := Option.map_eq_some_iff.1 hname
    rw [← hsome]
    exact hg
  · exact fun h => ⟨_, h, rfl⟩

theorem mem_groupNames_of_mem {ns : List Node} {n : Node} (hn : n ∈ ns) {p : Text × Nat}
    (hp : p ∈ groupNames n.captures) : p ∈ groupNames (capturesList ns) := by
  rw [mem_groupNames] at hp ⊢
  rw [capturesList_eq]
  exact List.mem_flatMap.2 ⟨n, hn, hp⟩

theorem mem_referencesList {ns : List Node} {n : Node} (hn : n ∈ ns) {r : RefTarget × Nat}
    (hr : r ∈ n.references) : r ∈ referencesList ns := by
  rw [Parser.referencesList_eq]
  exact List.mem_flatMap.2 ⟨n, hn, hr⟩

/-- Groups are named with identifiers, and references can be written. -/
structure Named (n : Node) : Prop where
  groups : ∀ p ∈ groupNames n.captures, isIdentifier p.1 = true
  references : ∀ r ∈ n.references, writable r.1

theorem Named.child {n c : Node} (h : n.Named) (hc : c ∈ n.children) : c.Named := by
  cases n with
  | alternative ns | disjunction ns | charClass _ ns =>
    exact ⟨fun p hp => h.groups p (mem_groupNames_of_mem hc hp),
      fun r hr => h.references r (mem_referencesList hc hr)⟩
  | group kind e =>
    obtain rfl := List.mem_singleton.1 hc
    refine ⟨fun p hp => h.groups p ?_, h.references⟩
    rw [mem_groupNames] at hp ⊢
    rw [Parser.captures_group]
    exact List.mem_append_right _ hp
  | regExp e _ | repetition e _ _ _ =>
    obtain rfl := List.mem_singleton.1 hc
    exact ⟨h.groups, h.references⟩
  | backreference _ _ | assertion _ | char _ | classRange _ _ => cases hc

/-- The name of a group. -/
theorem Named.isIdentifier_of_group {kind : GroupKind} {e : Node} (h : (group kind e).Named) :
    ∀ number name, kind = .capturing number (some name) → isIdentifier name = true := by
  intro number name hkind
  subst hkind
  exact h.groups (name, number) (by simp [captures, groupNames])

theorem Named.writable_of_backreference {target : RefTarget} {number : Nat}
    (h : (backreference target number).Named) : writable target :=
  h.references (target, number) (by simp [Node.references])

/-- The text of a worded tree splits into the tokens of the tree that it is read back as, when the
members of its classes do not run together. -/
theorem splits_text_of_worded {n : Node} (hn : n.Worded) (hapart : n.ClassesApart)
    (hnamed : n.Named) : SplitsAsRead n := by
  induction n with
  | regExp _ _ _ | classRange _ _ => cases hn
  | alternative es ih =>
    intro u hquestion hdigit
    have hall : ∀ e ∈ es, SplitsAsRead e := fun e he =>
      ih e he (wordedAll_iff.1 hn e he) (hapart.child he) (hnamed.child he)
    rw [yield_readBack_alternative]
    exact splits_parts hn hall (hquestion rfl) fun hopen => hdigit (.inl hopen)
  | disjunction bs ih =>
    intro u hquestion hdigit
    have hall : ∀ b ∈ bs, SplitsAsRead b := fun b hb =>
      ih b hb (wordedAll_iff.1 hn.2 b hb) (hapart.child hb) (hnamed.child hb)
    exact splits_branches hn.1 hn.2 hall (hquestion rfl) (hdigit (.inr rfl))
  | group kind e ih =>
    intro u _ _
    have he := ih hn (hapart.child List.mem_cons_self) (hnamed.child List.mem_cons_self)
    exact he.enclosed hn kind hnamed.isIdentifier_of_group u
  | backreference target number =>
    intro u _ hdigit
    refine splits_reference hnamed.writable_of_backreference fun m hm => ?_
    subst hm
    exact hdigit (.inl rfl)
  | assertion kind => exact fun u _ _ => splits_assertion kind u
  | char c =>
    intro u _ hdigit
    refine splits_text hn fun hoctal => hdigit (.inl ?_)
    simp [endsOpen, hoctal]
  | charClass negated ms _ =>
    intro u _ _
    rw [readBack, asSpelled, asRead_charClass]
    exact splits_charClass_spelled hn (classesApart_iff.1 hapart).1 negated u
  | repetition e min max greedy ih =>
    intro u hquestion _
    obtain ⟨hworded, -, hmin, hmax⟩ := hn
    have he := ih hworded (hapart.child List.mem_cons_self) (hnamed.child List.mem_cons_self)
    have hquantifier := splits_quantifier greedy hmin hmax (hquestion rfl)
    have htext : (repetition e min max greedy).text =
        (if e.isAtom then e.text else wrap e.text) ++ quantifierText min max greedy := rfl
    rw [htext, readBack, asSpelled, asRead_repetition, isAtom_asSpelled, yield]
    refine Splits.append ?_ hquantifier
    split
    · rename_i hatom
      refine he _ (fun hnot => ?_) fun _ => ?_
      · rw [hatom] at hnot
        cases hnot
      · exact noDigit_quantifierText min max greedy u
    · have hgroup : (group .nonCapturing e.asSpelled.asRead).yield =
          .groupOpen .nonCapturing :: e.readBack.yield ++ [.groupClose] := rfl
      rw [hgroup]
      exact he.wrapped hworded _

end RegexKit.Node
