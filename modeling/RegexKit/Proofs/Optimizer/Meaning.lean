import RegexKit.Proofs.Match.Algebra
import RegexKit.Proofs.Node.Members
import RegexKit.Proofs.Optimizer.ClassMembers
import RegexKit.Proofs.Optimizer.Rules

/-! The optimizer keeps the meaning. Every replacement that a rule makes has the outcomes of
the node it replaces, in the same order and for every input, position and captures; as
meanings are built from the meanings of the parts, the whole tree keeps its outcomes through
any number of rounds. -/

namespace RegexKit.Optimizer

open Match

/-- The second node has the outcomes of the first, whose classes hold characters and ranges
only; such a member of a class is the same. -/
structure Agree (s : Subject) (n m : Node) : Prop where
  member : n.isMember = true → m = n
  plain : n.plainClasses = true → m.plainClasses = true
  outcomes : n.plainClasses = true → outcomes s m = outcomes s n

variable {s : Subject}

theorem Agree.refl (n : Node) : Agree s n n := ⟨fun _ => rfl, id, fun _ => rfl⟩

theorem Agree.trans {a b c : Node} (hab : Agree s a b) (hbc : Agree s b c) : Agree s a c where
  member h := by
    obtain rfl := hab.member h
    exact hbc.member h
  plain h := hbc.plain (hab.plain h)
  outcomes h := (hbc.outcomes (hab.plain h)).trans (hab.outcomes h)

theorem Agree.plainList {ns ms : List Node} (h : List.Forall₂ (Agree s) ns ms)
    (hns : Node.plainClassesList ns = true) : Node.plainClassesList ms = true := by
  induction h with
  | nil => rfl
  | cons hn _ ih =>
    simp only [Node.plainClassesList, Bool.and_eq_true] at hns ⊢
    exact ⟨hn.plain hns.1, ih hns.2⟩

theorem Agree.inSequence {ns ms : List Node} (h : List.Forall₂ (Agree s) ns ms)
    (hns : Node.plainClassesList ns = true) : inSequence s ms = inSequence s ns := by
  induction h with
  | nil => rfl
  | cons hn _ ih =>
    simp only [Node.plainClassesList, Bool.and_eq_true] at hns
    rw [inSequence_cons, inSequence_cons, hn.outcomes hns.1, ih hns.2]

theorem Agree.anyOf {ns ms : List Node} (h : List.Forall₂ (Agree s) ns ms)
    (hns : Node.plainClassesList ns = true) : anyOf s ms = anyOf s ns := by
  induction h with
  | nil => rfl
  | cons hn _ ih =>
    simp only [Node.plainClassesList, Bool.and_eq_true] at hns
    rw [anyOf_cons, anyOf_cons, hn.outcomes hns.1, ih hns.2]

theorem Agree.members {ns ms : List Node} (h : List.Forall₂ (Agree s) ns ms)
    (hns : ns.all Node.isMember = true) : ms = ns := by
  induction h with
  | nil => rfl
  | cons hn _ ih =>
    simp only [List.all_cons, Bool.and_eq_true] at hns
    rw [hn.member hns.1, ih hns.2]

/-- Agreement of the parts is agreement of the whole. -/
theorem congruence_agree (s : Subject) : Rewrite.Congruence fun _ n m => Agree s n m where
  refl _ := Agree.refl
  trans := Agree.trans
  regExp _ h := ⟨nofun, h.plain, fun hp => by rw [outcomes, outcomes, h.outcomes hp]⟩
  alternative h := ⟨nofun, Agree.plainList h, fun hp => by simp [Agree.inSequence h hp]⟩
  disjunction h := ⟨nofun, Agree.plainList h, fun hp => by simp [Agree.anyOf h hp]⟩
  group _ h := ⟨nofun, h.plain, fun hp => by simp [h.outcomes hp]⟩
  charClass _ h :=
    ⟨nofun, fun hp => by rwa [Agree.members h hp], fun hp => by rw [Agree.members h hp]⟩
  repetition _ _ _ h := ⟨nofun, h.plain, fun hp => by simp [h.outcomes hp]⟩

/-! ### Degenerate quantifiers -/

theorem agree_degenerate {parent : Option NodeType} {a b : Node}
    (h : Degenerate.rewrite parent a = some b) : Agree s a b := by
  obtain ⟨greedy, rfl⟩ := Degenerate.once?_eq_some h
  exact ⟨nofun, id, fun _ => by simp [repeated_one]⟩

/-! ### Fusion -/

theorem outcomes_fuse? {previous n m : Node} (h : Fusion.fuse? previous n = some m) :
    andThen (outcomes s previous) (outcomes s n) = outcomes s m := by
  obtain ⟨min, max, greedy, rfl, rfl, -⟩ := Fusion.fuse?_eq_some h
  simp [andThen_repeated]

theorem inSequence_fuseOnto (done ns : List Node) :
    inSequence s (Fusion.fuseOnto done ns) = inSequence s (done.reverse ++ ns) := by
  induction ns generalizing done with
  | nil => simp [Fusion.fuseOnto]
  | cons n ns ih =>
    cases done with
    | nil => rw [Fusion.fuseOnto, ih]; rfl
    | cons previous rest =>
      rw [Fusion.fuseOnto]
      split
      · rename_i m hm
        rw [ih]
        simp only [List.reverse_cons, List.append_assoc, inSequence_append, List.cons_append,
          List.nil_append, inSequence_cons, ← outcomes_fuse? hm, andThen_assoc]
      · rw [ih]
        simp

theorem agree_fusion {parent : Option NodeType} {a b : Node}
    (h : Fusion.rewrite parent a = some b) : Agree s a b := by
  obtain ⟨es, rfl, hb⟩ := Fusion.fused?_eq_some h
  have hout : inSequence s (Fusion.fuseOnto [] es) = inSequence s es := by
    rw [inSequence_fuseOnto]
    rfl
  have hplain : Node.plainClassesList es = true →
      ∀ n ∈ Fusion.fuseOnto [] es, n.plainClasses = true := fun hp =>
    Fusion.forall_mem_fuseOnto (fun previous n m hm _ hn => by
        obtain ⟨min, max, greedy, rfl, rfl, -⟩ := Fusion.fuse?_eq_some hm
        exact hn)
      nofun (Node.plainClassesList_iff.1 hp)
  rcases hb with rfl | hb
  · exact ⟨nofun, fun hp => Node.plainClassesList_iff.2 (hplain hp), fun _ => by simp [hout]⟩
  · rw [hb] at hout hplain
    exact ⟨nofun, fun hp => hplain hp b List.mem_cons_self, fun _ => by
      rw [outcomes_alternative, ← hout, inSequence_singleton]⟩

/-! ### Groups -/

/-- What a group adds to the sequence around it does what the group does. -/
theorem inSequence_items? {n : Node} {es : List Node} (h : Ungroup.items? n = some es) :
    inSequence s es = outcomes s n := by
  obtain ⟨e, rfl, rfl | ⟨rfl, -⟩⟩ := Ungroup.items?_eq_some h <;> simp

theorem inSequence_spliced (es : List Node) :
    inSequence s (es.flatMap fun e => (Ungroup.items? e).getD [e]) = inSequence s es := by
  induction es with
  | nil => rfl
  | cons e es ih =>
    rw [List.flatMap_cons, inSequence_append, ih, inSequence_cons]
    cases he : Ungroup.items? e with
    | none => simp
    | some fs => simp [inSequence_items? he]

theorem agree_ungroup {parent : Option NodeType} {a b : Node}
    (h : Ungroup.rewrite parent a = some b) : Agree s a b := by
  rcases Ungroup.rewrite_eq_some h with ⟨es, rfl, rfl⟩ | ⟨rfl, -⟩
  · refine ⟨nofun, fun hp => ?_, fun _ => by simp [inSequence_spliced]⟩
    have hplain := Node.plainClassesList_iff.1 hp
    refine Node.plainClassesList_iff.2 fun n hn => ?_
    rcases Ungroup.mem_spliced hn with hn | ⟨e, he, ⟨fs, rfl, hn⟩ | ⟨rfl, -⟩⟩
    · exact hplain n hn
    · exact Node.plainClassesList_iff.1 (hplain _ he) n hn
    · exact hplain (.group .nonCapturing n) he
  · exact ⟨nofun, id, fun _ => by simp⟩

/-! ### Classes -/

/-- A class with its members in order accepts the same characters, whatever counts as the
same as what. -/
theorem accepts_normalForm (r : Reading) (negated : Bool) (ms : List Node) :
    r.accepts (.charClass negated (ClassRanges.normalForm ms)) =
      r.accepts (.charClass negated ms) := by
  funext c
  simp only [Reading.accepts, Reading.classAccepts, ClassRanges.any_normalForm]

theorem isMember_membersOf (known : List (Nat × PatternChar)) (i : Interval) :
    ∀ m ∈ ClassRanges.membersOf known i, m.isMember = true := by
  intro m hm
  rcases ClassRanges.mem_membersOf hm with rfl | rfl | rfl <;> rfl

theorem isMember_normalForm {ms : List Node} (h : ∀ m ∈ ms, m.isMember = true) :
    ∀ m ∈ ClassRanges.normalForm ms, m.isMember = true := by
  intro m hm
  rcases List.mem_append.1 hm with hm | hm
  · exact h m (List.mem_of_mem_filter hm)
  · obtain ⟨i, -, hi⟩ := List.mem_flatMap.1 hm
    exact isMember_membersOf _ i m hi

theorem agree_classRanges {flags : Flags} {parent : Option NodeType} {a b : Node}
    (h : ClassRanges.rewrite flags parent a = some b) : Agree s a b := by
  obtain ⟨negated, ms, rfl, rfl⟩ := ClassRanges.rewrite_eq_some h
  refine ⟨nofun, fun hp => ?_, fun _ => ?_⟩
  · exact List.all_eq_true.2 (isMember_normalForm (List.all_eq_true.1 hp))
  · have hone (i : Nat) : s.accepts (.charClass negated (ClassRanges.normalForm ms)) i =
        s.accepts (.charClass negated ms) i := by
      rw [Subject.accepts, accepts_normalForm, Subject.accepts]
    funext o
    rw [outcomes, outcomes, Subject.one, Subject.one, hone]

/-! ### The whole tree -/

/-- The optimized tree has the outcomes of the tree, whatever the options. -/
theorem agree_optimizeTree (s : Subject) (o : Options) (n : Node) :
    Agree s n (optimizeTree o n).1 :=
  optimizeTree_keeps_of_rules (congruence_agree s) o n (fun _ _ _ => agree_degenerate)
    (fun _ _ _ => agree_fusion) (fun _ _ _ => agree_ungroup) fun _ _ _ _ => agree_classRanges

end RegexKit.Optimizer
