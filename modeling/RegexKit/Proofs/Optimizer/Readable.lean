import RegexKit.Proofs.Optimizer.Meaning
import RegexKit.Proofs.Printing.Delimited

/-! What the optimizer leaves can be printed and read again. Every replacement keeps the
capturing groups, refers to nothing new, nests no deeper, and puts nodes only where they may
stand; so the tree that is left of a tree that was read is printable, and its text is read as a
tree with the flags, the groups and the outcomes of the tree before. -/

namespace RegexKit

namespace Optimizer.ClassRanges

/-! ### Classes in order -/

/-- A member of an ordered class is a member without an interval, or spells the ends of an
interval with characters of the class. -/
theorem mem_normalForm {ms : List Node} {m : Node} (h : m ∈ normalForm ms) :
    m ∈ ms ∨ ∃ low high,
      (∃ k ∈ ms, ∃ x, (x, low) ∈ spellings k ∧ ∃ l ∈ ms, ∃ y, (y, high) ∈ spellings l ∧ x ≤ y) ∧
        (m = .char low ∨ m = .char high ∨ m = .classRange low high) := by
  rcases List.mem_append.1 h with h | h
  · exact .inl (List.mem_of_mem_filter h)
  · obtain ⟨i, hi, hm⟩ := List.mem_flatMap.1 h
    obtain ⟨⟨k, hk, hlow⟩, ⟨l, hl, hhigh⟩, hle⟩ := spell_ends hi
    exact .inr ⟨_, _, ⟨k, hk, i.low, hlow, l, hl, i.high, hhigh, hle⟩, mem_membersOf hm⟩

/-- What is collected from members that are neither characters nor ranges, the ordered class
gives too. -/
theorem flatMap_normalForm {α : Type} {f : Node → List α} (hf : Node.Collects f) (ms : List Node) :
    (normalForm ms).flatMap f = ms.flatMap f := by
  have hmembers : ∀ m ∈ (Interval.coalesce (ms.filterMap interval?)).flatMap
      (membersOf (ms.flatMap spellings)), f m = [] := by
    intro m hm
    obtain ⟨i, -, hm⟩ := List.mem_flatMap.1 hm
    have hmember := isMember_membersOf _ i m hm
    cases m with
    | char c => exact hf.char c
    | classRange low high => exact hf.classRange low high
    | _ => cases hmember
  have hothers : (ms.filter fun m => (interval? m).isNone).flatMap f = ms.flatMap f := by
    clear hmembers
    induction ms with
    | nil => rfl
    | cons m ms ih =>
      cases hi : interval? m with
      | none =>
        rw [List.filter_cons_of_pos (by simp [hi]), List.flatMap_cons, List.flatMap_cons, ih]
      | some i =>
        have hm : f m = [] := by
          cases m with
          | char c => exact hf.char c
          | classRange low high => exact hf.classRange low high
          | _ => cases hi
        rw [List.filter_cons_of_neg (by simp [hi]), List.flatMap_cons, hm, ih, List.nil_append]
  rw [normalForm, List.flatMap_append, hothers, List.flatMap_eq_nil_iff.2 hmembers, List.append_nil]

open Node (InClass BuiltMember)

/-- A character that a built member spells is one of a class. -/
theorem inClass_of_mem_spellings {m : Node} (hm : m.BuiltMember) {x : Nat} {c : PatternChar}
    (h : (x, c) ∈ spellings m) : InClass c := by
  cases m with
  | char d =>
    unfold spellings at h
    split at h
    · rename_i i heq hi
      cases heq
      obtain ⟨-, rfl⟩ := Prod.mk.inj (List.mem_singleton.1 h)
      exact hm
    · rename_i heq hi
      cases heq
    · cases h
  | classRange low high =>
    unfold spellings at h
    split at h
    · rename_i heq hi
      cases heq
    · rename_i heq hi
      cases heq
      rcases List.mem_cons.1 h with h | h
      · obtain ⟨-, rfl⟩ := Prod.mk.inj h
        exact hm.1
      · obtain ⟨-, rfl⟩ := Prod.mk.inj (List.mem_singleton.1 h)
        exact hm.2.1
    · cases h
  | _ => cases hm

/-- The ordered members of a built class are built. -/
theorem builtMember_normalForm {ms : List Node} (hms : ∀ m ∈ ms, m.BuiltMember) :
    ∀ m ∈ normalForm ms, m.BuiltMember := by
  intro m hm
  rcases mem_normalForm hm with hm | ⟨low, high, ⟨k, hk, x, hx, l, hl, y, hy, hle⟩, hcases⟩
  · exact hms m hm
  · have hlow : InClass low := inClass_of_mem_spellings (hms k hk) hx
    have hhigh : InClass high := inClass_of_mem_spellings (hms l hl) hy
    rcases hcases with rfl | rfl | rfl
    · exact hlow
    · exact hhigh
    · exact ⟨hlow, hhigh, x, y, codePoint?_of_mem_spellings hx, codePoint?_of_mem_spellings hy, hle⟩

end Optimizer.ClassRanges

namespace Optimizer

open Node (mayStand inOrder tidyAll_iff builtAll_iff)

/-! ### Nodes that fit -/

/-- The node is built and may stand under the parent, as may everything below it. -/
structure Fits (parent : Option NodeType) (n : Node) : Prop where
  built : n.Built
  tidy : n.tidy = true
  stands : mayStand parent n = true

variable {parent : Option NodeType} {a b n m : Node} {ns ms : List Node}

theorem fits_alternative {es : List Node} :
    Fits parent (.alternative es) ↔
      (∀ e ∈ es, Fits (some .alternative) e) ∧ mayStand parent (.alternative es) = true := by
  constructor
  · intro h
    have hbuilt := builtAll_iff.1 h.built
    have htidy := tidyAll_iff.1 h.tidy
    exact ⟨fun e he => ⟨hbuilt e he, (htidy e he).2, (htidy e he).1⟩, h.stands⟩
  · rintro ⟨hes, hstands⟩
    exact ⟨builtAll_iff.2 fun e he => (hes e he).built,
      tidyAll_iff.2 fun e he => ⟨(hes e he).stands, (hes e he).tidy⟩, hstands⟩

theorem fits_disjunction {bs : List Node} :
    Fits parent (.disjunction bs) ↔
      bs ≠ [] ∧ (∀ b ∈ bs, Fits (some .disjunction) b) ∧
        mayStand parent (.disjunction bs) = true := by
  constructor
  · intro h
    have hbuilt := builtAll_iff.1 h.built.2
    have htidy := tidyAll_iff.1 h.tidy
    exact ⟨h.built.1, fun b hb => ⟨hbuilt b hb, (htidy b hb).2, (htidy b hb).1⟩, h.stands⟩
  · rintro ⟨hne, hbs, hstands⟩
    exact ⟨⟨hne, builtAll_iff.2 fun b hb => (hbs b hb).built⟩,
      tidyAll_iff.2 fun b hb => ⟨(hbs b hb).stands, (hbs b hb).tidy⟩, hstands⟩

theorem fits_group {kind : GroupKind} {e : Node} :
    Fits parent (.group kind e) ↔
      Fits (some .group) e ∧ mayStand parent (.group kind e) = true :=
  ⟨fun h => ⟨⟨h.built, h.tidy, rfl⟩, h.stands⟩, fun ⟨h, hstands⟩ => ⟨h.built, h.tidy, hstands⟩⟩

theorem fits_charClass {negated : Bool} :
    Fits parent (.charClass negated ms) ↔
      (∀ m ∈ ms, m.BuiltMember) ∧ mayStand parent (.charClass negated ms) = true :=
  ⟨fun h => ⟨h.built, h.stands⟩, fun ⟨hms, hstands⟩ => ⟨hms, rfl, hstands⟩⟩

/-- The bounds of a repetition are words in order. -/
def boundsFit (min : Nat) (max : Option Nat) : Prop :=
  inOrder min max = true ∧ min ≤ Numeral.max32 ∧ max.all (· ≤ Numeral.max32) = true

theorem fits_repetition {e : Node} {min : Nat} {max : Option Nat} {greedy : Bool} :
    Fits parent (.repetition e min max greedy) ↔
      Fits (some .repetition) e ∧ boundsFit min max ∧
        mayStand parent (.repetition e min max greedy) = true := by
  constructor
  · rintro ⟨⟨hbuilt, -, hbounds⟩, htidy, hstands⟩
    simp only [Node.tidy, Bool.and_eq_true] at htidy
    exact ⟨⟨hbuilt, htidy.2, htidy.1⟩, hbounds, hstands⟩
  · rintro ⟨h, hbounds, hstands⟩
    refine ⟨⟨h.built, Node.isLookbehindGroup_of_isRepeatable h.stands, hbounds⟩, ?_, hstands⟩
    rw [Node.tidy, h.stands, h.tidy]
    rfl

/-- What a quantifier may stand behind may stand anywhere. -/
theorem Fits.anywhere (h : Fits (some .repetition) n) : Fits parent n where
  built := h.built
  tidy := h.tidy
  stands := by
    have hatom : n.isRepeatable = true := h.stands
    unfold mayStand
    split
    · cases n <;> first | rfl | cases hatom
    · cases n <;> first | rfl | cases hatom
    · exact hatom
    · rfl

/-- A part of a sequence may stand where the sequence does. -/
theorem Fits.of_sequence {es : List Node} (h : Fits (some .alternative) n)
    (hstands : mayStand parent (.alternative es) = true) : Fits parent n where
  built := h.built
  tidy := h.tidy
  stands := by
    have hpart : (!n.isSequence && !n.isChoice) = true := h.stands
    rw [Bool.and_eq_true] at hpart
    unfold mayStand at hstands ⊢
    split at hstands
    · cases hstands
    · exact hpart.2
    · cases hstands
    · rfl

/-! ### What every replacement keeps -/

/-- The second node has the groups of the first, refers to nothing else, nests no deeper and fits
where the first does; a root stays a root with its flags. -/
structure Kept (parent : Option NodeType) (n m : Node) : Prop where
  captures : m.captures = n.captures
  references : m.references ⊆ n.references
  depth : m.groupDepth ≤ n.groupDepth
  member : n.isMember = true → m = n
  fits : Fits parent n → Fits parent m
  root : ∀ b flags, n = .regExp b flags →
    ∃ b', m = .regExp b' flags ∧ (Fits (some .regExp) b → Fits (some .regExp) b')

theorem Kept.refl (parent : Option NodeType) (n : Node) : Kept parent n n where
  captures := rfl
  references := List.Subset.refl _
  depth := Nat.le_refl _
  member _ := rfl
  fits := id
  root b _ h := ⟨b, h, id⟩

theorem Kept.trans {c : Node} (hab : Kept parent a b) (hbc : Kept parent b c) :
    Kept parent a c where
  captures := hbc.captures.trans hab.captures
  references := List.Subset.trans hbc.references hab.references
  depth := Nat.le_trans hbc.depth hab.depth
  member h := by
    obtain rfl := hab.member h
    exact hbc.member h
  fits h := hbc.fits (hab.fits h)
  root e flags h := by
    obtain ⟨e', he', hfits⟩ := hab.root e flags h
    obtain ⟨e'', he'', hfits'⟩ := hbc.root e' flags he'
    exact ⟨e'', he'', fun he => hfits' (hfits he)⟩

theorem Kept.capturesList (h : List.Forall₂ (Kept parent) ns ms) :
    Node.capturesList ms = Node.capturesList ns := by
  induction h with
  | nil => rfl
  | cons hn _ ih => rw [Node.capturesList, Node.capturesList, hn.captures, ih]

theorem Kept.referencesList (h : List.Forall₂ (Kept parent) ns ms) :
    Node.referencesList ms ⊆ Node.referencesList ns := by
  induction h with
  | nil => exact List.Subset.refl _
  | cons hn _ ih =>
    exact List.append_subset.2 ⟨List.subset_append_of_subset_left _ hn.references,
      List.subset_append_of_subset_right _ ih⟩

theorem Kept.groupDepthList (h : List.Forall₂ (Kept parent) ns ms) :
    Node.groupDepthList ms ≤ Node.groupDepthList ns := by
  induction h with
  | nil => exact Nat.le_refl _
  | cons hn _ ih =>
    have hdepth := hn.depth
    rw [Node.groupDepthList, Node.groupDepthList]
    omega

theorem Kept.forall_fits (h : List.Forall₂ (Kept parent) ns ms) (hns : ∀ n ∈ ns, Fits parent n) :
    ∀ m ∈ ms, Fits parent m := by
  induction h with
  | nil => exact fun _ hm => by cases hm
  | cons hn _ ih =>
    intro m hm
    rcases List.mem_cons.1 hm with rfl | hm
    · exact hn.fits (hns _ List.mem_cons_self)
    · exact ih (fun k hk => hns k (List.mem_cons_of_mem _ hk)) m hm

theorem Kept.forall_builtMember (h : List.Forall₂ (Kept parent) ns ms)
    (hns : ∀ n ∈ ns, n.BuiltMember) : ∀ m ∈ ms, m.BuiltMember := by
  induction h with
  | nil => exact fun _ hm => by cases hm
  | @cons n k ns ms hn _ ih =>
    intro m hm
    rcases List.mem_cons.1 hm with rfl | hm
    · have hbuilt := hns n List.mem_cons_self
      have hmember : n.isMember = true := by
        cases n <;> first | rfl | cases hbuilt
      rwa [hn.member hmember]
    · exact ih (fun k hk => hns k (List.mem_cons_of_mem _ hk)) m hm

theorem congruence_kept : Rewrite.Congruence Kept where
  refl := Kept.refl
  trans := Kept.trans
  regExp flags h := {
    captures := h.captures
    references := h.references
    depth := h.depth
    member := nofun
    fits := fun hfits => by cases hfits.built
    root := by
      rintro b _ ⟨⟩
      exact ⟨_, rfl, h.fits⟩ }
  alternative h := {
    captures := Kept.capturesList h
    references := Kept.referencesList h
    depth := Kept.groupDepthList h
    member := nofun
    fits := fun hfits => by
      rw [fits_alternative] at hfits ⊢
      exact ⟨Kept.forall_fits h hfits.1, hfits.2⟩
    root := nofun }
  disjunction h := {
    captures := Kept.capturesList h
    references := Kept.referencesList h
    depth := Kept.groupDepthList h
    member := nofun
    fits := fun hfits => by
      rw [fits_disjunction] at hfits ⊢
      refine ⟨?_, Kept.forall_fits h hfits.2.1, hfits.2.2⟩
      rintro rfl
      cases h
      exact hfits.1 rfl
    root := nofun }
  group kind h := {
    captures := by rw [Parser.captures_group, Parser.captures_group, h.captures]
    references := h.references
    depth := Nat.succ_le_succ h.depth
    member := nofun
    fits := fun hfits => by
      rw [fits_group] at hfits ⊢
      exact ⟨h.fits hfits.1, hfits.2⟩
    root := nofun }
  charClass negated h := {
    captures := Kept.capturesList h
    references := Kept.referencesList h
    depth := Kept.groupDepthList h
    member := nofun
    fits := fun hfits => by
      rw [fits_charClass] at hfits ⊢
      exact ⟨Kept.forall_builtMember h hfits.1, hfits.2⟩
    root := nofun }
  repetition min max greedy h := {
    captures := h.captures
    references := h.references
    depth := h.depth
    member := nofun
    fits := fun hfits => by
      rw [fits_repetition] at hfits ⊢
      exact ⟨h.fits hfits.1, hfits.2⟩
    root := nofun }

/-! ### The rules -/

theorem kept_degenerate (h : Degenerate.rewrite parent a = some b) : Kept parent a b := by
  obtain ⟨greedy, rfl⟩ := Degenerate.once?_eq_some h
  exact {
    captures := rfl
    references := List.Subset.refl _
    depth := Nat.le_refl _
    member := fun h => by cases h
    fits := fun hfits => (fits_repetition.1 hfits).1.anywhere
    root := fun _ _ h => by cases h }

/-- A copy without capturing groups is taken up without changing what the sequence captures. -/
theorem capturesList_fuseOnto (done ns : List Node) :
    Node.capturesList (Fusion.fuseOnto done ns) = Node.capturesList (done.reverse ++ ns) := by
  simp only [Node.capturesList_eq]
  induction ns generalizing done with
  | nil => rw [Fusion.fuseOnto, List.append_nil]
  | cons n ns ih =>
    cases done with
    | nil =>
      rw [Fusion.fuseOnto, ih]
      rfl
    | cons previous rest =>
      rw [Fusion.fuseOnto]
      split
      · rename_i m hm
        obtain ⟨min, max, greedy, rfl, rfl, hcapture, -⟩ := Fusion.fuse?_eq_some hm
        have hnone : previous.captures = [] := by simpa [Node.hasCapture] using hcapture
        rw [ih]
        simp [hnone, Node.captures]
      · rw [ih]
        simp

/-- A fused repetition fits where the repetition did. -/
theorem fits_fuse? {previous : Node} (h : Fusion.fuse? previous n = some m)
    (hn : Fits (some .alternative) n) : Fits (some .alternative) m := by
  obtain ⟨min, max, greedy, rfl, rfl, -, hmin, hmax⟩ := Fusion.fuse?_eq_some h
  obtain ⟨he, ⟨hord, -, -⟩, -⟩ := fits_repetition.1 hn
  have hmin : min < Numeral.max32 := by simpa [Fusion.canRaise] using hmin
  refine fits_repetition.2 ⟨he, ⟨?_, hmin, ?_⟩, rfl⟩
  · cases max with
    | none => rfl
    | some max => simpa [inOrder] using hord
  · cases max with
    | none => rfl
    | some max =>
      have hmax : max < Numeral.max32 := by simpa [Fusion.canRaise] using hmax
      exact decide_eq_true hmax

theorem kept_fusion (h : Fusion.rewrite parent a = some b) : Kept parent a b := by
  obtain ⟨es, rfl, hb⟩ := Fusion.fused?_eq_some h
  have hcaptures : Node.capturesList (Fusion.fuseOnto [] es) = Node.capturesList es :=
    capturesList_fuseOnto [] es
  have hreferences : ∀ e ∈ Fusion.fuseOnto [] es, e.references ⊆ Node.referencesList es := by
    refine Fusion.forall_mem_fuseOnto (fun previous n m hm _ hn => ?_) nofun fun e he => ?_
    · obtain ⟨min, max, greedy, rfl, rfl, -⟩ := Fusion.fuse?_eq_some hm
      exact hn
    · intro r hr
      rw [Parser.referencesList_eq]
      exact List.mem_flatMap.2 ⟨e, he, hr⟩
  have hdepth : ∀ e ∈ Fusion.fuseOnto [] es, e.groupDepth ≤ Node.groupDepthList es := by
    refine Fusion.forall_mem_fuseOnto (fun previous n m hm _ hn => ?_) nofun
      (Node.groupDepthList_le.1 (Nat.le_refl _))
    obtain ⟨min, max, greedy, rfl, rfl, -⟩ := Fusion.fuse?_eq_some hm
    exact hn
  have hfits : (∀ e ∈ es, Fits (some .alternative) e) →
      ∀ e ∈ Fusion.fuseOnto [] es, Fits (some .alternative) e :=
    Fusion.forall_mem_fuseOnto (fun _ _ _ hm _ hn => fits_fuse? hm hn) nofun
  rcases hb with rfl | hb
  · exact {
      captures := hcaptures
      references := by
        intro r hr
        rw [Node.references, Parser.referencesList_eq] at hr
        obtain ⟨e, he, hr⟩ := List.mem_flatMap.1 hr
        exact hreferences e he hr
      depth := Node.groupDepthList_le.2 hdepth
      member := fun h => by cases h
      fits := fun hn => by
        rw [fits_alternative] at hn ⊢
        exact ⟨hfits hn.1, hn.2⟩
      root := fun _ _ h => by cases h }
  · rw [hb] at hcaptures hreferences hdepth hfits
    exact {
      captures := by
        rw [Node.captures, ← hcaptures]
        simp [Node.capturesList]
      references := hreferences b List.mem_cons_self
      depth := hdepth b List.mem_cons_self
      member := fun h => by cases h
      fits := fun hn => by
        obtain ⟨hes, hstands⟩ := fits_alternative.1 hn
        exact (hfits hes b List.mem_cons_self).of_sequence hstands
      root := fun _ _ h => by cases h }

theorem captures_items? {es : List Node} (h : Ungroup.items? n = some es) :
    Node.capturesList es = n.captures := by
  obtain ⟨e, rfl, rfl | ⟨rfl, -⟩⟩ := Ungroup.items?_eq_some h
  · rfl
  · simp [Node.capturesList, Node.captures]

theorem capturesList_spliced (es : List Node) :
    Node.capturesList (es.flatMap fun e => (Ungroup.items? e).getD [e]) =
      Node.capturesList es := by
  rw [Node.capturesList_eq, Node.capturesList_eq, List.flatMap_assoc]
  refine List.flatMap_congr fun e _ => ?_
  rw [← Node.capturesList_eq]
  cases hitems : Ungroup.items? e with
  | none => simp [Node.capturesList]
  | some fs => exact captures_items? hitems

/-- A node of a spliced sequence fits in it. -/
theorem fits_spliced {es : List Node} (hes : ∀ e ∈ es, Fits (some .alternative) e) :
    ∀ e ∈ es.flatMap fun e => (Ungroup.items? e).getD [e], Fits (some .alternative) e := by
  intro k hk
  rcases Ungroup.mem_spliced hk with hk | ⟨e, he, hcases⟩
  · exact hes k hk
  · obtain ⟨hbody, -⟩ := fits_group.1 (hes _ he)
    rcases hcases with ⟨fs, rfl, hk⟩ | ⟨rfl, hplain⟩
    · exact (fits_alternative.1 hbody).1 k hk
    · refine ⟨hbody.built, hbody.tidy, ?_⟩
      cases k with
      | alternative fs => exact absurd rfl (hplain fs).1
      | disjunction fs => exact absurd rfl (hplain fs).2
      | _ => rfl

/-- A body that reads the same without its group may stand where the group does. -/
theorem mayStand_of_readsBare (h : Ungroup.readsBare parent n = true) :
    mayStand parent n = true := by
  unfold mayStand
  split
  · cases h
  · cases n <;> first | rfl | cases h
  · have hrepeat : Ungroup.canRepeat n = true := h
    cases n with
    | group kind e => cases kind <;> first | rfl | cases hrepeat
    | _ => first | rfl | cases hrepeat
  · rfl

theorem kept_ungroup (h : Ungroup.rewrite parent a = some b) : Kept parent a b := by
  rcases Ungroup.rewrite_eq_some h with ⟨es, rfl, rfl⟩ | ⟨rfl, -, hbare⟩
  · exact {
      captures := capturesList_spliced es
      references := by
        intro r hr
        simp only [Node.references, Parser.referencesList_eq] at hr ⊢
        obtain ⟨k, hk, hr⟩ := List.mem_flatMap.1 hr
        rcases Ungroup.mem_spliced hk with hk | ⟨e, he, ⟨fs, rfl, hk⟩ | ⟨rfl, -⟩⟩
        · exact List.mem_flatMap.2 ⟨k, hk, hr⟩
        · refine List.mem_flatMap.2 ⟨_, he, ?_⟩
          rw [Node.references, Node.references, Parser.referencesList_eq]
          exact List.mem_flatMap.2 ⟨k, hk, hr⟩
        · exact List.mem_flatMap.2 ⟨_, he, hr⟩
      depth := by
        refine Node.groupDepthList_le.2 fun k hk => ?_
        have hle := Node.groupDepthList_le.1 (Nat.le_refl (Node.groupDepthList es))
        rcases Ungroup.mem_spliced hk with hk | ⟨e, he, ⟨fs, rfl, hk⟩ | ⟨rfl, -⟩⟩
        · exact hle k hk
        · have hgroup := hle _ he
          have hk := Node.groupDepthList_le.1 (Nat.le_refl _) k hk
          rw [Node.groupDepth, Node.groupDepth] at hgroup
          exact Nat.le_trans hk (Nat.le_trans (Nat.le_succ _) hgroup)
        · exact Nat.le_trans (Nat.le_succ _) (hle _ he)
      member := fun h => by cases h
      fits := fun hn => by
        rw [fits_alternative] at hn ⊢
        exact ⟨fits_spliced hn.1, hn.2⟩
      root := fun _ _ h => by cases h }
  · exact {
      captures := rfl
      references := List.Subset.refl _
      depth := Nat.le_succ _
      member := fun h => by cases h
      fits := fun hn => by
        obtain ⟨hbody, -⟩ := fits_group.1 hn
        exact ⟨hbody.built, hbody.tidy, mayStand_of_readsBare hbare⟩
      root := fun _ _ h => by cases h }

theorem kept_classRanges {flags : Flags} (h : ClassRanges.rewrite flags parent a = some b) :
    Kept parent a b := by
  obtain ⟨negated, ms, rfl, rfl⟩ := ClassRanges.rewrite_eq_some h
  exact {
    captures := by
      rw [Node.captures, Node.captures, Node.capturesList_eq, Node.capturesList_eq,
        ClassRanges.flatMap_normalForm Node.collects_captures]
    references := by
      rw [Node.references, Node.references, Parser.referencesList_eq, Parser.referencesList_eq,
        ClassRanges.flatMap_normalForm Node.collects_references]
      exact List.Subset.refl _
    depth := by
      refine Node.groupDepthList_le.2 fun m hm => ?_
      rcases ClassRanges.mem_normalForm hm with hm | ⟨low, high, -, rfl | rfl | rfl⟩
      · exact Node.groupDepthList_le.1 (Nat.le_refl _) m hm
      · exact Nat.zero_le _
      · exact Nat.zero_le _
      · exact Nat.zero_le _
    member := fun h => by cases h
    fits := fun hn => by
      rw [fits_charClass] at hn ⊢
      exact ⟨ClassRanges.builtMember_normalForm hn.1, hn.2⟩
    root := fun _ _ h => by cases h }

/-- The optimized tree keeps what every replacement keeps, whatever the options. -/
theorem kept_optimizeTree (o : Options) (n : Node) : Kept none n (optimizeTree o n).1 :=
  optimizeTree_keeps_of_rules congruence_kept o n (fun _ _ _ => kept_degenerate)
    (fun _ _ _ => kept_fusion) (fun _ _ _ => kept_ungroup) fun _ _ _ _ => kept_classRanges

/-! ### Reading what is left -/

open Node (Printable Writable)

/-- What fits where the body of a printable tree was, with the same groups, no new references and
no deeper nesting, is the body of a printable tree. -/
theorem printable_of_kept {body body' : Node} {flags : Flags} (h : Printable body flags)
    (hdepth : body.groupDepth < Parser.maxDepth)
    (hkept : Kept none (.regExp body flags) (.regExp body' flags))
    (hfits : Fits (some .regExp) body') : Printable body' flags := by
  have hcaptures : body'.captures = body.captures := hkept.captures
  have hreferences : ∀ r ∈ body'.references, r ∈ body.references := fun r hr => hkept.references hr
  have hnames : ∀ p ∈ Node.groupNames body'.captures, Token.isIdentifier p.1 = true := by
    rw [hcaptures]
    exact h.identifiers
  have hwritable : Writable body' :=
    ⟨hfits.built, hnames, fun r hr => h.writable.references r (hreferences r hr)⟩
  exact {
    built := hfits.built
    numbers := by rw [hcaptures, h.numbers]
    names := by rw [hcaptures]; exact h.names
    identifiers := hnames
    resolved := fun r hr => by
      rw [hcaptures]
      exact h.resolved r (hreferences r hr)
    words := fun m number hr => h.words m number (hreferences _ hr)
    nested := hwritable.nested hfits.tidy (Nat.lt_of_le_of_lt hkept.depth hdepth) }

/-- Classes of built trees hold characters and ranges only. -/
theorem plainClasses_of_built (hn : n.Built) : n.plainClasses = true := by
  induction n with
  | regExp _ _ _ | classRange _ _ => cases hn
  | alternative es ih =>
    exact Node.plainClassesList_iff.2 fun e he => ih e he (builtAll_iff.1 hn e he)
  | disjunction bs ih =>
    exact Node.plainClassesList_iff.2 fun b hb => ih b hb (builtAll_iff.1 hn.2 b hb)
  | group kind e ih => exact ih hn
  | charClass negated ms _ =>
    refine List.all_eq_true.2 fun m hm => ?_
    have hm := hn m hm
    cases m <;> first | rfl | cases hm
  | repetition e min max greedy ih => exact ih hn.1
  | backreference _ _ | assertion _ | char _ => rfl

/-- The optimizer leaves the root of a source that was read a printable root with its flags. -/
theorem exists_printable_of_parse {source : Text} (h : Source.parse source = .ok n)
    (hdepth : n.groupDepth < Parser.maxDepth) (hoctal : n.NoOctalClass) (o : Options) :
    ∃ body body' flags, n = .regExp body flags ∧ (optimizeTree o n).1 = .regExp body' flags ∧
      Printable body flags ∧ Printable body' flags := by
  obtain ⟨body, flags, rfl, hwell, hproduced⟩ := Source.exists_of_parse h
  have hprintable : Printable body flags :=
    Node.printable_of_produced hwell hproduced hdepth (hoctal.child List.mem_cons_self)
  have hkept := kept_optimizeTree o (.regExp body flags)
  obtain ⟨body', hroot, hfits⟩ := hkept.root body flags rfl
  rw [hroot] at hkept
  refine ⟨body, body', flags, rfl, hroot, hprintable, printable_of_kept hprintable hdepth hkept ?_⟩
  exact hfits ⟨hprintable.built, Node.tidy_of_grammatical hwell.shape, rfl⟩

/-- The optimizer is sound, whatever the options. A tree whose classes hold characters and ranges
only is left with its outcomes. Of a source that is read, with groups one level below the limit
of the reader and no octal escape in a class, a tree is left that is printed, and its text is
read as a tree with the flags, the capturing groups and the outcomes of the source. -/
theorem optimizeTree_sound (o : Options) :
    (∀ n : Node, n.plainClasses = true →
      ∀ s : Match.Subject, Match.outcomes s (optimizeTree o n).1 = Match.outcomes s n) ∧
    ∀ (source : Text) (n : Node), Source.parse source = .ok n →
      n.groupDepth < Parser.maxDepth → n.NoOctalClass →
      ∃ t n', (optimizeTree o n).1.render = .ok t ∧ Source.parse t = .ok n' ∧
        n'.flags = n.flags ∧ n'.captureGroups? = n.captureGroups? ∧
        ∀ s : Match.Subject, Match.outcomes s n' = Match.outcomes s n := by
  refine ⟨fun n hn s => (agree_optimizeTree s o n).outcomes hn, fun source n h hdepth hoctal => ?_⟩
  obtain ⟨body, body', flags, rfl, hroot, hprintable, hprintable'⟩ :=
    exists_printable_of_parse h hdepth hoctal o
  have hcaptures : body'.captures = body.captures := by
    have hkept := kept_optimizeTree o (.regExp body flags)
    rw [hroot] at hkept
    exact hkept.captures
  refine ⟨_, _, ?_, hprintable'.parse_fullText, rfl, ?_, fun s => ?_⟩
  · rw [hroot]
    exact Node.render_regExp (Node.badBounds?_of_built hprintable'.built) flags
  · rw [Node.captureGroups?, Node.captureGroups?, hprintable'.writable.captures_bodyAsRead,
      hcaptures]
  · have hplain : body.plainClasses = true := plainClasses_of_built hprintable.built
    have hout := (agree_optimizeTree s o (.regExp body flags)).outcomes hplain
    rw [hroot] at hout
    rw [← hout, Match.outcomes, Match.outcomes, hprintable'.writable.outcomes_bodyAsRead]

/-- `/xx{2}(?:y)/` is left as `/x{3}y/`, which is read with the same outcomes. -/
theorem optimizeTree_sound_fused :
    ∃ n', Source.parse ['/', 'x', '\x7b', '3', '\x7d', 'y', '/'] = .ok n' ∧
      ∀ s : Match.Subject, Match.outcomes s n' = Match.outcomes s (.regExp (.alternative
        [.char (.simple 'x'), .repetition (.char (.simple 'x')) 2 (some 2) true,
          .group .nonCapturing (.char (.simple 'y'))]) {}) := by
  have hsource : Source.parse ['/', 'x', 'x', '\x7b', '2', '\x7d', '(', '?', ':', 'y', ')', '/'] =
      .ok (.regExp (.alternative
        [.char (.simple 'x'), .repetition (.char (.simple 'x')) 2 (some 2) true,
          .group .nonCapturing (.char (.simple 'y'))]) {}) := by decide +kernel
  have hleft : (optimizeTree {} (.regExp (.alternative
      [.char (.simple 'x'), .repetition (.char (.simple 'x')) 2 (some 2) true,
        .group .nonCapturing (.char (.simple 'y'))]) {})).1 = .regExp (.alternative
      [.repetition (.char (.simple 'x')) 3 (some 3) true, .char (.simple 'y')]) {} := by
    decide +kernel
  obtain ⟨t, n', hrender, hparse, -, -, hout⟩ :=
    (optimizeTree_sound {}).2 _ _ hsource (by decide) (by decide)
  rw [hleft] at hrender
  have htext : t = ['/', 'x', '\x7b', '3', '\x7d', 'y', '/'] := (Except.ok.inj hrender).symm
  rw [htext] at hparse
  exact ⟨n', hparse, hout⟩

end Optimizer

end RegexKit
