import RegexKit.Proofs.Optimizer.Fixpoint
import RegexKit.Proofs.Optimizer.Shown

/-! Optimizing a printed pattern again. The tree that the text of an optimized tree is read as
differs from it: sequences of one are gone, marks of identity escapes are as the reader sets them,
and escapes before digits stand in parentheses. A second run takes those parentheses away and
prints the same text, as long as the rules see nothing new in the tree that the text shows. Where
a sequence of one hid a group that can be left out, or a mark kept two neighbours apart, they do,
and the second text is another. -/

namespace RegexKit.Optimizer

open Node (shown rereadMember readParts)
open Rewrite

variable {f : Rewrite} {parent : Option NodeType} {n e a b : Node} {es bs ms : List Node}

/-! ### Groups that are left out -/

/-- Splicing leaves the items of the groups of a sequence, whether it has such groups or not. -/
theorem apply_ungroup_alternative (parent : Option NodeType) (es : List Node) :
    Ungroup.rewrite.apply parent (.alternative es) =
      .alternative (es.flatMap fun e => (Ungroup.items? e).getD [e]) := by
  unfold Rewrite.apply Ungroup.rewrite
  simp only [Ungroup.spliced?]
  split
  · rfl
  · rename_i hany
    have hnone : ∀ e ∈ es, (Ungroup.items? e).getD [e] = [e] := by
      intro e he
      cases hitems : Ungroup.items? e with
      | none => rfl
      | some fs => exact absurd (List.any_eq_true.2 ⟨e, he, by rw [hitems]; rfl⟩) hany
    rw [List.flatMap_congr hnone, List.flatMap_singleton', Option.getD_none]

/-- A part in parentheses keeps them until the sequence around it is spliced. -/
theorem IsOpen.up_group (h : IsOpen e) :
    Ungroup.rewrite.up (some .alternative) (.group .nonCapturing e.asRead) =
      .group .nonCapturing e.shown := by
  cases h <;> rfl

theorem IsOpen.items?_group (h : IsOpen e) :
    Ungroup.items? (.group .nonCapturing e.shown) = some [e.shown] := by
  cases h <;> rfl

/-- Leaving groups out of a sequence that was read gives what the text shows. -/
theorem splice_readParts (hes : ∀ e ∈ es, Fits (some .alternative) e)
    (hitems : ∀ e ∈ es, Ungroup.items? e.shown = none)
    (hup : ∀ e ∈ es, Ungroup.rewrite.up (some .alternative) e.asRead = e.shown) :
    (Ungroup.rewrite.upList (some .alternative) (readParts es)).flatMap
      (fun e => (Ungroup.items? e).getD [e]) = es.map shown := by
  induction es with
  | nil => rfl
  | cons e es ih =>
    have he := hes e List.mem_cons_self
    have hread : (Ungroup.items? (Ungroup.rewrite.up (some .alternative) (readPart e es))).getD
        [Ungroup.rewrite.up (some .alternative) (readPart e es)] = [e.shown] := by
      rw [readPart]
      split
      · rename_i hwrap
        have hopen := (he.of_isWrapped hwrap).1
        rw [hopen.up_group, hopen.items?_group, Option.getD_some]
      · rw [hup e List.mem_cons_self, hitems e List.mem_cons_self, Option.getD_none]
    rw [readParts_cons he, upList, List.flatMap_cons, hread,
      ih (fun k hk => hes k (List.mem_cons_of_mem _ hk))
        (fun k hk => hitems k (List.mem_cons_of_mem _ hk))
        fun k hk => hup k (List.mem_cons_of_mem _ hk)]
    rfl

/-- Where no group can be left out of what a text shows, leaving groups out of the tree that is
read gives what the text shows. -/
theorem Fits.up_asRead (h : Fits parent n) (hhits : Ungroup.rewrite.hits parent n.shown = 0) :
    Ungroup.rewrite.up parent n.asRead = n.shown := by
  revert hhits
  refine Fits.induction_asRead (motive := fun parent x y =>
    Ungroup.rewrite.hits parent x = 0 → Ungroup.rewrite.up parent y = x) ?_ ?_ ?_ ?_ ?_ h
  · exact fun _ _ hhits => up_of_hits_eq_zero hhits
  · intro parent es hes ih hhits
    obtain ⟨hchildren, hnone⟩ := hits_eq_zero_iff_children.1 hhits
    have hparts : ∀ e ∈ es, Ungroup.rewrite.up (some .alternative) e.asRead = e.shown :=
      fun e he => ih e he (hchildren _ (List.mem_map_of_mem he))
    have hitems : ∀ e ∈ es, Ungroup.items? e.shown = none := fun e he =>
      items?_eq_none_of_spliced? hnone (List.mem_map_of_mem he)
    rw [up, apply_ungroup_alternative, splice_readParts hes hitems hparts]
  · intro parent bs ih hhits
    obtain ⟨hchildren, hnone⟩ := hits_eq_zero_iff_children.1 hhits
    have hbranches : bs.map (Ungroup.rewrite.up (some .disjunction) ∘ Node.asRead) =
        bs.map Node.shown :=
      List.map_congr_left fun b hb => ih b hb (hchildren _ (List.mem_map_of_mem hb))
    rw [up, upList_eq, List.map_map, hbranches, apply_of_eq_none hnone]
  · intro parent kind e ih hhits
    obtain ⟨hchildren, hnone⟩ := hits_eq_zero_iff_children.1 hhits
    rw [up, ih (hchildren _ List.mem_cons_self), apply_of_eq_none hnone]
  · intro parent e min max greedy ih hhits
    obtain ⟨hchildren, hnone⟩ := hits_eq_zero_iff_children.1 hhits
    rw [up, ih (hchildren _ List.mem_cons_self), apply_of_eq_none hnone]

/-! ### Neighbours that fuse -/

/-- Leaving groups out looks at the parents of groups only. -/
theorem up_ungroup_of_not_group (hn : ∀ kind e, n ≠ .group kind e) (p q : Option NodeType) :
    Ungroup.rewrite.up p n = Ungroup.rewrite.up q n := by
  cases n with
  | group kind e => exact absurd rfl (hn kind e)
  | _ => rfl

theorem asRead_eq_group {kind : GroupKind} {x : Node}
    (h : Node.mayStand (some .alternative) e = true) (hread : e.asRead = .group kind x) :
    ∃ e', e = .group kind e' ∧ e'.asRead = x := by
  cases e with
  | group k e' =>
    rw [Node.asRead_group] at hread
    cases hread
    exact ⟨e', rfl, rfl⟩
  | alternative _ | disjunction _ => cases h
  | _ => cases hread

/-- Parts that are read alike show the same when no group can be left out of them. -/
theorem shown_eq_of_asRead_eq (ha : Fits (some .alternative) a) (hb : Fits (some .repetition) b)
    (hupa : Ungroup.rewrite.hits (some .alternative) a.shown = 0)
    (hupb : Ungroup.rewrite.hits (some .repetition) b.shown = 0) (hread : a.asRead = b.asRead) :
    a.shown = b.shown := by
  by_cases hgroup : ∃ kind x, a.asRead = .group kind x
  · obtain ⟨kind, x, hx⟩ := hgroup
    obtain ⟨a', rfl, ha'⟩ := asRead_eq_group ha.stands hx
    obtain ⟨b', rfl, hb'⟩ := asRead_eq_group hb.anywhere.stands (hread.symm.trans hx)
    have hbodya := (fits_group.1 ha).1.up_asRead
      ((hits_eq_zero_iff_children.1 hupa).1 _ List.mem_cons_self)
    have hbodyb := (fits_group.1 hb).1.up_asRead
      ((hits_eq_zero_iff_children.1 hupb).1 _ List.mem_cons_self)
    rw [Node.shown, Node.shown, ← hbodya, ← hbodyb, ha', hb']
  · rw [← ha.up_asRead hupa, ← hb.up_asRead hupb, hread]
    refine up_ungroup_of_not_group (fun kind x hx => hgroup ⟨kind, x, ?_⟩) _ _
    rw [hread, hx]

/-- A node that fuses with the node before it repeats that node. -/
theorem isCopy_of_fuse? {previous m : Node} (h : Fusion.fuse? previous n = some m) :
    Fusion.isCopy previous = true := by
  unfold Fusion.fuse? at h
  split at h
  · split at h
    · rename_i hc
      simp only [Bool.and_eq_true] at hc
      exact hc.1.1.1.1
    · cases h
  · cases h

theorem fuse?_repetition {min : Nat} {max : Option Nat} {greedy : Bool}
    (hcopy : Fusion.isCopy a = true) (hcapture : a.hasCapture = false)
    (hmin : Fusion.canRaise min = true) (hmax : max.all Fusion.canRaise = true) :
    Fusion.fuse? a (.repetition a min max greedy) ≠ none := by
  simp [Fusion.fuse?, hcopy, hcapture, hmin, hmax]

theorem isCopy_shown (h : Fits (some .alternative) a) :
    Fusion.isCopy a.shown = Fusion.isCopy a.asRead := by
  obtain ⟨hsequence, hchoice⟩ := h.item
  cases a with
  | alternative _ => cases hsequence
  | disjunction _ => cases hchoice
  | _ => rfl

/-- A part that is read as a repetition is one, and stands without parentheses. -/
theorem readPart_eq_repetition {x : Node} {min : Nat} {max : Option Nat} {greedy : Bool}
    (h : Fits (some .alternative) b) (hread : readPart b es = .repetition x min max greedy) :
    ∃ e, b = .repetition e min max greedy ∧ e.asRead = x := by
  obtain ⟨hsequence, hchoice⟩ := h.item
  rw [readPart] at hread
  split at hread
  · cases hread
  · cases b with
    | repetition e _ _ _ =>
      have hatom := Node.isAtom_of_isRepeatable (fits_repetition.1 h).1.stands
      rw [Node.asRead_repetition, if_pos hatom] at hread
      cases hread
      exact ⟨e, rfl, rfl⟩
    | alternative _ => cases hsequence
    | disjunction _ => cases hchoice
    | _ => cases hread

/-- The text of a repeated group does not begin with a digit. -/
theorem digitFollows_repeated_group (kind : GroupKind) (e : Node) (min : Nat) (max : Option Nat)
    (greedy : Bool) (es : List Node) :
    Node.digitFollows (.repetition (.group kind e) min max greedy :: es) = false := by
  have hopening : ∃ t, kind.opening = '(' :: t := by
    cases kind with
    | capturing _ name => cases name <;> exact ⟨_, rfl⟩
    | _ => exact ⟨_, rfl⟩
  obtain ⟨t, ht⟩ := hopening
  have htext : ∃ u, (Node.repetition (.group kind e) min max greedy).text = '(' :: u := by
    have hatom : (Node.group kind e).isAtom = true := rfl
    rw [Node.text, if_pos hatom, Node.text, ht]
    exact ⟨_, rfl⟩
  obtain ⟨u, hu⟩ := htext
  have hpiece : (Node.piece (.repetition (.group kind e) min max greedy) ('(' :: u)).text =
      '(' :: u := rfl
  rw [Node.digitFollows_cons, hu, hpiece, if_neg (List.cons_ne_nil _ _)]
  rfl

/-- Neighbours that are read fuse only when those that the text shows do. -/
theorem fuse?_readPart (ha : Fits (some .alternative) a) (hb : Fits (some .alternative) b)
    (hupa : Ungroup.rewrite.hits (some .alternative) a.shown = 0)
    (hupb : Ungroup.rewrite.hits (some .alternative) b.shown = 0)
    (hnone : Fusion.fuse? a.shown b.shown = none) :
    Fusion.fuse? (readPart a (b :: es)) (readPart b es) = none := by
  cases hfuse : Fusion.fuse? (readPart a (b :: es)) (readPart b es) with
  | none => rfl
  | some m =>
    obtain ⟨min, max, greedy, hrepetition, -, hcapture, hmin, hmax⟩ := Fusion.fuse?_eq_some hfuse
    have hcopy := isCopy_of_fuse? hfuse
    obtain ⟨e, rfl, he⟩ := readPart_eq_repetition hb hrepetition
    have hoperand := (fits_repetition.1 hb).1
    rw [readPart] at he hcapture hcopy
    split at he
    · -- what is repeated would be a group, and a group is no digit
      rename_i hwrap
      obtain ⟨e', rfl, -⟩ := asRead_eq_group hoperand.anywhere.stands he
      have hdigit := (ha.of_isWrapped hwrap).2
      rw [digitFollows_repeated_group] at hdigit
      cases hdigit
    · rename_i hplain
      rw [if_neg hplain] at hcapture hcopy
      have hshown : a.shown = e.shown := shown_eq_of_asRead_eq ha hoperand hupa
        ((hits_eq_zero_iff_children.1 hupb).1 _ List.mem_cons_self) he.symm
      rw [Node.shown, ← hshown] at hnone
      refine absurd hnone (fuse?_repetition ?_ ?_ hmin hmax)
      · rw [isCopy_shown ha, hcopy]
      · rw [Node.hasCapture, Node.captures_shown, ← Node.captures_asRead]
        exact hcapture

/-- No neighbours of a sequence that is read fuse when none that the text shows do. -/
theorem canFuse_readParts (hes : ∀ e ∈ es, Fits (some .alternative) e)
    (hup : ∀ e ∈ es, Ungroup.rewrite.hits (some .alternative) e.shown = 0)
    (hfuse : Fusion.canFuse (es.map shown) = false) : Fusion.canFuse (readParts es) = false := by
  induction es with
  | nil => rfl
  | cons a es ih =>
    have ha := hes a List.mem_cons_self
    rw [readParts_cons ha]
    cases es with
    | nil => rfl
    | cons b es =>
      have hb := hes b (by simp)
      obtain ⟨hpair, hrest⟩ := Bool.or_eq_false_iff.1 hfuse
      have hnone : Fusion.fuse? a.shown b.shown = none := by simpa using hpair
      have htail := ih (fun k hk => hes k (List.mem_cons_of_mem _ hk))
        (fun k hk => hup k (List.mem_cons_of_mem _ hk)) hrest
      rw [readParts_cons hb] at htail ⊢
      rw [Fusion.canFuse, fuse?_readPart ha hb (hup a List.mem_cons_self) (hup b (by simp)) hnone,
        htail]
      rfl

/-! ### What the rules see -/

/-- A rewriting that leaves choices, groups and characters alone, whatever the parent, and sees
of a repetition its bounds only. -/
structure Local (f : Rewrite) : Prop where
  parent (p q : Option NodeType) (n : Node) : f p n = f q n
  regExp (p : Option NodeType) (b : Node) (flags : Flags) : f p (.regExp b flags) = none
  disjunction (p : Option NodeType) (bs : List Node) : f p (.disjunction bs) = none
  group (p : Option NodeType) (kind : GroupKind) (e : Node) : f p (.group kind e) = none
  backreference (p : Option NodeType) (target : RefTarget) (number : Nat) :
    f p (.backreference target number) = none
  char (p : Option NodeType) (c : PatternChar) : f p (.char c) = none
  classRange (p : Option NodeType) (low high : PatternChar) : f p (.classRange low high) = none
  repetition (p : Option NodeType) (a b : Node) (min : Nat) (max : Option Nat) (greedy : Bool) :
    f p (.repetition a min max greedy) = none → f p (.repetition b min max greedy) = none

theorem local_degenerate : Local Degenerate.rewrite where
  parent _ _ _ := rfl
  regExp _ _ _ := rfl
  disjunction _ _ := rfl
  group _ _ _ := rfl
  backreference _ _ _ := rfl
  char _ _ := rfl
  classRange _ _ _ := rfl
  repetition _ a b min max greedy h := by
    cases hb : Degenerate.once? (.repetition b min max greedy) with
    | none => exact hb
    | some m =>
      obtain ⟨_, heq⟩ := Degenerate.once?_eq_some hb
      cases heq
      cases h

theorem local_fusion : Local Fusion.rewrite where
  parent _ _ _ := rfl
  regExp _ _ _ := rfl
  disjunction _ _ := rfl
  group _ _ _ := rfl
  backreference _ _ _ := rfl
  char _ _ := rfl
  classRange _ _ _ := rfl
  repetition _ _ _ _ _ _ _ := rfl

theorem rewrite_of_normalized?_eq_none {flags : Flags} (h : ClassRanges.normalized? n = none) :
    ClassRanges.rewrite flags parent n = none := by
  rw [ClassRanges.rewrite, h, ite_self]

theorem local_classRanges (flags : Flags) : Local (ClassRanges.rewrite flags) where
  parent _ _ _ := rfl
  regExp _ _ _ := rewrite_of_normalized?_eq_none rfl
  disjunction _ _ := rewrite_of_normalized?_eq_none rfl
  group _ _ _ := rewrite_of_normalized?_eq_none rfl
  backreference _ _ _ := rewrite_of_normalized?_eq_none rfl
  char _ _ := rewrite_of_normalized?_eq_none rfl
  classRange _ _ _ := rewrite_of_normalized?_eq_none rfl
  repetition _ _ _ _ _ _ _ := rewrite_of_normalized?_eq_none rfl

theorem Local.hits_parent (hf : Local f) (p q : Option NodeType) (n : Node) :
    f.hits p n = f.hits q n := by
  cases n <;> simp only [hits, hit, hf.parent p q]

/-- A part in parentheses is left alone with them. -/
theorem Local.hits_group (hf : Local f) (h : IsOpen e) (p : Option NodeType) :
    f.hits p (.group .nonCapturing e.asRead) = 0 := by
  refine hits_eq_zero_iff_children.2 ⟨List.forall_mem_singleton.2 ?_, hf.group ..⟩
  cases h with
  | char c => exact hit_eq_zero_iff.2 (hf.char ..)
  | backreference m number => exact hit_eq_zero_iff.2 (hf.backreference ..)

/-- A rewriting that replaces nothing in a tree replaces nothing in what its text shows. -/
theorem Local.hits_shown (hf : Local f) (hsequence : ∀ p es, f p (.alternative es) = none)
    (hclass : ∀ p negated ms, f p (.charClass negated ms) = none →
      f p (.charClass negated (ms.map rereadMember)) = none)
    (hhits : f.hits parent n = 0) : f.hits parent n.shown = 0 := by
  induction n generalizing parent with
  | alternative es ih =>
    obtain ⟨hchildren, -⟩ := hits_eq_zero_iff_children.1 hhits
    by_cases hone : es.length = 1
    · obtain ⟨e, rfl⟩ := List.length_eq_one_iff.1 hone
      exact ih e List.mem_cons_self
        ((hf.hits_parent ..).trans (hchildren e List.mem_cons_self))
    · rw [Node.shown_alternative hone]
      exact hits_eq_zero_iff_children.2
        ⟨List.forall_mem_map.2 fun e he => ih e he (hchildren e he), hsequence ..⟩
  | disjunction bs ih =>
    obtain ⟨hchildren, -⟩ := hits_eq_zero_iff_children.1 hhits
    by_cases hone : bs.length = 1
    · obtain ⟨b, rfl⟩ := List.length_eq_one_iff.1 hone
      exact ih b List.mem_cons_self
        ((hf.hits_parent ..).trans (hchildren b List.mem_cons_self))
    · rw [Node.shown_disjunction hone]
      exact hits_eq_zero_iff_children.2
        ⟨List.forall_mem_map.2 fun b hb => ih b hb (hchildren b hb), hf.disjunction ..⟩
  | regExp b flags ih =>
    have hchild := (hits_eq_zero_iff_children.1 hhits).1 b List.mem_cons_self
    exact hits_eq_zero_iff_children.2 ⟨List.forall_mem_singleton.2 (ih hchild), hf.regExp ..⟩
  | group kind e ih =>
    have hchild := (hits_eq_zero_iff_children.1 hhits).1 e List.mem_cons_self
    exact hits_eq_zero_iff_children.2 ⟨List.forall_mem_singleton.2 (ih hchild), hf.group ..⟩
  | repetition e min max greedy ih =>
    obtain ⟨hchildren, hnone⟩ := hits_eq_zero_iff_children.1 hhits
    exact hits_eq_zero_iff_children.2
      ⟨List.forall_mem_singleton.2 (ih (hchildren e List.mem_cons_self)),
        hf.repetition _ _ _ _ _ _ hnone⟩
  | charClass negated ms _ =>
    obtain ⟨hchildren, hnone⟩ := hits_eq_zero_iff_children.1 hhits
    refine hits_eq_zero_iff_children.2
      ⟨List.forall_mem_map.2 fun m hm => ?_, hclass _ _ _ hnone⟩
    cases m with
    | char c => exact hit_eq_zero_iff.2 (hf.char ..)
    | classRange low high => exact hit_eq_zero_iff.2 (hf.classRange ..)
    | _ => exact hchildren _ hm
  | char c => exact hit_eq_zero_iff.2 (hf.char ..)
  | backreference _ _ | assertion _ | classRange _ _ => exact hhits

/-- A sequence of parts that are read is replaced only if the one that the text shows is, where
no group can be left out of that. -/
def SparesSequences (f : Rewrite) : Prop := ∀ p es, (∀ e ∈ es, Fits (some .alternative) e) →
  (∀ e ∈ es, Ungroup.rewrite.hits (some .alternative) e.shown = 0) →
    f p (.alternative (es.map Node.shown)) = none → f p (.alternative (readParts es)) = none

theorem sparesSequences_degenerate : SparesSequences Degenerate.rewrite :=
  fun _ _ _ _ h => h

theorem sparesSequences_fusion : SparesSequences Fusion.rewrite := by
  intro p es hes hup h
  have hfuse := canFuse_readParts hes hup (canFuse_eq_false_of_fused? h)
  simp [Fusion.rewrite, Fusion.fused?, hfuse]

/-- A rewriting that replaces nothing in what a text shows replaces nothing in the tree that is
read, where no group can be left out of what the text shows. -/
theorem Local.hits_asRead (hf : Local f) (hsequence : SparesSequences f) (h : Fits parent n)
    (hup : Ungroup.rewrite.hits parent n.shown = 0) (hhits : f.hits parent n.shown = 0) :
    f.hits parent n.asRead = 0 := by
  revert hup hhits
  refine Fits.induction_asRead (motive := fun parent x y =>
    Ungroup.rewrite.hits parent x = 0 → f.hits parent x = 0 → f.hits parent y = 0)
    (fun _ _ _ hhits => hhits) ?_ ?_ ?_ ?_ h
  · intro parent es hes ih hup hhits
    obtain ⟨hups, -⟩ := hits_eq_zero_iff_children.1 hup
    obtain ⟨hchildren, hnone⟩ := hits_eq_zero_iff_children.1 hhits
    have hups := List.forall_mem_map.1 hups
    have hchildren := List.forall_mem_map.1 hchildren
    refine hits_eq_zero_iff_children.2 ⟨?_, hsequence parent es hes hups hnone⟩
    exact forall_mem_readParts hes (fun e he => ih e he (hups e he) (hchildren e he))
      fun e _ hopen => hf.hits_group hopen _
  · intro parent bs ih hup hhits
    have hups := List.forall_mem_map.1 (hits_eq_zero_iff_children.1 hup).1
    have hchildren := List.forall_mem_map.1 (hits_eq_zero_iff_children.1 hhits).1
    exact hits_eq_zero_iff_children.2
      ⟨List.forall_mem_map.2 fun b hb => ih b hb (hups b hb) (hchildren b hb), hf.disjunction ..⟩
  · intro parent kind e ih hup hhits
    have hups := (hits_eq_zero_iff_children.1 hup).1 _ List.mem_cons_self
    have hchildren := (hits_eq_zero_iff_children.1 hhits).1 _ List.mem_cons_self
    exact hits_eq_zero_iff_children.2
      ⟨List.forall_mem_singleton.2 (ih hups hchildren), hf.group ..⟩
  · intro parent e min max greedy ih hup hhits
    have hups := (hits_eq_zero_iff_children.1 hup).1 _ List.mem_cons_self
    obtain ⟨hchildren, hnone⟩ := hits_eq_zero_iff_children.1 hhits
    exact hits_eq_zero_iff_children.2
      ⟨List.forall_mem_singleton.2 (ih hups (hchildren _ List.mem_cons_self)),
        hf.repetition _ _ _ _ _ _ hnone⟩

/-! ### The second run -/

/-- The rules find neither neighbours to fuse nor groups to leave out. -/
structure Settled (n : Node) : Prop where
  neighbours : Fusion.rewrite.hits none n = 0
  groups : Ungroup.rewrite.hits none n = 0

/-- A run that replaces nothing after one round ends with the tree of that round. -/
theorem optimizeTree_of_quiet_round {o : Options} (hcap : 2 ≤ o.iterationCap n.count)
    (h : hitsAll (rewrites o n.flags) (upAll (rewrites o n.flags) n) = 0) :
    (optimizeTree o n).1 = upAll (rewrites o n.flags) n := by
  have hrules := rules_follow o n.flags
  have hrounds : (runRounds (rules o n.flags) (o.iterationCap n.count) n).1 =
      upAll (rewrites o n.flags) n := by
    obtain ⟨cap, hcap⟩ := Nat.exists_eq_add_of_le' hcap
    rw [hcap, runRounds_succ hrules]
    split
    · rename_i hzero
      exact (upAll_of_hitsAll_eq_zero hzero).symm
    · rw [runRounds_succ hrules, if_pos h]
  rw [optimizeTree]
  split
  · rename_i hempty
    rw [List.isEmpty_iff.1 hempty] at hrules
    rw [List.forall₂_nil_left_iff.1 hrules]
    rfl
  · exact hrounds

/-- The default options allow more than one round for any tree. -/
theorem two_le_iterationCap (n : Node) : 2 ≤ (({} : Options)).iterationCap n.count := by
  have hpos := n.count_pos
  have hle : 2 ≤ min (4 * n.count) Numeral.max64 := Nat.le_min.2 ⟨by omega, by decide⟩
  exact Nat.le_trans hle (Nat.le_max_right _ _)

/-- A rewriting that leaves roots alone replaces what it replaces in their bodies. -/
theorem hits_regExp (hroot : ∀ b flags, f none (.regExp b flags) = none) (b : Node)
    (flags : Flags) : f.hits none (.regExp b flags) = f.hits (some .regExp) b := by
  rw [hits, hit_eq_zero_iff.2 (hroot _ flags), Nat.add_zero]

/-- Where the rules left a tree and find nothing new in what its text shows, a round over the tree
that is read gives what the text shows, and nothing is left to replace there. -/
theorem round_of_settled {body : Node} {flags : Flags} (hfits : Fits (some .regExp) body)
    (hquiet : hitsAll (rewrites {} flags) (.regExp body flags) = 0)
    (hsettled : Settled (.regExp body.shown flags)) :
    upAll (rewrites {} flags) (.regExp body.asRead flags) = .regExp body.shown flags ∧
      hitsAll (rewrites {} flags) (.regExp body.shown flags) = 0 := by
  have hrules : rewrites {} flags =
      [Degenerate.rewrite, Fusion.rewrite, Ungroup.rewrite, ClassRanges.rewrite flags] := rfl
  rw [hitsAll_eq_zero_iff, hrules] at hquiet
  obtain ⟨hneighbours, hgroups⟩ := hsettled
  have hbody : Ungroup.rewrite.hits (some .regExp) body.shown = 0 := by
    rwa [← hits_regExp (fun _ _ => rfl) _ flags]
  have hdegenerate : Degenerate.rewrite.hits none (.regExp body.shown flags) = 0 :=
    local_degenerate.hits_shown (fun _ _ => rfl) (fun _ _ _ h => h)
      (hquiet Degenerate.rewrite (by simp))
  have hclasses : (ClassRanges.rewrite flags).hits none (.regExp body.shown flags) = 0 :=
    (local_classRanges flags).hits_shown
      (fun _ _ => rewrite_of_normalized?_eq_none rfl)
      (fun _ _ _ h => ClassRanges.rewrite_rereadMember h)
      (hquiet (ClassRanges.rewrite flags) (by simp))
  have hread : ∀ f, Local f → SparesSequences f → f.hits none (.regExp body.shown flags) = 0 →
      f.up none (.regExp body.asRead flags) = .regExp body.asRead flags := by
    intro f hf hsequence hhits
    apply up_of_hits_eq_zero
    rw [hits_regExp (hf.regExp none)] at hhits ⊢
    exact hf.hits_asRead hsequence hfits hbody hhits
  have hup : Ungroup.rewrite.up none (.regExp body.asRead flags) = .regExp body.shown flags := by
    rw [up, hfits.up_asRead hbody]
    rfl
  constructor
  · rw [hrules, upAll, hread _ local_degenerate sparesSequences_degenerate hdegenerate, upAll,
      hread _ local_fusion sparesSequences_fusion hneighbours, upAll, hup, upAll,
      up_of_hits_eq_zero hclasses, upAll]
  · rw [hitsAll_eq_zero_iff, hrules]
    simp [hdegenerate, hneighbours, hgroups, hclasses]

/-- The optimizer leaves a root that fits a root that fits, with its flags. -/
theorem exists_fits_optimizeTree {body : Node} (hfits : Fits (some .regExp) body) (o : Options)
    (flags : Flags) : ∃ body', (optimizeTree o (.regExp body flags)).1 = .regExp body' flags ∧
      Fits (some .regExp) body' := by
  obtain ⟨body', hroot, hkept⟩ := (kept_optimizeTree o (.regExp body flags)).root body flags rfl
  exact ⟨body', hroot, hkept hfits⟩

theorem fits_of_parse {source : Text} {body : Node} {flags : Flags}
    (h : Source.parse source = .ok (.regExp body flags))
    (hoctal : (Node.regExp body flags).NoOctalClass) : Fits (some .regExp) body := by
  obtain ⟨_, _, hroot, hwell, hproduced⟩ := Source.exists_of_parse h
  cases hroot
  exact ⟨Node.built_of_produced hwell.shape hproduced (hoctal.child List.mem_cons_self),
    Node.tidy_of_grammatical hwell.shape, rfl⟩

theorem fits_emptyGroup : Fits (some .regExp) (.group .nonCapturing .empty) :=
  ⟨trivial, rfl, rfl⟩

theorem fits_bodyAsRead {body : Node} (h : Fits (some .regExp) body) :
    Fits (some .regExp) (Node.bodyAsRead body) := by
  rw [Node.bodyAsRead]
  split
  · exact fits_emptyGroup
  · exact h.asRead

theorem render_of_fits {body : Node} (h : Fits (some .regExp) body) (flags : Flags) :
    (Node.regExp body flags).render = .ok (Node.regExp body flags).fullText :=
  Node.render_regExp (Node.badBounds?_of_built h.built) flags

/-- Where the rules left a tree and find nothing new in what its text shows, the tree that is read
is left a tree that prints as the first one. -/
theorem render_optimizeTree_bodyAsRead {body : Node} {flags : Flags}
    (hfits : Fits (some .regExp) body)
    (hquiet : hitsAll (rewrites {} flags) (.regExp body flags) = 0)
    (hsettled : Settled (.regExp body.shown flags)) :
    (optimizeTree {} (.regExp (Node.bodyAsRead body) flags)).1.render =
      .ok (Node.regExp body flags).fullText := by
  rw [Node.bodyAsRead]
  split
  · rename_i htext
    have hempty : hitsAll (rewrites {} flags) (.regExp (.group .nonCapturing .empty) flags) = 0 :=
      quiet_of_no_flags rfl
    have hpattern : Node.patternText body = Node.emptyBody := if_pos htext
    rw [(optimizeTree_of_quiet hempty).1, render_of_fits fits_emptyGroup, Node.fullText,
      Node.fullText, hpattern]
    rfl
  · obtain ⟨hround, hrest⟩ := round_of_settled hfits hquiet hsettled
    have hflags : (Node.regExp body.asRead flags).flags = flags := rfl
    have hstop := optimizeTree_of_quiet_round (o := {})
      (two_le_iterationCap (.regExp body.asRead flags))
    rw [hflags, hround] at hstop
    rw [hstop hrest, render_of_fits hfits.shown, Node.fullText, Node.fullText, Node.patternText,
      Node.patternText, hfits.text_shown]

/-- The optimizer prints a pattern that it can read again and optimize again. For every source
that is read, with groups one level below the limit of the reader and no octal escape in a class,
the second run prints what the first one did when the rules find neither neighbours to fuse nor
groups to leave out in the tree that the printed text shows. -/
theorem optimizeTree_text_stable {source : Text} {n : Node} (h : Source.parse source = .ok n)
    (hdepth : n.groupDepth < Parser.maxDepth) (hoctal : n.NoOctalClass)
    (hcount : n.count ≤ Numeral.max64) :
    ∃ t n' t', (optimizeTree {} n).1.render = .ok t ∧ Source.parse t = .ok n' ∧
      (optimizeTree {} n').1.render = .ok t' ∧
      (Settled (optimizeTree {} n).1.shown → t' = t) := by
  obtain ⟨body, body', flags, rfl, hroot, -, hprintable⟩ :=
    exists_printable_of_parse h hdepth hoctal {}
  obtain ⟨_, hroot', hfits⟩ := exists_fits_optimizeTree (fits_of_parse h hoctal) {} flags
  obtain rfl := (Node.regExp.inj (hroot.symm.trans hroot')).1
  obtain ⟨body'', hagain, hfits'⟩ := exists_fits_optimizeTree (fits_bodyAsRead hfits) {} flags
  have hquiet := (quiet_optimizeTree (o := {}) (by decide) hcount).2.2
  rw [hroot] at hquiet ⊢
  refine ⟨_, _, (Node.regExp body'' flags).fullText, render_of_fits hfits flags,
    hprintable.parse_fullText, ?_, fun hsettled => ?_⟩
  · rw [hagain, render_of_fits hfits']
  · have hsame : (optimizeTree {} (.regExp (Node.bodyAsRead body') flags)).1.render =
        .ok (Node.regExp body' flags).fullText :=
      render_optimizeTree_bodyAsRead hfits hquiet hsettled
    rw [hagain, render_of_fits hfits'] at hsame
    exact Except.ok.inj hsame

/-- `/\0{1}1/` is printed with its escape in parentheses, and that text is printed again. -/
theorem optimizeTree_text_stable_octal :
    ∃ n', Source.parse ['/', '(', '?', ':', '\\', '0', ')', '1', '/'] = .ok n' ∧
      (optimizeTree {} n').1.render = .ok ['/', '(', '?', ':', '\\', '0', ')', '1', '/'] := by
  have hsource : Source.parse ['/', '\\', '0', '\x7b', '1', '\x7d', '1', '/'] =
      .ok (.regExp (.alternative [.repetition (.char ⟨['\\', '0'], .octal, false⟩) 1 (some 1) true,
        .char (.simple '1')]) {}) := by decide +kernel
  have hleft : (optimizeTree {} (.regExp (.alternative
      [.repetition (.char ⟨['\\', '0'], .octal, false⟩) 1 (some 1) true,
        .char (.simple '1')]) {})).1 = .regExp (.alternative
      [.char ⟨['\\', '0'], .octal, false⟩, .char (.simple '1')]) {} := by decide +kernel
  obtain ⟨t, n', t', hrender, hparse, hagain, hsame⟩ :=
    optimizeTree_text_stable hsource (by decide) (by decide) (by decide)
  rw [hleft] at hrender hsame
  have htext : t = ['/', '(', '?', ':', '\\', '0', ')', '1', '/'] := (Except.ok.inj hrender).symm
  rw [hsame ⟨by decide, by decide⟩, htext] at hagain
  rw [htext] at hparse
  exact ⟨n', hparse, hagain⟩

/-- Splicing the empty group of `/(?:a(?:))*/` leaves a sequence of one, and the text shows a group
that can be left out: the first run prints `/(?:a)*/` and the second one `/a*/`. -/
theorem optimizeTree_text_changes : ∃ n n',
    Source.parse ['/', '(', '?', ':', 'a', '(', '?', ':', ')', ')', '*', '/'] = .ok n ∧
      (optimizeTree {} n).1.render = .ok ['/', '(', '?', ':', 'a', ')', '*', '/'] ∧
      Source.parse ['/', '(', '?', ':', 'a', ')', '*', '/'] = .ok n' ∧
      (optimizeTree {} n').1.render = .ok ['/', 'a', '*', '/'] := by
  refine ⟨.regExp (.repetition (.group .nonCapturing (.alternative
      [.char (.simple 'a'), .group .nonCapturing .empty])) 0 none true) {},
    .regExp (.repetition (.group .nonCapturing (.char (.simple 'a'))) 0 none true) {}, ?_⟩
  decide +kernel

end RegexKit.Optimizer
