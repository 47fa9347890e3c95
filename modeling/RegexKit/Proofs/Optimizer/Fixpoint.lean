import RegexKit.Proofs.Optimizer.Canonical
import RegexKit.Proofs.Optimizer.Readable
import RegexKit.Proofs.Optimizer.Weight

/-! The optimizer comes to an end. The rules before the last lower the weight of the tree by one
for each replacement, and the last rule, which puts classes in order, leaves nothing to order
behind. So only the first round can be one that orders classes and does nothing else, and the
tree then has more nodes than its weight; every other round that is not the last lowers the
weight. The rounds are therefore at most the nodes of the tree, whatever rules are enabled. In
the tree that is left no rule finds anything to replace. -/

namespace RegexKit

namespace Rewrite

/-! ### Rewritings in a row -/

/-- The tree after rewritings in a row. -/
def upAll : List Rewrite → Node → Node
  | [], n => n
  | f :: fs, n => upAll fs (f.up none n)

/-- The number of nodes that rewritings in a row replace. -/
def hitsAll : List Rewrite → Node → Nat
  | [], _ => 0
  | f :: fs, n => f.hits none n + hitsAll fs (f.up none n)

variable {fs gs : List Rewrite} {n : Node}

theorem upAll_append (fs gs : List Rewrite) (n : Node) :
    upAll (fs ++ gs) n = upAll gs (upAll fs n) := by
  induction fs generalizing n with
  | nil => rfl
  | cons f fs ih => exact ih _

theorem hitsAll_append (fs gs : List Rewrite) (n : Node) :
    hitsAll (fs ++ gs) n = hitsAll fs n + hitsAll gs (upAll fs n) := by
  induction fs generalizing n with
  | nil => simp [hitsAll, upAll]
  | cons f fs ih => rw [List.cons_append, hitsAll, ih, hitsAll, upAll, Nat.add_assoc]

/-- Rewritings in a row replace nothing when none of them does. -/
theorem hitsAll_eq_zero_iff : hitsAll fs n = 0 ↔ ∀ f ∈ fs, f.hits none n = 0 := by
  induction fs with
  | nil => simp [hitsAll]
  | cons f fs ih =>
    rw [hitsAll, Nat.add_eq_zero_iff, List.forall_mem_cons]
    exact and_congr_right fun h => by rw [up_of_hits_eq_zero h, ih]

theorem upAll_of_hitsAll_eq_zero (h : hitsAll fs n = 0) : upAll fs n = n := by
  induction fs with
  | nil => rfl
  | cons f fs ih =>
    obtain ⟨hf, hfs⟩ := List.forall_mem_cons.1 (hitsAll_eq_zero_iff.1 h)
    rw [upAll, up_of_hits_eq_zero hf, ih (hitsAll_eq_zero_iff.2 hfs)]

/-- Rewritings that lower the weight lower it by the number of replacements. -/
theorem weight_upAll (h : ∀ f ∈ fs, f.Lowers) (n : Node) :
    (upAll fs n).weight none + hitsAll fs n ≤ n.weight none := by
  induction fs generalizing n with
  | nil => exact Nat.le_refl _
  | cons f fs ih =>
    have hf := (h f List.mem_cons_self).up none n
    have hfs := ih (fun g hg => h g (List.mem_cons_of_mem _ hg)) (f.up none n)
    rw [upAll, hitsAll]
    omega

end Rewrite

namespace Optimizer

open Rewrite

/-- Rules that follow rewritings leave their tree and count their replacements. -/
theorem runAll_eq {rs : List Rule} {fs : List Rewrite}
    (h : List.Forall₂ (fun r f => Walk.Follows r.handlers f) rs fs) (n : Node) :
    (Rule.runAll rs n).1 = upAll fs n ∧ (Rule.runAll rs n).2.mutations = hitsAll fs n := by
  suffices hfold : ∀ (n : Node) (t : PipelineStats),
      (rs.foldl (fun done r =>
        let now := Rule.run r done.1
        (now.1, PipelineStats.add done.2 now.2)) (n, t)).1 = upAll fs n ∧
      (rs.foldl (fun done r =>
        let now := Rule.run r done.1
        (now.1, PipelineStats.add done.2 now.2)) (n, t)).2.mutations =
          t.mutations + hitsAll fs n by
    simpa [Rule.runAll] using hfold n {}
  induction h with
  | nil => exact fun n t => ⟨rfl, rfl⟩
  | cons hr _ ih =>
    intro n t
    simp only [List.foldl_cons, Rule.run_eq_up hr]
    obtain ⟨htree, hmutations⟩ := ih _ (t.add _)
    refine ⟨htree, hmutations.trans ?_⟩
    simp only [PipelineStats.add, hitsAll]
    omega

/-! ### Classes in order -/

namespace ClassRanges

variable {flags : Flags} {parent : Option NodeType} {n m : Node} {ms : List Node}

/-- A node of an ordered class was there before, or is a character or a range. -/
theorem mem_or_isMember_of_mem_normalForm (hm : m ∈ normalForm ms) :
    m ∈ ms ∨ m.isMember = true := by
  rcases mem_normalForm hm with h | ⟨low, high, -, rfl | rfl | rfl⟩
  · exact .inl h
  · exact .inr rfl
  · exact .inr rfl
  · exact .inr rfl

/-- Putting a class in order does not make it heavier. -/
theorem weightList_normalForm (ms : List Node) :
    Node.weightList (some .charClass) (normalForm ms) ≤ Node.weightList (some .charClass) ms := by
  have hmembers : Node.weightList (some .charClass) ((Interval.coalesce
      (ms.filterMap interval?)).flatMap (membersOf (ms.flatMap spellings))) = 0 := by
    apply Node.weightList_eq_zero
    intro m hm
    obtain ⟨i, -, hm⟩ := List.mem_flatMap.1 hm
    exact isMember_membersOf _ i m hm
  rw [normalForm, Node.weightList_append, hmembers, Nat.add_zero]
  exact Node.weightList_sublist List.filter_sublist _

/-- Nothing is left to order in a class that was put in order. -/
theorem rewrite_normalForm (flags : Flags) (parent : Option NodeType) (negated : Bool)
    (ms : List Node) : rewrite flags parent (.charClass negated (normalForm ms)) = none := by
  simp [rewrite, normalized?, normalForm_normalForm]

theorem hits_of_isMember (h : m.isMember = true) : (rewrite flags).hits parent m = 0 := by
  cases m with
  | char c => simp [hits, hit, rewrite, normalized?]
  | classRange low high => simp [hits, hit, rewrite, normalized?]
  | _ => cases h

/-- Putting all classes in order leaves none that is not. -/
theorem hits_up (flags : Flags) (parent : Option NodeType) (n : Node) :
    (rewrite flags).hits parent ((rewrite flags).up parent n) = 0 := by
  refine hits_up_eq_zero (fun parent n hchildren => ?_) parent n
  cases h : rewrite flags parent n with
  | none =>
    rw [apply_of_eq_none h]
    exact hits_eq_zero_iff_children.2 ⟨hchildren, h⟩
  | some m =>
    obtain ⟨negated, ms, rfl, rfl⟩ := rewrite_eq_some h
    rw [Rewrite.apply, h, Option.getD_some, hits_eq_zero_iff_children]
    refine ⟨fun c hc => ?_, rewrite_normalForm flags parent negated ms⟩
    rcases mem_or_isMember_of_mem_normalForm hc with hc | hc
    · exact hchildren c hc
    · exact hits_of_isMember hc

/-- A class without characters and ranges is in order. -/
theorem normalForm_of_forall (h : ∀ m ∈ ms, m.isMember = false) : normalForm ms = ms := by
  have hnone : ∀ m ∈ ms, interval? m = none := by
    intro m hm
    have hm := h m hm
    cases m <;> first | rfl | cases hm
  rw [normalForm, List.filterMap_eq_nil_iff.2 hnone,
    List.filter_eq_self.2 fun m hm => by simp [hnone m hm]]
  simp [Interval.coalesce, Interval.sort]

/-- A class that is not in order has a character or a range. -/
theorem exists_isMember_of_rewrite (h : rewrite flags parent n = some m) :
    n.type = .charClass ∧ ∃ c ∈ n.children, c.isMember = true := by
  obtain ⟨negated, ms, rfl, rfl⟩ := rewrite_eq_some h
  refine ⟨rfl, ?_⟩
  by_contra hnone
  have hform : normalForm ms = ms := normalForm_of_forall fun m hm => by
    by_contra hmember
    exact hnone ⟨m, hm, by simpa using hmember⟩
  simp [rewrite, normalized?, hform] at h

/-- A tree with a class to order has more nodes than its weight. -/
theorem weight_lt_count (h : (rewrite flags).hits none n ≠ 0) : n.weight none < n.count := by
  rw [Ne, hits_eq_zero_iff] at h
  push Not at h
  obtain ⟨p, hp, hsome⟩ := h
  obtain ⟨m, hm⟩ := Option.ne_none_iff_exists'.1 hsome
  obtain ⟨htype, c, hc, hmember⟩ := exists_isMember_of_rewrite hm
  refine Node.weight_lt_count (Node.mem_places_of_mem_children hp hc) ?_
  rw [Node.isClassMember, htype, hmember]
  rfl

/-- A tree with its classes in order is no heavier than before. -/
theorem weight_up (flags : Flags) (parent : Option NodeType) (n : Node) :
    ((rewrite flags).up parent n).weight parent ≤ n.weight parent := by
  refine Node.congruence_weight_le.up (fun parent n m h => ?_) parent n
  obtain ⟨negated, ms, rfl, rfl⟩ := rewrite_eq_some h
  rw [Node.weight_of_isMember_eq_false rfl, Node.weight_of_isMember_eq_false rfl]
  exact Nat.succ_le_succ (weightList_normalForm ms)

end ClassRanges

/-! ### Rounds -/

variable {o : Options} {flags : Flags} {n : Node}

/-- The replacements that lower the weight. -/
def shrinking (o : Options) : List Rewrite :=
  (if o.removeDegenerateQuantifiers then [Degenerate.rewrite] else []) ++
  (if o.quantifierFusion then [Fusion.rewrite] else []) ++
  (if o.ungroup then [Ungroup.rewrite] else [])

/-- The replacements that put classes in order. -/
def ordering (o : Options) (flags : Flags) : List Rewrite :=
  if o.normalizeClassRanges then [ClassRanges.rewrite flags] else []

theorem rewrites_eq (o : Options) (flags : Flags) :
    rewrites o flags = shrinking o ++ ordering o flags := rfl

theorem lowers_of_mem_shrinking {f : Rewrite} (hf : f ∈ shrinking o) : f.Lowers := by
  simp only [shrinking, List.mem_append] at hf
  rcases hf with (hf | hf) | hf <;> split at hf <;>
    simp only [List.mem_singleton, List.not_mem_nil] at hf <;> subst hf
  · exact lowers_degenerate
  · exact lowers_fusion
  · exact lowers_ungroup

/-- A round lowers the weight by one for each replacement of the rules before the last. -/
theorem weight_round (o : Options) (flags : Flags) (n : Node) :
    (upAll (rewrites o flags) n).weight none + hitsAll (shrinking o) n ≤ n.weight none := by
  have hshrinking : (upAll (shrinking o) n).weight none + hitsAll (shrinking o) n ≤
      n.weight none := weight_upAll (fun f hf => lowers_of_mem_shrinking hf) n
  have hordering : (upAll (ordering o flags) (upAll (shrinking o) n)).weight none ≤
      (upAll (shrinking o) n).weight none := by
    unfold ordering
    split
    · exact ClassRanges.weight_up flags none _
    · exact Nat.le_refl _
  rw [rewrites_eq, upAll_append]
  omega

/-- After a round all classes are in order. -/
theorem hitsAll_ordering_round (o : Options) (flags : Flags) (n : Node) :
    hitsAll (ordering o flags) (upAll (rewrites o flags) n) = 0 := by
  rw [rewrites_eq, upAll_append]
  unfold ordering
  split
  · exact hitsAll_eq_zero_iff.2 (List.forall_mem_singleton.2 (ClassRanges.hits_up flags none _))
  · rfl

/-- A round that replaces something while all classes are in order lowers the weight. -/
theorem weight_round_lt (hordered : hitsAll (ordering o flags) n = 0)
    (hhits : hitsAll (rewrites o flags) n ≠ 0) :
    (upAll (rewrites o flags) n).weight none < n.weight none := by
  have hweight := weight_round o flags n
  have hshrinking : hitsAll (shrinking o) n ≠ 0 := by
    intro hzero
    rw [rewrites_eq, hitsAll_append, upAll_of_hitsAll_eq_zero hzero, hzero, hordered] at hhits
    exact hhits rfl
  omega

/-- A round that replaces anything leaves a tree that weighs less than the nodes before. -/
theorem weight_round_lt_count (hhits : hitsAll (rewrites o flags) n ≠ 0) :
    (upAll (rewrites o flags) n).weight none < n.count := by
  have hweight := weight_round o flags n
  by_cases hordered : hitsAll (ordering o flags) n = 0
  · exact Nat.lt_of_lt_of_le (weight_round_lt hordered hhits) (Node.weight_le_count none n)
  · have hclasses : (ClassRanges.rewrite flags).hits none n ≠ 0 := by
      intro hzero
      apply hordered
      unfold ordering
      split
      · simpa [hitsAll] using hzero
      · rfl
    have hcount := ClassRanges.weight_lt_count hclasses
    omega

/-- The rounds ended by themselves, after at most so many of them, and nothing is left to
replace. -/
structure Finishes (fs : List Rewrite) (bound : Nat) (r : Node × Nat × Nat × Bool) : Prop where
  done : r.2.2.2 = true
  rounds : r.2.1 ≤ bound
  quiet : hitsAll fs r.1 = 0

theorem runRounds_succ {rs : List Rule} {fs : List Rewrite}
    (h : List.Forall₂ (fun r f => Walk.Follows r.handlers f) rs fs) (cap : Nat) (n : Node) :
    runRounds rs (cap + 1) n =
      if hitsAll fs n = 0 then (n, 1, 0, true)
      else
        let r := runRounds rs cap (upAll fs n)
        (r.1, r.2.1 + 1, hitsAll fs n + r.2.2.1, r.2.2.2) := by
  obtain ⟨htree, hmutations⟩ := runAll_eq h n
  simp only [runRounds, hmutations, htree]
  split
  · rename_i hzero
    rw [upAll_of_hitsAll_eq_zero hzero]
  · rfl

/-- From a tree with its classes in order the rounds are at most its weight. -/
theorem finishes_of_ordered (hordered : hitsAll (ordering o flags) n = 0) {cap : Nat}
    (hcap : n.weight none ≤ cap) :
    Finishes (rewrites o flags) (n.weight none) (runRounds (rules o flags) cap n) := by
  induction cap generalizing n with
  | zero =>
    have hpos : 0 < n.weight none := Node.weight_pos (by decide)
    omega
  | succ cap ih =>
    rw [runRounds_succ (rules_follow o flags)]
    split
    · rename_i hzero
      exact ⟨rfl, Node.weight_pos (by decide), hzero⟩
    · rename_i hhits
      have hlt := weight_round_lt hordered hhits
      obtain ⟨hdone, hrounds, hquiet⟩ :=
        ih (hitsAll_ordering_round o flags n) (Nat.le_of_lt_succ (Nat.lt_of_lt_of_le hlt hcap))
      exact ⟨hdone, Nat.le_trans (Nat.succ_le_succ hrounds) hlt, hquiet⟩

/-- From any tree the rounds are at most its nodes. -/
theorem finishes_runRounds {cap : Nat} (hcap : n.count ≤ cap) :
    Finishes (rewrites o flags) n.count (runRounds (rules o flags) cap n) := by
  have hpos := n.count_pos
  obtain ⟨cap, rfl⟩ := Nat.exists_eq_add_of_lt (Nat.lt_of_lt_of_le hpos hcap)
  rw [Nat.zero_add, runRounds_succ (rules_follow o flags)]
  split
  · rename_i hzero
    exact ⟨rfl, hpos, hzero⟩
  · rename_i hhits
    have hlt := weight_round_lt_count hhits
    have hcap' : (upAll (rewrites o flags) n).weight none ≤ cap := by omega
    obtain ⟨hdone, hrounds, hquiet⟩ :=
      finishes_of_ordered (hitsAll_ordering_round o flags n) hcap'
    exact ⟨hdone, Nat.le_trans (Nat.succ_le_succ hrounds) hlt, hquiet⟩

/-! ### What is left -/

/-- No enabled rule applies to the tree under the flags: there is no repetition of exactly one
copy, no two neighbours fuse, no item of a sequence is spliced, no group is unwrapped, and each
class is in order unless it keeps halves of surrogate pairs under the flag for them. -/
structure Finished (o : Options) (flags : Flags) (n : Node) : Prop where
  repetitions : o.removeDegenerateQuantifiers = true → ∀ p ∈ n.places none,
    ∀ e greedy, p.2 ≠ .repetition e 1 (some 1) greedy
  neighbours : o.quantifierFusion = true → ∀ p ∈ n.places none,
    ∀ before a b after, p.2 = .alternative (before ++ a :: b :: after) → Fusion.fuse? a b = none
  items : o.ungroup = true → ∀ p ∈ n.places none,
    ∀ es, p.2 = .alternative es → ∀ e ∈ es, Ungroup.items? e = none
  groups : o.ungroup = true → ∀ p ∈ n.places none,
    ∀ e, p.2 = .group .nonCapturing e →
      e.isEmptyAlternative = true ∨ Ungroup.readsBare p.1 e = false
  classes : o.normalizeClassRanges = true → ∀ p ∈ n.places none,
    ∀ negated ms, p.2 = .charClass negated ms →
      ClassRanges.normalForm ms = ms ∨
        flags.unicode = true ∧ ClassRanges.hasSurrogate (.charClass negated ms) = true

theorem fuse?_eq_none_of_canFuse {before after : List Node} {a b : Node}
    (h : Fusion.canFuse (before ++ a :: b :: after) = false) : Fusion.fuse? a b = none := by
  induction before with
  | nil =>
    have hpair : (Fusion.fuse? a b).isSome = false := (Bool.or_eq_false_iff.1 h).1
    simpa using hpair
  | cons c before ih =>
    apply ih
    cases before with
    | nil => exact (Bool.or_eq_false_iff.1 h).2
    | cons d before => exact (Bool.or_eq_false_iff.1 h).2

theorem canFuse_eq_false_of_fused? {es : List Node} (h : Fusion.fused? (.alternative es) = none) :
    Fusion.canFuse es = false := by
  by_contra hfuse
  simp only [Fusion.fused?, Bool.not_eq_false] at h hfuse
  rw [if_pos hfuse] at h
  split at h <;> cases h

theorem items?_eq_none_of_spliced? {es : List Node}
    (h : Ungroup.spliced? (.alternative es) = none) {e : Node} (he : e ∈ es) :
    Ungroup.items? e = none := by
  by_contra hitems
  have hany : (es.any fun e => (Ungroup.items? e).isSome) = true :=
    List.any_eq_true.2 ⟨e, he, Option.isSome_iff_ne_none.2 hitems⟩
  simp [Ungroup.spliced?, hany] at h

theorem readsBare_of_unwrapped? {parent : Option NodeType} {e : Node}
    (h : Ungroup.unwrapped? parent (.group .nonCapturing e) = none) :
    e.isEmptyAlternative = true ∨ Ungroup.readsBare parent e = false := by
  by_contra hbare
  simp only [not_or, Bool.not_eq_true, Bool.not_eq_false] at hbare
  simp [Ungroup.unwrapped?, hbare.1, hbare.2] at h

theorem normalForm_of_rewrite {parent : Option NodeType} {negated : Bool} {ms : List Node}
    (h : ClassRanges.rewrite flags parent (.charClass negated ms) = none) :
    ClassRanges.normalForm ms = ms ∨
      flags.unicode = true ∧ ClassRanges.hasSurrogate (.charClass negated ms) = true := by
  unfold ClassRanges.rewrite at h
  split at h
  · rename_i hkept
    exact .inr (Bool.and_eq_true_iff.1 hkept)
  · by_contra hform
    simp only [not_or] at hform
    simp [ClassRanges.normalized?, hform.1] at h

/-- No enabled rule applies when no replacement is left. -/
theorem finished_of_quiet (h : hitsAll (rewrites o flags) n = 0) : Finished o flags n := by
  have hnone : ∀ f ∈ rewrites o flags, ∀ p ∈ n.places none, f p.1 p.2 = none := fun f hf =>
    hits_eq_zero_iff.1 (hitsAll_eq_zero_iff.1 h f hf)
  exact {
    repetitions := fun ho p hp e greedy hn => by
      have hrule := hnone Degenerate.rewrite (by simp [rewrites, ho]) p hp
      rw [hn] at hrule
      cases hrule
    neighbours := fun ho p hp before a b after hn => by
      have hrule := hnone Fusion.rewrite (by simp [rewrites, ho]) p hp
      rw [hn] at hrule
      exact fuse?_eq_none_of_canFuse (canFuse_eq_false_of_fused? hrule)
    items := fun ho p hp es hn e he => by
      have hrule := hnone Ungroup.rewrite (by simp [rewrites, ho]) p hp
      rw [hn] at hrule
      exact items?_eq_none_of_spliced? hrule he
    groups := fun ho p hp e hn => by
      have hrule := hnone Ungroup.rewrite (by simp [rewrites, ho]) p hp
      rw [hn] at hrule
      exact readsBare_of_unwrapped? hrule
    classes := fun ho p hp negated ms hn => by
      have hrule := hnone (ClassRanges.rewrite flags) (by simp [rewrites, ho]) p hp
      rw [hn] at hrule
      exact normalForm_of_rewrite hrule }

/-- A class that is in order whatever the flags is in order under any. -/
theorem quiet_of_no_flags (h : hitsAll (rewrites o .none) n = 0) :
    hitsAll (rewrites o flags) n = 0 := by
  rw [hitsAll_eq_zero_iff] at h ⊢
  intro f hf
  rw [rewrites_eq, List.mem_append] at hf
  rcases hf with hf | hf
  · exact h f (List.mem_append_left _ hf)
  · unfold ordering at hf
    split at hf
    · rename_i ho
      obtain rfl := List.mem_singleton.1 hf
      refine hits_eq_zero_iff.2 fun p hp => ?_
      have hnone := hits_eq_zero_iff.1 (h (ClassRanges.rewrite .none) (by simp [rewrites, ho])) p hp
      have hform : ClassRanges.normalized? p.2 = none := hnone
      simp [ClassRanges.rewrite, hform]
    · cases hf

/-- A tree without anything to replace is given back. -/
theorem optimizeTree_of_quiet (h : hitsAll (rewrites o n.flags) n = 0) :
    (optimizeTree o n).1 = n ∧ (optimizeTree o n).2.mutations = 0 := by
  rw [optimizeTree]
  split
  · exact ⟨rfl, rfl⟩
  · obtain ⟨cap, hcap⟩ := Nat.exists_eq_add_of_lt (o.iterationCap_pos n.count)
    rw [hcap, Nat.zero_add, runRounds_succ (rules_follow o n.flags), if_pos h]
    exact ⟨rfl, rfl⟩

/-- A factor of one at least allows a round for every node. -/
theorem count_le_iterationCap {count : Nat} (hfactor : 1 ≤ o.iterationFactor)
    (hcount : count ≤ Numeral.max64) : count ≤ o.iterationCap count := by
  have hle : count ≤ o.iterationFactor * count := Nat.le_mul_of_pos_left _ hfactor
  exact Nat.le_trans (Nat.le_min.2 ⟨hle, hcount⟩) (Nat.le_max_right _ _)

/-- The optimized tree has nothing left to replace, and the rounds allowed were enough. -/
theorem quiet_optimizeTree (hfactor : 1 ≤ o.iterationFactor) (hcount : n.count ≤ Numeral.max64) :
    (optimizeTree o n).2.reachedFixpoint = true ∧ (optimizeTree o n).2.rounds ≤ n.count ∧
      hitsAll (rewrites o n.flags) (optimizeTree o n).1 = 0 := by
  rw [optimizeTree]
  split
  · rename_i hempty
    have hrules := rules_follow o n.flags
    rw [List.isEmpty_iff.1 hempty] at hrules
    rw [List.forall₂_nil_left_iff.1 hrules]
    exact ⟨rfl, Nat.zero_le _, rfl⟩
  · have hfinishes : Finishes (rewrites o n.flags) n.count
        (runRounds (rules o n.flags) (o.iterationCap n.count) n) :=
      finishes_runRounds (count_le_iterationCap hfactor hcount)
    exact ⟨hfinishes.done, hfinishes.rounds, hfinishes.quiet⟩

/-- The flags for which classes were put in order are those of the tree that is left, or none. -/
theorem quiet_under_flags (h : hitsAll (rewrites o n.flags) (optimizeTree o n).1 = 0) :
    hitsAll (rewrites o (optimizeTree o n).1.flags) (optimizeTree o n).1 = 0 := by
  cases n with
  | regExp b flags =>
    obtain ⟨b', hroot, -⟩ := (kept_optimizeTree o (.regExp b flags)).root b flags rfl
    rw [hroot] at h ⊢
    exact h
  | _ => exact quiet_of_no_flags h

/-- The optimizer reaches a fixpoint within its rounds, for every tree whose nodes a word counts
and all options that allow a round for a node. The rounds are at most the nodes of the tree, no
enabled rule applies to the tree that is left, and optimizing that tree again gives it back
without a replacement. -/
theorem optimizeTree_reaches_fixpoint (o : Options) (n : Node) (hfactor : 1 ≤ o.iterationFactor)
    (hcount : n.count ≤ Numeral.max64) :
    (optimizeTree o n).2.reachedFixpoint = true ∧ (optimizeTree o n).2.rounds ≤ n.count ∧
      Finished o n.flags (optimizeTree o n).1 ∧
      (optimizeTree o (optimizeTree o n).1).1 = (optimizeTree o n).1 ∧
      (optimizeTree o (optimizeTree o n).1).2.mutations = 0 := by
  obtain ⟨hdone, hrounds, hquiet⟩ := quiet_optimizeTree hfactor hcount
  exact ⟨hdone, hrounds, finished_of_quiet hquiet,
    optimizeTree_of_quiet (quiet_under_flags hquiet)⟩

/-- `/(?:a{1})a+/` has seven nodes and is left as `/a{2,}/`, which no rule changes. -/
theorem optimizeTree_reaches_fixpoint_fused :
    (optimizeTree {} (.regExp (.alternative
        [.group .nonCapturing (.repetition (.char (.simple 'a')) 1 (some 1) true),
          .repetition (.char (.simple 'a')) 1 none true]) {})).2.rounds ≤ 7 ∧
      Finished {} {} (.regExp (.repetition (.char (.simple 'a')) 2 none true) {}) ∧
      (optimizeTree {} (.regExp (.repetition (.char (.simple 'a')) 2 none true) {})).1 =
        .regExp (.repetition (.char (.simple 'a')) 2 none true) {} := by
  obtain ⟨-, hrounds, hfinished, hagain, -⟩ := optimizeTree_reaches_fixpoint {} (.regExp
    (.alternative [.group .nonCapturing (.repetition (.char (.simple 'a')) 1 (some 1) true),
      .repetition (.char (.simple 'a')) 1 none true]) {}) (by decide) (by decide)
  have hleft : (optimizeTree {} (.regExp (.alternative
      [.group .nonCapturing (.repetition (.char (.simple 'a')) 1 (some 1) true),
        .repetition (.char (.simple 'a')) 1 none true]) {})).1 =
      .regExp (.repetition (.char (.simple 'a')) 2 none true) {} := by decide +kernel
  rw [hleft] at hfinished hagain
  exact ⟨hrounds, hfinished, hagain⟩

end Optimizer

end RegexKit
