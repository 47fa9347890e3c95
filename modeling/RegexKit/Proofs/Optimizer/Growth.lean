import RegexKit.Source
import RegexKit.Proofs.Optimizer.Stable

/-! How the optimizer changes the number of nodes. Taking quantifiers and groups away leaves fewer
nodes, and so does joining intervals of a class; but a range of two neighbouring code points is
one node and is written as two characters. So the number of nodes in which such ranges count
twice never grows, whatever rules are enabled, and the number of nodes itself grows by at most one
for each such range. -/

namespace RegexKit

namespace Node

/-! ### Sizes of trees -/

def isRange : Node → Bool
  | classRange _ _ => true
  | _ => false

/-- A size that counts one for every node besides its children; a range may count for more. -/
structure IsSize (f : Node → Nat) : Prop where
  node {n : Node} (h : n.isRange = false) : f n = total f n.children + 1

variable {f : Node → Nat} {n m : Node} {ns ms : List Node}

/-- Smaller children make a smaller node. -/
theorem IsSize.congruence (hf : IsSize f) : Rewrite.Congruence fun _ n m => f m ≤ f n := by
  have hnode : ∀ {n m : Node}, n.isRange = false → m.isRange = false →
      total f m.children ≤ total f n.children → f m ≤ f n := by
    intro n m hn hm h
    rw [hf.node hn, hf.node hm]
    exact Nat.succ_le_succ h
  exact {
    refl := fun _ _ => Nat.le_refl _
    trans := fun hab hbc => Nat.le_trans hbc hab
    regExp := fun _ h => hnode rfl rfl (by simpa [children] using h)
    alternative := fun h => hnode rfl rfl (total_mono h)
    disjunction := fun h => hnode rfl rfl (total_mono h)
    group := fun _ h => hnode rfl rfl (by simpa [children] using h)
    charClass := fun _ h => hnode rfl rfl (total_mono h)
    repetition := fun _ _ _ h => hnode rfl rfl (by simpa [children] using h) }

/-! ### Pairs -/

/-- A range of two neighbouring code points. -/
def isPair : Node → Bool
  | classRange low high =>
    match low.codePoint?, high.codePoint? with
    | some x, some y => y == x + 1
    | _, _ => false
  | _ => false

/-- The number of ranges of two neighbouring code points in the tree. -/
def pairs (n : Node) : Nat := n.preorder.countP isPair

/-- The number of nodes when every such range counts for two. -/
def spread (n : Node) : Nat := n.count + n.pairs

theorem total_count (ns : List Node) : total count ns = countList ns := by
  induction ns with
  | nil => rfl
  | cons n ns ih => rw [total_cons, countList, ih]

theorem total_spread (ns : List Node) :
    total spread ns = countList ns + (ns.flatMap preorder).countP isPair := by
  induction ns with
  | nil => rfl
  | cons n ns ih =>
    rw [total_cons, ih, countList, List.flatMap_cons, List.countP_append, spread, pairs]
    omega

theorem isSize_count : IsSize count where
  node {n} _ := by rw [count_eq, total_count, Nat.add_comm]

/-- A node counts for one more than its children, a pair for two. -/
theorem spread_eq (n : Node) :
    n.spread = total spread n.children + if n.isPair then 2 else 1 := by
  rw [spread, pairs, count_eq, preorder_eq, List.countP_cons, total_spread]
  split <;> omega

theorem isSize_spread : IsSize spread where
  node {n} h := by
    have hpair : n.isPair = false := by cases n <;> first | rfl | cases h
    rw [spread_eq, hpair]
    rfl

end Node

open Node

namespace Optimizer

variable {f : Node → Nat} {parent : Option NodeType} {a b : Node}

/-! ### Quantifiers and groups -/

theorem size_degenerate (hf : IsSize f) (h : Degenerate.rewrite parent a = some b) : f b ≤ f a := by
  obtain ⟨greedy, rfl⟩ := Degenerate.once?_eq_some h
  rw [hf.node (n := .repetition b 1 (some 1) greedy) rfl]
  simp [children]

/-- A fused repetition is no larger than the one before. -/
theorem size_fuse? {previous n m : Node} (hf : IsSize f) (h : Fusion.fuse? previous n = some m) :
    f m = f n := by
  obtain ⟨min, max, greedy, rfl, rfl, -⟩ := Fusion.fuse?_eq_some h
  rw [hf.node rfl, hf.node rfl]
  rfl

theorem size_fusion (hf : IsSize f) (h : Fusion.rewrite parent a = some b) : f b ≤ f a := by
  obtain ⟨es, rfl, hb⟩ := Fusion.fused?_eq_some h
  have hle : total f (Fusion.fuseOnto [] es) ≤ total f es := by
    simpa using total_fuseOnto_le (size_fuse? hf) [] es
  rw [hf.node (n := .alternative es) rfl]
  rcases hb with rfl | hb
  · rw [hf.node rfl]
    exact Nat.succ_le_succ hle
  · rw [hb, total_cons, total_nil, Nat.add_zero] at hle
    exact Nat.le_succ_of_le hle

/-- The items of a group are smaller than the group. -/
theorem total_items?_lt {n : Node} {es : List Node} (hf : IsSize f)
    (h : Ungroup.items? n = some es) : total f es < f n := by
  obtain ⟨e, rfl, rfl | ⟨rfl, -⟩⟩ := Ungroup.items?_eq_some h
  · rw [hf.node rfl]
    simp only [children, total_cons, total_nil]
    rw [hf.node rfl]
    simp only [children]
    omega
  · rw [hf.node (n := .group .nonCapturing e) rfl]
    simp [children]

theorem size_ungroup (hf : IsSize f) (h : Ungroup.rewrite parent a = some b) : f b ≤ f a := by
  rcases Ungroup.rewrite_eq_some h with ⟨es, rfl, rfl⟩ | ⟨rfl, -, -⟩
  · rw [hf.node rfl, hf.node rfl]
    exact Nat.succ_le_succ (Nat.le_of_add_right_le (total_spliced_le (total_items?_lt hf) es))
  · rw [hf.node (n := .group .nonCapturing b) rfl]
    simp [children]

/-- A size that putting classes in order does not raise is not raised by the optimizer. -/
theorem size_optimizeTree_le (hf : IsSize f) (o : Options) (n : Node)
    (hc : o.normalizeClassRanges = true → ∀ flags parent a b,
      ClassRanges.rewrite flags parent a = some b → f b ≤ f a) :
    f (optimizeTree o n).1 ≤ f n := by
  refine optimizeTree_keeps hf.congruence o n fun g hg parent a b h => ?_
  simp only [rewrites, List.mem_append] at hg
  rcases hg with ((hg | hg) | hg) | hg <;> split at hg <;>
    simp only [List.mem_singleton, List.not_mem_nil] at hg <;> subst hg
  · exact size_degenerate hf h
  · exact size_fusion hf h
  · exact size_ungroup hf h
  · rename_i hon
    exact hc hon _ _ _ _ h

/-! ### Classes -/

/-- The size of what an interval is written as. -/
def written (i : Interval) : Nat := if i.high = i.low + 1 then 2 else 1

/-- A member with an interval counts for what the interval is written as. -/
theorem spread_of_interval? {m : Node} {i : Interval} (h : ClassRanges.interval? m = some i) :
    m.spread = written i := by
  cases m with
  | char c =>
    obtain ⟨n, -, rfl⟩ := Option.map_eq_some_iff.1 (show c.codePoint?.map _ = some i from h)
    rw [isSize_spread.node rfl, written, if_neg (by simp)]
    rfl
  | classRange low high =>
    simp only [ClassRanges.interval?] at h
    split at h
    · rename_i x y hx hy
      split at h
      · cases h
        rw [spread_eq, written]
        simp [isPair, hx, hy, children]
      · cases h
    · cases h
  | _ => simp [ClassRanges.interval?] at h

/-- The members of a class count for those without an interval and the intervals of the others. -/
theorem total_members (ms : List Node) :
    total spread ms = total spread (ms.filter fun m => (ClassRanges.interval? m).isNone) +
      ((ms.filterMap ClassRanges.interval?).map written).sum := by
  induction ms with
  | nil => rfl
  | cons m ms ih =>
    cases hm : ClassRanges.interval? m with
    | none =>
      rw [List.filter_cons_of_pos (by simp [hm]), List.filterMap_cons_none hm, total_cons,
        total_cons, ih, Nat.add_assoc]
    | some i =>
      rw [List.filter_cons_of_neg (by simp [hm]), List.filterMap_cons_some hm, total_cons, ih,
        spread_of_interval? hm, List.map_cons, List.sum_cons, Nat.add_left_comm]

theorem written_pos (i : Interval) : 0 < written i := by
  rw [written]
  split <;> omega

/-- Joining two intervals writes no more, since each is written as one member at least and an
interval as two at most. -/
theorem written_coalesceFrom_le (i : Interval) (is : List Interval) :
    ((Interval.coalesceFrom i is).map written).sum ≤ written i + (is.map written).sum := by
  induction is generalizing i with
  | nil => simp [Interval.coalesceFrom]
  | cons j js ih =>
    rw [Interval.coalesceFrom, List.map_cons, List.sum_cons]
    split
    · have hjoined := ih ⟨i.low, max i.high j.high⟩
      have htwo : written ⟨i.low, max i.high j.high⟩ ≤ 2 := by
        rw [written]
        split <;> omega
      have hi := written_pos i
      have hj := written_pos j
      omega
    · have hapart := ih j
      rw [List.map_cons, List.sum_cons]
      omega

theorem written_coalesce_le (is : List Interval) :
    ((Interval.coalesce is).map written).sum ≤ (is.map written).sum := by
  have hsort : ((Interval.sort is).map written).sum = (is.map written).sum :=
    ((List.mergeSort_perm is Interval.le).map written).sum_nat
  rw [← hsort, Interval.coalesce]
  cases Interval.sort is with
  | nil => exact Nat.le_refl _
  | cons i js => exact written_coalesceFrom_le i js

/-- The members written for an interval count for what it is written as. -/
theorem total_membersOf {known : List (Nat × PatternChar)} {i : Interval}
    (h : ClassRanges.SpellsEnds known i) :
    total spread (ClassRanges.membersOf known i) = written i := by
  have hmembers : ∀ m ∈ ClassRanges.membersOf known i, ∃ j, ClassRanges.interval? m = some j :=
    fun m hm => Option.ne_none_iff_exists'.1 (ClassRanges.interval?_ne_none_of_mem h hm)
  have hnone : (ClassRanges.membersOf known i).filter
      (fun m => (ClassRanges.interval? m).isNone) = [] := by
    refine List.filter_eq_nil_iff.2 fun m hm => ?_
    obtain ⟨j, hj⟩ := hmembers m hm
    simp [hj]
  rw [total_members, hnone, ClassRanges.filterMap_membersOf h, Interval.pieces, total_nil]
  split
  · rename_i hpair
    simp [written, hpair]
  · simp

/-- A class in order counts for no more than the class as it was written. -/
theorem total_normalForm_le (ms : List Node) :
    total spread (ClassRanges.normalForm ms) ≤ total spread ms := by
  have hwritten : ∀ is : List Interval,
      (∀ i ∈ is, i ∈ Interval.coalesce (ms.filterMap ClassRanges.interval?)) →
      total spread (is.flatMap (ClassRanges.membersOf (ms.flatMap ClassRanges.spellings))) =
        (is.map written).sum := by
    intro is his
    induction is with
    | nil => rfl
    | cons i is ih =>
      rw [List.flatMap_cons, total_append, ih fun j hj => his j (List.mem_cons_of_mem _ hj),
        total_membersOf (ClassRanges.spellsEnds_of_mem (his i List.mem_cons_self)),
        List.map_cons, List.sum_cons]
  rw [ClassRanges.normalForm, total_append, hwritten _ fun _ hi => hi, total_members ms]
  exact Nat.add_le_add_left (written_coalesce_le _) _

theorem spread_classRanges {flags : Flags} (h : ClassRanges.rewrite flags parent a = some b) :
    b.spread ≤ a.spread := by
  obtain ⟨negated, ms, rfl, rfl⟩ := ClassRanges.rewrite_eq_some h
  rw [isSize_spread.node rfl, isSize_spread.node rfl]
  exact Nat.succ_le_succ (total_normalForm_le ms)

/-! ### The whole tree -/

/-- Nodes and ranges of two neighbouring code points together never become more, so a tree grows by
no more nodes than such ranges are given up. A tree without such ranges does not grow, nor does any
tree when classes are left alone. -/
theorem optimizeTree_count_le (o : Options) (n : Node) :
    (optimizeTree o n).1.count + (optimizeTree o n).1.pairs ≤ n.count + n.pairs ∧
      (o.normalizeClassRanges = false ∨ n.pairs = 0 → (optimizeTree o n).1.count ≤ n.count) := by
  have hspread : (optimizeTree o n).1.spread ≤ n.spread :=
    size_optimizeTree_le isSize_spread o n fun _ _ _ _ _ h => spread_classRanges h
  rw [spread, spread] at hspread
  refine ⟨hspread, ?_⟩
  rintro (hoff | hnone)
  · refine size_optimizeTree_le isSize_count o n fun hon => ?_
    rw [hoff] at hon
    cases hon
  · omega

/-- The range of `/[a-b]/` is written as two characters, and the tree of three nodes becomes one of
four. -/
theorem optimizeTree_count_grows :
    ∃ n, Source.parse ['/', '[', 'a', '-', 'b', ']', '/'] = .ok n ∧ n.count = 3 ∧
      (optimizeTree {} n).1.count = 4 ∧
      (optimizeTree {} n).1.render = .ok ['/', '[', 'a', 'b', ']', '/'] := by
  have hsource : Source.parse ['/', '[', 'a', '-', 'b', ']', '/'] =
      .ok (.regExp (.charClass false [.classRange (.simple 'a') (.simple 'b')]) {}) := by
    decide +kernel
  have hform : ClassRanges.normalForm [.classRange (.simple 'a') (.simple 'b')] =
      [.char (.simple 'a'), .char (.simple 'b')] := by
    have hinterval : [Node.classRange (.simple 'a') (.simple 'b')].filterMap ClassRanges.interval? =
        [⟨97, 98⟩] := by decide
    have hone : Interval.coalesce [⟨97, 98⟩] = [⟨97, 98⟩] := by
      simp [Interval.coalesce, Interval.sort, Interval.coalesceFrom]
    rw [ClassRanges.normalForm, hinterval, hone]
    decide
  have hrule (parent : Option NodeType) : ClassRanges.rewrite {} parent
      (.charClass false [.classRange (.simple 'a') (.simple 'b')]) =
      some (.charClass false [.char (.simple 'a'), .char (.simple 'b')]) := by
    simp [ClassRanges.rewrite, ClassRanges.normalized?, hform]
  have hclass : (ClassRanges.rewrite {}).up (some .regExp)
      (.charClass false [.classRange (.simple 'a') (.simple 'b')]) =
      .charClass false [.char (.simple 'a'), .char (.simple 'b')] := by
    change (ClassRanges.rewrite {}).apply (some .regExp)
      (.charClass false [.classRange (.simple 'a') (.simple 'b')]) = _
    rw [Rewrite.apply, hrule, Option.getD_some]
  have hround : Rewrite.upAll (rewrites {} {})
      (.regExp (.charClass false [.classRange (.simple 'a') (.simple 'b')]) {}) =
      .regExp (.charClass false [.char (.simple 'a'), .char (.simple 'b')]) {} := by
    change Node.regExp ((ClassRanges.rewrite {}).up (some .regExp)
      (.charClass false [.classRange (.simple 'a') (.simple 'b')])) {} = _
    rw [hclass]
  -- The second round finds the class in order, and nothing to fuse or to leave out.
  have hquiet : Rewrite.hitsAll (rewrites {} {})
      (.regExp (.charClass false [.char (.simple 'a'), .char (.simple 'b')]) {}) = 0 := by
    have hordered := hitsAll_ordering_round {} {}
      (.regExp (.charClass false [.classRange (.simple 'a') (.simple 'b')]) {})
    rw [hround] at hordered
    rw [rewrites_eq, Rewrite.hitsAll_append]
    exact Nat.add_eq_zero_iff.2 ⟨rfl, hordered⟩
  have hleft : (optimizeTree {}
      (.regExp (.charClass false [.classRange (.simple 'a') (.simple 'b')]) {})).1 =
      .regExp (.charClass false [.char (.simple 'a'), .char (.simple 'b')]) {} := by
    rw [← hround] at hquiet
    exact (optimizeTree_of_quiet_round (by decide) hquiet).trans hround
  exact ⟨_, hsource, by decide, by rw [hleft]; decide, by rw [hleft]; decide⟩

end Optimizer

end RegexKit
