import RegexKit.Proofs.Walk.History

/-! What a walk keeps true of its own bookkeeping, whatever its handlers do. The tree at a call is
the tree at the call before with the edit of that call made in place; what a handler is told of
its node is where the node is in that tree; the children of a node are visited once each and in
order, and those that stay are what the node holds afterwards; and the counts count. Each of
these is kept by one visit when the visits to the children keep it, so it holds of all walks. -/

namespace RegexKit

namespace Walk

open Node

variable {σ : Type}

namespace Event

/-- What the handlers are told of the node is where it is in the tree. -/
structure Located (e : Event) : Prop where
  found : at? e.position e.tree = some e.node
  ancestors : e.ancestors = typesTo e.position e.tree
  slot : e.slot = e.position.getLast?.getD .root

/-- The call is one of the handlers. -/
def Answered (h : Handlers σ) (e : Event) : Prop :=
  ∃ p q, dispatch h e.phase e.ancestors e.slot e.node p = (e.left, e.signals, q)

end Event

/-- From the first tree each event finds the tree that the edits before it have made, and after
the last of them there is the last tree. -/
def Continuous : Node → List Event → Node → Prop
  | t, [], t' => t' = t
  | t, e :: es, t' => e.tree = t ∧ ∃ u, putAt e.remains e.position t = some u ∧ Continuous u es t'

theorem Continuous.append {t u t' : Node} {es es' : List Event} (h : Continuous t es u)
    (h' : Continuous u es' t') : Continuous t (es ++ es') t' := by
  induction es generalizing t with
  | nil =>
    cases h
    exact h'
  | cons e es ih =>
    obtain ⟨htree, w, hput, hes⟩ := h
    exact ⟨htree, w, hput, ih hes⟩

namespace History

/-- What a visit leaves in the slot of its node. -/
def remains (v : History) : Option Node := if v.flow = .removed then none else some v.left

/-- The visits are to the children of the node that was left on entering, one by one and in order.
Each child is told the number of those before it that stay; after a stop there are no visits. -/
structure Descends (e : Event) (below : List History) : Prop where
  verdict : e.verdict? = none
  skip : e.signals.skip = false
  children : below.map (fun v => v.enter.node) <+: e.left.children
  placed : ∀ earlier v later, below = earlier ++ v :: later →
    v.enter.phase = .enter ∧ v.enter.ancestors = e.ancestors ++ [e.left.type] ∧
      v.enter.slot = e.left.slotAt (survivors earlier).length
  last : ∀ earlier v later, below = earlier ++ v :: later → v.flow = .stopped → later = []

/-- The calls and the visits below make up a visit as they should. A full visit has visited every
child present after entering, and on leaving finds the node with the children that stay. -/
def Whole : History → Prop
  | ended e => e.phase = .enter ∧ e.verdict?.isSome = true
  | skipped e x =>
    e.phase = .enter ∧ x.phase = .exit ∧ e.verdict? = none ∧ e.signals.skip = true ∧
      x.node = e.left
  | stopped e below => e.phase = .enter ∧ Descends e below ∧ anyStopped below = true
  | full e below x =>
    e.phase = .enter ∧ x.phase = .exit ∧ Descends e below ∧ anyStopped below = false ∧
      below.map (fun v => v.enter.node) = e.left.children ∧
      x.node = e.left.withChildren (survivors below)

theorem survivors_cons (v : History) (vs : List History) :
    survivors (v :: vs) = v.remains.toList ++ survivors vs := by
  rw [survivors, remains]
  split <;> rfl

end History

/-! ### One call -/

variable {h : Handlers σ} {fs : List Frame} {n : Node} {p : Progress σ}

theorem verdict?_root_ne_removed (signals : Signals) :
    Walk.verdict? .root signals ≠ some .removed := by
  unfold Walk.verdict?
  split
  · nofun
  · simp

theorem Event.remains_eq_none_iff {e : Event} :
    e.remains = none ↔ e.verdict? = some .removed := by
  simp [Event.remains, Event.removes]

/-- A noted call is one of the handlers, and they are told where the node is. -/
theorem observe_spec (hfs : ∀ f ∈ fs, f.Fits) (h : Handlers σ) (phase : Phase) (n : Node)
    (p : Progress σ) :
    (observe h phase fs n p).1.Located ∧ (observe h phase fs n p).1.Answered h :=
  ⟨⟨at?_plug hfs n, (typesTo_plug hfs n).symm, (getLast?_position fs).symm⟩, p, _, rfl⟩

/-- The root stays, whatever the handlers ask for. -/
theorem exists_plugOr_observe (h : Handlers σ) (phase : Phase) (fs : List Frame) (n : Node)
    (p : Progress σ) : ∃ u, plugOr fs (observe h phase fs n p).1.remains = some u := by
  cases fs with
  | cons f fs => exact ⟨_, plugOr_cons _ _ _⟩
  | nil =>
    cases hremains : (observe h phase [] n p).1.remains with
    | some m => exact ⟨m, rfl⟩
    | none => exact absurd (Event.remains_eq_none_iff.1 hremains) (verdict?_root_ne_removed _)

/-- A noted call edits the tree at the node in its frames. -/
theorem continuous_observe (hfs : ∀ f ∈ fs, f.Fits) {phase : Phase} {u t : Node}
    {es : List Event} (hu : plugOr fs (observe h phase fs n p).1.remains = some u)
    (hes : Continuous u es t) :
    Continuous (plug fs n) ((observe h phase fs n p).1 :: es) t :=
  ⟨rfl, u, (putAt_plug hfs n _).trans hu, hes⟩

/-! ### Counts -/

/-- The calls in which a replacement was signalled. -/
def replacements (es : List Event) : Nat := es.countP fun e => e.signals.replaced

/-- One for a visit that ended in a removal. -/
def Flow.removals : Flow → Nat
  | .removed => 1
  | .kept | .stopped => 0

/-- The calls that ended in the removal of their node. -/
def removals (es : List Event) : Nat := es.countP Event.removes

@[simp] theorem Progress.entered_enter (p : Progress σ) :
    p.enter.stats.entered = p.stats.entered + 1 := rfl

@[simp] theorem Progress.mutations_enter (p : Progress σ) :
    p.enter.stats.mutations = p.stats.mutations := rfl

theorem observe_entered (h : Handlers σ) (phase : Phase) (fs : List Frame) (n : Node)
    (p : Progress σ) : (observe h phase fs n p).2.stats.entered = p.stats.entered := by
  simp only [observe, dispatch]
  split
  · simp only
    split <;> rfl
  · rfl

theorem observe_mutations (h : Handlers σ) (phase : Phase) (fs : List Frame) (n : Node)
    (p : Progress σ) :
    (observe h phase fs n p).2.stats.mutations =
      p.stats.mutations + if (observe h phase fs n p).1.signals.replaced then 1 else 0 := by
  simp only [observe, dispatch]
  split
  · simp only
    split <;> rfl
  · rfl

theorem settle_stats (t : Event × Progress σ) :
    (settle t).stats.entered = t.2.stats.entered ∧
      (settle t).stats.mutations = t.2.stats.mutations := by
  unfold settle conclude
  split <;> exact ⟨rfl, rfl⟩

@[simp] theorem replacements_nil : replacements [] = 0 := rfl

@[simp] theorem removals_nil : removals [] = 0 := rfl

@[simp] theorem replacements_cons (e : Event) (es : List Event) :
    replacements (e :: es) = replacements es + if e.signals.replaced then 1 else 0 :=
  List.countP_cons

@[simp] theorem removals_cons (e : Event) (es : List Event) :
    removals (e :: es) = removals es + (e.verdict?.getD .kept).removals := by
  rw [removals, List.countP_cons, Event.removes, removals]
  cases e.verdict? with
  | none => rfl
  | some flow => cases flow <;> rfl

@[simp] theorem replacements_append (es es' : List Event) :
    replacements (es ++ es') = replacements es + replacements es' := List.countP_append

@[simp] theorem removals_append (es es' : List Event) :
    removals (es ++ es') = removals es + removals es' := List.countP_append

/-! ### Visits -/

/-- What a visit to a node in its frames keeps. -/
structure Faithful (h : Handlers σ) (fs : List Frame) (n : Node) (p : Progress σ)
    (t : Traced σ) : Prop where
  calls : ∀ e ∈ t.1.events, e.Located ∧ e.Answered h
  continuous : ∃ u, plugOr fs t.1.remains = some u ∧ Continuous (plug fs n) t.1.events u
  whole : ∀ v ∈ t.1.visits, v.Whole
  phase : t.1.enter.phase = .enter
  node : t.1.enter.node = n
  ancestors : t.1.enter.ancestors = kinds fs
  slot : t.1.enter.slot = slotOf fs
  entered : t.2.stats.entered = p.stats.entered + t.1.visits.length
  mutations : t.2.stats.mutations + t.1.flow.removals =
    p.stats.mutations + replacements t.1.events + removals t.1.events

/-- What visits to the children of a node keep, after others of them that stay. -/
structure FaithfulBelow (h : Handlers σ) (fs : List Frame) (parent : Node)
    (before ns : List Node) (p : Progress σ) (r : List History × Progress σ) : Prop where
  calls : ∀ e ∈ History.eventsList r.1, e.Located ∧ e.Answered h
  continuous : Continuous (plug fs (parent.withChildren (before ++ ns)))
    (History.eventsList r.1) (plug fs (parent.withChildren (before ++ leftOf r.1 ns)))
  whole : ∀ v ∈ History.visitsList r.1, v.Whole
  children : r.1.map (fun v => v.enter.node) <+: ns
  placed : ∀ earlier v later, r.1 = earlier ++ v :: later →
    v.enter.phase = .enter ∧ v.enter.ancestors = kinds fs ++ [parent.type] ∧
      v.enter.slot = parent.slotAt (before.length + (History.survivors earlier).length)
  last : ∀ earlier v later, r.1 = earlier ++ v :: later → v.flow = .stopped → later = []
  entered : r.2.stats.entered = p.stats.entered + (History.visitsList r.1).length
  mutations : r.2.stats.mutations =
    p.stats.mutations + replacements (History.eventsList r.1) + removals (History.eventsList r.1)

variable {parent : Node} {before ns : List Node}

/-- Before any visit there is nothing to keep. -/
theorem FaithfulBelow.nil (h : Handlers σ) (fs : List Frame) (parent : Node)
    (before ns : List Node) (p : Progress σ) : FaithfulBelow h fs parent before ns p ([], p) where
  calls := nofun
  continuous := rfl
  whole := nofun
  children := List.nil_prefix
  placed earlier v later h := by cases earlier <;> cases h
  last earlier v later h := by cases earlier <;> cases h
  entered := rfl
  mutations := rfl

/-- A visit to the first child and visits to the others. -/
theorem FaithfulBelow.cons {t : Traced σ} {q : Progress σ} {r : List History × Progress σ}
    (ht : Faithful h (⟨parent, before, ns⟩ :: fs) n p t)
    (hr : FaithfulBelow h fs parent (before ++ t.1.remains.toList) ns q r)
    (hstopped : t.1.flow = .stopped → r.1 = []) (hentered : q.stats.entered = t.2.stats.entered)
    (hmutations : q.stats.mutations = t.2.stats.mutations + t.1.flow.removals) :
    FaithfulBelow h fs parent before (n :: ns) p (t.1 :: r.1, r.2) where
  calls e he := by
    rcases List.mem_append.1 he with he | he
    · exact ht.calls e he
    · exact hr.calls e he
  continuous := by
    obtain ⟨u, hu, hcontinuous⟩ := ht.continuous
    rw [plugOr_cons] at hu
    cases hu
    have hrest := hr.continuous
    have hleft : before ++ t.1.remains.toList ++ leftOf r.1 ns =
        before ++ leftOf (t.1 :: r.1) (n :: ns) := by
      simp [leftOf, History.survivors_cons]
    rw [hleft] at hrest
    exact hcontinuous.append hrest
  whole v hv := by
    rcases List.mem_append.1 hv with hv | hv
    · exact ht.whole v hv
    · exact hr.whole v hv
  children := by
    rw [List.map_cons, ht.node]
    exact List.cons_prefix_cons.2 ⟨rfl, hr.children⟩
  placed earlier v later h := by
    cases earlier with
    | nil =>
      cases h
      exact ⟨ht.phase, ht.ancestors.trans (kinds_cons _ _), ht.slot⟩
    | cons w earlier =>
      obtain ⟨rfl, hlater⟩ := List.cons.inj h
      have hplaced := hr.placed earlier v later hlater
      rwa [List.length_append, Nat.add_assoc, ← List.length_append, ← History.survivors_cons]
        at hplaced
  last earlier v later h hflow := by
    cases earlier with
    | nil =>
      cases h
      exact hstopped hflow
    | cons w earlier => exact hr.last earlier v later (List.cons.inj h).2 hflow
  entered := by
    rw [hr.entered, hentered, ht.entered, History.visitsList, List.length_append, Nat.add_assoc]
  mutations := by
    rw [hr.mutations, hmutations, ht.mutations, History.eventsList, replacements_append,
      removals_append]
    omega

/-- Visits to children keep what each of them keeps. -/
theorem faithful_traceChildren {v : Frame → Node → Progress σ → Option (Traced σ)}
    (hv : ∀ f, f.parent = parent → f.Fits → ∀ n p t, v f n p = some t →
      Faithful h (f :: fs) n p t)
    (hlength : before.length + ns.length ≤ parent.children.length) {p : Progress σ}
    {r : List History × Progress σ} (hr : traceChildren v parent before ns p = some r) :
    FaithfulBelow h fs parent before ns p r := by
  induction ns generalizing before p r with
  | nil =>
    cases hr
    exact .nil h fs parent before [] p
  | cons n ns ih =>
    rw [List.length_cons] at hlength
    rw [traceChildren] at hr
    obtain ⟨t, ht, hr⟩ := Option.bind_eq_some_iff.1 hr
    have hfits : before.length + ns.length < parent.children.length := by omega
    have hfaithful := hv ⟨parent, before, ns⟩ rfl hfits n p t ht
    split at hr
    · rename_i hflow
      obtain ⟨r, hrest, rfl⟩ := Option.map_eq_some_iff.1 hr
      have hremains : t.1.remains = some t.1.left := by simp [History.remains, hflow]
      refine .cons (q := t.2) hfaithful (ih ?_ ?_) (by simp [hflow]) rfl
        (by rw [hflow]; rfl)
      · simp only [hremains, Option.toList_some, List.length_append, List.length_singleton]
        omega
      · rw [hremains]
        exact hrest
    · rename_i hflow
      obtain ⟨r, hrest, rfl⟩ := Option.map_eq_some_iff.1 hr
      have hremains : t.1.remains = none := by simp [History.remains, hflow]
      refine .cons (q := t.2.mutate) hfaithful (ih ?_ ?_) (by simp [hflow]) rfl
        (by rw [hflow]; rfl)
      · simp only [hremains, Option.toList_none, List.append_nil]
        omega
      · rw [hremains, Option.toList_none, List.append_nil]
        exact hrest
    · rename_i hflow
      cases hr
      exact .cons (q := t.2) hfaithful (.nil h fs parent _ ns t.2) (fun _ => rfl) rfl
        (by rw [hflow]; rfl)

/-- What a visit leaves is what the call that decided on it leaves. -/
theorem remains_of_verdict (e : Event) :
    (if e.verdict?.getD .kept = .removed then none else some e.left) = e.remains := by
  rw [Event.remains, Event.removes]
  cases e.verdict? with
  | none => rfl
  | some flow => cases flow <;> rfl

theorem remains_of_no_verdict {e : Event} (h : e.verdict? = none) : e.remains = some e.left := by
  rw [← remains_of_verdict, h]
  rfl

/-- A visit that the call on entering ends. -/
theorem faithful_ended (h : Handlers σ) (hfs : ∀ f ∈ fs, f.Fits) (n : Node) (p : Progress σ)
    (hverdict : (observe h .enter fs n p.enter).1.verdict?.isSome = true) :
    Faithful h fs n p (.ended (observe h .enter fs n p.enter).1,
      settle (observe h .enter fs n p.enter)) where
  calls e he := by
    obtain rfl := List.mem_singleton.1 he
    exact observe_spec hfs h .enter n p.enter
  continuous := by
    obtain ⟨u, hu⟩ := exists_plugOr_observe h .enter fs n p.enter
    refine ⟨u, ?_, continuous_observe hfs hu rfl⟩
    rw [← hu]
    exact congrArg _ (remains_of_verdict _)
  whole v hv := by
    obtain rfl := List.mem_singleton.1 hv
    exact ⟨rfl, hverdict⟩
  phase := rfl
  node := rfl
  ancestors := rfl
  slot := rfl
  entered := (settle_stats _).1.trans (observe_entered h .enter fs n p.enter)
  mutations := by
    rw [(settle_stats _).2, observe_mutations, History.events]
    simp only [replacements_cons, removals_cons, replacements_nil, removals_nil, Nat.zero_add]
    rfl

/-- A call without a verdict leaves its node in the tree. -/
theorem continuous_of_no_verdict (hfs : ∀ f ∈ fs, f.Fits) {phase : Phase} {t : Node}
    {es : List Event} (hverdict : (observe h phase fs n p).1.verdict? = none)
    (hes : Continuous (plug fs (observe h phase fs n p).1.left) es t) :
    Continuous (plug fs n) ((observe h phase fs n p).1 :: es) t := by
  refine continuous_observe hfs ?_ hes
  rw [remains_of_no_verdict hverdict, plugOr]

/-- The call on leaving a node ends the visit. -/
theorem exists_continuous_exit (h : Handlers σ) (hfs : ∀ f ∈ fs, f.Fits) (n : Node)
    (p : Progress σ) :
    ∃ u, plugOr fs (observe h .exit fs n p).1.remains = some u ∧
      Continuous (plug fs n) [(observe h .exit fs n p).1] u := by
  obtain ⟨u, hu⟩ := exists_plugOr_observe h .exit fs n p
  exact ⟨u, hu, continuous_observe hfs hu rfl⟩

/-- A visit that passes over the children. -/
theorem faithful_skipped (h : Handlers σ) (hfs : ∀ f ∈ fs, f.Fits) {n : Node} {p : Progress σ}
    {enter exit : Event × Progress σ} (henter : observe h .enter fs n p.enter = enter)
    (hexit : observe h .exit fs enter.1.left enter.2 = exit) (hverdict : enter.1.verdict? = none)
    (hskip : enter.1.signals.skip = true) :
    Faithful h fs n p (.skipped enter.1 exit.1, settle exit) := by
  subst hexit henter
  exact {
    calls := fun e he => by
      rcases List.mem_cons.1 he with rfl | he
      · exact observe_spec hfs h .enter n p.enter
      · obtain rfl := List.mem_singleton.1 he
        exact observe_spec hfs h .exit _ _
    continuous := by
      obtain ⟨u, hu, hexit⟩ := exists_continuous_exit h hfs
        (observe h .enter fs n p.enter).1.left (observe h .enter fs n p.enter).2
      refine ⟨u, ?_, continuous_of_no_verdict hfs hverdict hexit⟩
      rw [← hu]
      exact congrArg _ (remains_of_verdict _)
    whole := fun v hv => by
      obtain rfl := List.mem_singleton.1 hv
      exact ⟨rfl, rfl, hverdict, hskip, rfl⟩
    phase := rfl
    node := rfl
    ancestors := rfl
    slot := rfl
    entered := by
      rw [(settle_stats _).1, observe_entered, observe_entered]
      rfl
    mutations := by
      rw [(settle_stats _).2, observe_mutations, observe_mutations, History.events]
      simp only [replacements_cons, removals_cons, replacements_nil, removals_nil, hverdict,
        History.flow, Progress.mutations_enter, Option.getD_none, Flow.removals]
      omega }

/-- A visit whose children were visited, up to leaving the node. -/
theorem descends_of_faithfulBelow {enter : Event} {below : List History} {p q : Progress σ}
    (hverdict : enter.verdict? = none) (hskip : enter.signals.skip = false)
    (hancestors : enter.ancestors = kinds fs)
    (hbelow : FaithfulBelow h fs enter.left [] enter.left.children p (below, q)) :
    History.Descends enter below where
  verdict := hverdict
  skip := hskip
  children := hbelow.children
  placed earlier v later hv := by
    obtain ⟨hphase, hkinds, hslot⟩ := hbelow.placed earlier v later hv
    refine ⟨hphase, hkinds.trans (by rw [hancestors]), ?_⟩
    rwa [List.length_nil, Nat.zero_add] at hslot
  last := hbelow.last

/-- A visit that is stopped among the children. -/
theorem faithful_stopped (h : Handlers σ) (hfs : ∀ f ∈ fs, f.Fits) {n : Node} {p : Progress σ}
    {enter : Event × Progress σ} {r : List History × Progress σ}
    (henter : observe h .enter fs n p.enter = enter) (hverdict : enter.1.verdict? = none)
    (hskip : enter.1.signals.skip = false)
    (hbelow : FaithfulBelow h fs enter.1.left [] enter.1.left.children enter.2 r)
    (hstopped : anyStopped r.1 = true) : Faithful h fs n p (.stopped enter.1 r.1, r.2) := by
  subst henter
  exact {
    calls := List.forall_mem_cons.2 ⟨observe_spec hfs h .enter n p.enter, hbelow.calls⟩
    continuous := by
      refine ⟨_, rfl, continuous_of_no_verdict hfs hverdict ?_⟩
      have hcontinuous := hbelow.continuous
      rwa [List.nil_append, List.nil_append, withChildren_children] at hcontinuous
    whole := List.forall_mem_cons.2
      ⟨⟨rfl, descends_of_faithfulBelow hverdict hskip rfl hbelow, hstopped⟩, hbelow.whole⟩
    phase := rfl
    node := rfl
    ancestors := rfl
    slot := rfl
    entered := by
      rw [hbelow.entered, observe_entered, History.visits, List.length_cons,
        Progress.entered_enter]
      omega
    mutations := by
      rw [hbelow.mutations, observe_mutations, History.events]
      simp only [replacements_cons, removals_cons, hverdict, History.flow,
        Progress.mutations_enter, Option.getD_none, Flow.removals]
      omega }

/-- A visit that visits all children and leaves the node. -/
theorem faithful_full (h : Handlers σ) (hfs : ∀ f ∈ fs, f.Fits) {n : Node} {p : Progress σ}
    {enter exit : Event × Progress σ} {r : List History × Progress σ}
    (henter : observe h .enter fs n p.enter = enter) (hverdict : enter.1.verdict? = none)
    (hskip : enter.1.signals.skip = false)
    (hbelow : FaithfulBelow h fs enter.1.left [] enter.1.left.children enter.2 r)
    (hstopped : anyStopped r.1 = false) (hlength : r.1.length = enter.1.left.children.length)
    (hexit : observe h .exit fs (enter.1.left.withChildren (History.survivors r.1)) r.2 = exit) :
    Faithful h fs n p (.full enter.1 r.1 exit.1, settle exit) := by
  subst hexit henter
  have hleft : leftOf r.1 (observe h .enter fs n p.enter).1.left.children =
      History.survivors r.1 := by
    rw [leftOf, hlength, List.drop_length, List.append_nil]
  exact {
    calls := by
      refine List.forall_mem_cons.2 ⟨observe_spec hfs h .enter n p.enter, fun e he => ?_⟩
      rcases List.mem_append.1 he with he | he
      · exact hbelow.calls e he
      · obtain rfl := List.mem_singleton.1 he
        exact observe_spec hfs h .exit _ _
    continuous := by
      obtain ⟨u, hu, hexit⟩ := exists_continuous_exit h hfs
        ((observe h .enter fs n p.enter).1.left.withChildren (History.survivors r.1)) r.2
      have hcontinuous := hbelow.continuous
      rw [List.nil_append, List.nil_append, withChildren_children, hleft] at hcontinuous
      refine ⟨u, ?_, continuous_of_no_verdict hfs hverdict (hcontinuous.append hexit)⟩
      rw [← hu]
      exact congrArg _ (remains_of_verdict _)
    whole := List.forall_mem_cons.2
      ⟨⟨rfl, rfl, descends_of_faithfulBelow hverdict hskip rfl hbelow, hstopped,
        hbelow.children.eq_of_length (by rw [List.length_map, hlength]), rfl⟩, hbelow.whole⟩
    phase := rfl
    node := rfl
    ancestors := rfl
    slot := rfl
    entered := by
      rw [(settle_stats _).1, observe_entered, hbelow.entered, observe_entered, History.visits,
        List.length_cons, Progress.entered_enter]
      omega
    mutations := by
      rw [(settle_stats _).2, observe_mutations, hbelow.mutations, observe_mutations,
        History.events]
      simp only [replacements_cons, removals_cons, replacements_append, removals_append,
        replacements_nil, removals_nil, hverdict, History.flow, Progress.mutations_enter,
        Option.getD_none, Flow.removals]
      omega }

/-- A visit keeps the bookkeeping, whatever the handlers do. -/
theorem faithful_trace (h : Handlers σ) (limit : Nat) (hfs : ∀ f ∈ fs, f.Fits) {n : Node}
    {p : Progress σ} {t : Traced σ} (ht : trace h limit fs n p = some t) :
    Faithful h fs n p t := by
  induction limit generalizing fs n p t with
  | zero => cases ht
  | succ limit ih =>
    rw [trace] at ht
    cases hverdict : (observe h .enter fs n p.enter).1.verdict? with
    | some flow =>
      simp only [hverdict, Option.some.injEq] at ht
      subst ht
      exact faithful_ended h hfs n p (by rw [hverdict, Option.isSome_some])
    | none =>
      simp only [hverdict] at ht
      split at ht
      · rename_i hskip
        cases ht
        exact faithful_skipped h hfs rfl rfl hverdict hskip
      · rename_i hskip
        obtain ⟨r, hr, rfl⟩ := Option.map_eq_some_iff.1 ht
        have hvisits : ∀ f : Frame, f.parent = (observe h .enter fs n p.enter).1.left → f.Fits →
            ∀ m q t, trace h limit (f :: fs) m q = some t → Faithful h (f :: fs) m q t :=
          fun f _ hf m q t ht => ih (List.forall_mem_cons.2 ⟨hf, hfs⟩) ht
        have hbelow := faithful_traceChildren hvisits (by simp) hr
        cases hstopped : anyStopped r.1 with
        | true =>
          simp only [if_true]
          exact faithful_stopped h hfs rfl hverdict (by simpa using hskip) hbelow hstopped
        | false =>
          simp only [Bool.false_eq_true, if_false]
          exact faithful_full h hfs rfl hverdict (by simpa using hskip) hbelow hstopped
            (length_traceChildren hr hstopped) rfl

/-! ### Walks -/

/-- The bookkeeping of a walk that ends, for all handlers. Its history is one of calls of the
handlers in which each call finds the tree as the edits before it have made it, is told the kinds
of the nodes on the way to its node and the slot where the node is, and the last tree is the
result. Every visit is whole: a node that is descended into has each of its children visited once
and in order, unless the walk is stopped among them, and holds what these visits left and did not
remove. The visits begun are counted, and the replacements signalled with the removals made. -/
theorem bookkeeping_run {limit : Nat} {h : Handlers σ} {root : Node} {state : σ}
    {o : Outcome σ} (hrun : run? limit h root state = some o) :
    ∃ v : History, trace? limit h root state = some (v, o) ∧
      (∀ e ∈ v.events, e.Located ∧ e.Answered h) ∧
      Continuous root v.events o.tree ∧
      (∀ w ∈ v.visits, w.Whole) ∧
      o.stats.entered = v.visits.length ∧
      o.stats.mutations = replacements v.events + removals v.events := by
  rw [← map_snd_trace?] at hrun
  obtain ⟨⟨v, o⟩, htrace, rfl⟩ := Option.map_eq_some_iff.1 hrun
  obtain ⟨t, ht, hout⟩ := Option.map_eq_some_iff.1 htrace
  cases hout
  have hfaithful : Faithful h [] root { state } t :=
    faithful_trace h limit (List.forall_mem_nil _) ht
  obtain ⟨u, hu, hcontinuous⟩ := hfaithful.continuous
  have hkept : t.1.flow ≠ .removed := by
    intro hflow
    rw [History.remains, if_pos hflow] at hu
    cases hu
  rw [History.remains, if_neg hkept] at hu
  cases hu
  have hmutations := hfaithful.mutations
  have hzero : t.1.flow.removals = 0 := by
    cases hflow : t.1.flow with
    | removed => exact absurd hflow hkept
    | kept | stopped => rfl
  rw [hzero, Nat.add_zero] at hmutations
  refine ⟨t.1, htrace, hfaithful.calls, hcontinuous, hfaithful.whole, ?_, ?_⟩
  · simpa using hfaithful.entered
  · simpa using hmutations

/-- A walk over `abc` that removes `b` on entering it, and `c` on leaving it. -/
theorem bookkeeping_run_removals :
    ∃ v : History,
      Continuous (.alternative [.char (.simple 'a'), .char (.simple 'b'), .char (.simple 'c')])
        v.events (.alternative [.char (.simple 'a')]) ∧
      (∀ w ∈ v.visits, w.Whole) ∧ v.visits.length = 4 ∧
        replacements v.events + removals v.events = 2 := by
  have hrun : run? 2
      ((({} : Handlers Unit).on (some .char) .enter fun p s =>
        (if p.node = .char (.simple 'b') then p.remove else p.keep, s)).on (some .char) .exit
          fun p s => (if p.slot = .index 1 then p.remove else p.keep, s))
      (.alternative [.char (.simple 'a'), .char (.simple 'b'), .char (.simple 'c')]) () =
      some ⟨.alternative [.char (.simple 'a')], ⟨4, 2, false⟩, ()⟩ := by
    rfl
  obtain ⟨v, -, -, hcontinuous, hwhole, hentered, hmutations⟩ := bookkeeping_run hrun
  exact ⟨v, hcontinuous, hwhole, hentered.symm, hmutations.symm⟩

end Walk

end RegexKit
