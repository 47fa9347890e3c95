import RegexKit.Proofs.Walk.Revision

/-! Walks that leave the tree alone. Handlers that keep every node and give no signals revise
nothing, so the walk gives the tree back, and its calls go around the tree: each node is entered
once before the nodes below it and left once after them. Handlers that also pass over children or
stop the walk still give the tree back. -/

namespace RegexKit

/-- The revision that keeps every node. -/
def Revision.unchanged : Revision := fun _ _ _ => .keep

/-- The calls of a walk around a tree that stays as it is. -/
def Node.tour (n : Node) : List Call := Revision.unchanged.calls [] .root n

namespace Revision

theorem belowList_unchanged {parent : Option NodeType} {ns : List Node}
    (h : ∀ n ∈ ns, unchanged.below n = n) (i : Nat) : unchanged.belowList parent i ns = ns := by
  induction ns generalizing i with
  | nil => rfl
  | cons n ns ih =>
    rw [belowList, settle, h n List.mem_cons_self]
    exact congrArg _ (ih (fun m hm => h m (List.mem_cons_of_mem _ hm)) (i + 1))

@[simp] theorem below_unchanged (n : Node) : unchanged.below n = n := by
  induction n with
  | regExp b _ ih | group _ b ih | repetition b _ _ _ ih =>
    rw [below, settle, ih]
    rfl
  | alternative ns ih | disjunction ns ih | charClass _ ns ih =>
    rw [below, belowList_unchanged ih]
  | backreference _ _ | assertion _ | char _ | classRange _ _ => rfl

theorem tree_unchanged (n : Node) : unchanged.tree n = n := by
  rw [tree, settle, below_unchanged]
  rfl

theorem replacements_unchanged (cs : List Call) : unchanged.replacements cs = 0 :=
  List.countP_eq_zero.2 fun _ _ => Bool.false_ne_true

theorem removals_unchanged (cs : List Call) : unchanged.removals cs = 0 :=
  List.countP_eq_zero.2 fun _ _ => Bool.false_ne_true

end Revision

namespace Walk

variable {σ : Type} {h : Handlers σ}

/-! ### The order of the calls -/

/-- Every call on entering a node is closed by the call on leaving it, and what is between the two
is closed in itself. -/
inductive Nested : List Call → Prop
  | nil : Nested []
  | node (ancestors : List NodeType) (slot : Slot) (n : Node) {inside after : List Call} :
      Nested inside → Nested after →
      Nested (⟨.enter, ancestors, slot, n⟩ ::
        (inside ++ ⟨.exit, ancestors, slot, n⟩ :: after))

theorem Nested.append {cs cs' : List Call} (h : Nested cs) (h' : Nested cs') :
    Nested (cs ++ cs') := by
  induction h with
  | nil => exact h'
  | node ancestors slot n hinside _ _ ih =>
    rw [List.cons_append, List.append_assoc, List.cons_append]
    exact .node ancestors slot n hinside ih

theorem nested_around {ancestors : List NodeType} {slot : Slot} {n : Node} {inside : List Call}
    (h : Nested inside) : Nested (Revision.unchanged.around ancestors slot n inside) := by
  rw [Revision.around, Revision.below_unchanged]
  exact .node ancestors slot n h .nil

/-- The calls for a subtree that stays as it is are nested. -/
theorem nested_calls (ancestors : List NodeType) (slot : Slot) (n : Node) :
    Nested (Revision.unchanged.calls ancestors slot n) := by
  have hlist (ns : List Node)
      (ih : ∀ m ∈ ns, ∀ ancestors slot, Nested (Revision.unchanged.calls ancestors slot m))
      (ancestors : List NodeType) (i : Nat) :
      Nested (Revision.unchanged.callsList ancestors i ns) := by
    induction ns generalizing i with
    | nil => exact .nil
    | cons m ns ihns =>
      exact (ih m List.mem_cons_self _ _).append
        (ihns (fun k hk => ih k (List.mem_cons_of_mem _ hk)) _)
  induction n generalizing ancestors slot with
  | regExp b _ ih | group _ b ih | repetition b _ _ _ ih => exact nested_around (ih _ _)
  | alternative ns ih | disjunction ns ih | charClass _ ns ih =>
    exact nested_around (hlist ns ih _ _)
  | backreference _ _ | assertion _ | char _ | classRange _ _ => exact nested_around .nil

/-! ### Handlers that only read -/

/-- The handler keeps the node and gives no signals; what it notes is free. -/
def Reads (g : Handler σ) : Prop := ∀ p s, (g p s).1 = p.keep

/-- All handlers only read. -/
structure ReadOnly (h : Handlers σ) : Prop where
  any {phase : Phase} {g : Handler σ} : h.any.handler? phase = some g → Reads g
  typed {k : NodeType} {phase : Phase} {g : Handler σ} :
    (h.typed k).handler? phase = some g → Reads g

theorem fst_callOne {g : Option (Handler σ)} (hg : ∀ f, g = some f → Reads f) (p : Path) (s : σ) :
    (Handlers.callOne g p s).1 = p := by
  cases g with
  | none => rfl
  | some f => rw [Handlers.callOne, hg f rfl, Path.apply_keep]

theorem ReadOnly.fst_call (hh : ReadOnly h) (k : NodeType) (phase : Phase) (p : Path) (s : σ) :
    (h.call k phase p s).1 = p := by
  simp only [Handlers.call]
  split
  · exact fst_callOne (fun _ => hh.any) p s
  · exact (fst_callOne (fun _ => hh.typed) _ _).trans (fst_callOne (fun _ => hh.any) p s)

theorem ReadOnly.revises (hh : ReadOnly h) : Revises h Revision.unchanged where
  enter _ _ _ s := hh.fst_call _ _ _ s
  exit _ _ _ s := (hh.fst_call _ _ _ s).trans (Path.apply_keep _).symm

/-- A walk whose handlers only read gives the tree back. It calls the handlers along the tour of the
tree, and it counts each node once and no mutation. -/
theorem ReadOnly.run_eq (hh : ReadOnly h) {root : Node} {limit : Nat} (hl : root.height ≤ limit)
    (state : σ) :
    run? limit h root state =
      some ⟨root, ⟨root.count, 0, false⟩, root.tour.foldl (attend h) state⟩ := by
  rw [hh.revises.run_eq hl, Revision.tree_unchanged, Revision.replacements_unchanged,
    Revision.removals_unchanged]
  rfl

/-! ### Handlers that only steer -/

/-- The handlers keep every node and ask for no removal; they may pass over children and stop. -/
def Steers (h : Handlers σ) : Prop :=
  ∀ phase ancestors slot n s,
    (h.call n.type phase { node := n, slot, ancestors } s).1.node = n ∧
      (h.call n.type phase { node := n, slot, ancestors } s).1.signals.replaced = false ∧
      (h.call n.type phase { node := n, slot, ancestors } s).1.signals.removed = false

/-- A visit that left its node as it was and counted no mutation. -/
structure Unmoved (n : Node) (p : Progress σ) (v : Visit σ) : Prop where
  node : v.node = n
  flow : v.flow ≠ .removed
  mutations : v.progress.stats.mutations = p.stats.mutations

variable {p q : Progress σ} {n : Node} {slot : Slot} {ancestors : List NodeType}

theorem Steers.dispatch (hh : Steers h) (phase : Phase) (ancestors : List NodeType) (slot : Slot)
    (n : Node) (p : Progress σ) :
    (dispatch h phase ancestors slot n p).1 = n ∧
      (dispatch h phase ancestors slot n p).2.1.removed = false ∧
      (dispatch h phase ancestors slot n p).2.2.stats.mutations = p.stats.mutations := by
  obtain ⟨hnode, hreplaced, hremoved⟩ := hh phase ancestors slot n p.state
  rw [dispatch_eq_call]
  dsimp only
  rw [hreplaced]
  exact ⟨hnode, hremoved, rfl⟩

theorem unmoved_conclude {flow : Flow} (hflow : flow ≠ .removed)
    (hq : q.stats.mutations = p.stats.mutations) : Unmoved n p (conclude n flow q) where
  node := rfl
  flow := hflow
  mutations := by
    unfold conclude
    split
    · exact hq
    · exact hq

theorem verdict?_ne_removed (slot : Slot) {signals : Signals} (h : signals.removed = false) :
    verdict? slot signals ≠ some .removed := by
  rw [verdict?, h]
  cases signals.stop <;> simp

theorem Steers.leave (hh : Steers h) (ancestors : List NodeType) (slot : Slot)
    (hq : q.stats.mutations = p.stats.mutations) :
    Unmoved n p (leave h ancestors slot n q) := by
  obtain ⟨hnode, hremoved, hmutations⟩ := hh.dispatch .exit ancestors slot n q
  have hverdict := verdict?_ne_removed slot hremoved
  unfold Walk.leave
  dsimp only
  rw [hnode]
  refine unmoved_conclude (fun hflow => ?_) (hmutations.trans hq)
  cases hv : verdict? slot (Walk.dispatch h .exit ancestors slot n q).2.1 with
  | none =>
    rw [hv] at hflow
    cases hflow
  | some flow =>
    rw [hv] at hflow
    exact hverdict (hv.trans (congrArg some hflow))

section Children

variable {visit : VisitChild σ}

theorem unmoved_visitSingle
    (hvisit : ∀ n p v, visit slot n p = some v → Unmoved n p v) {c : Children Node σ}
    (h : visitSingle visit slot n p = some c) :
    c.value = n ∧ c.progress.stats.mutations = p.stats.mutations := by
  obtain ⟨v, hv, rfl⟩ := Option.map_eq_some_iff.1 h
  have hunmoved := hvisit n p v hv
  cases hflow : v.flow with
  | kept | stopped => exact ⟨hunmoved.node, hunmoved.mutations⟩
  | removed => exact absurd hflow hunmoved.flow

theorem unmoved_visitList
    (hvisit : ∀ i n p v, visit (.index i) n p = some v → Unmoved n p v) {i : Nat}
    {ns : List Node} {c : Children (List Node) σ} (h : visitList visit i ns p = some c) :
    c.value = ns ∧ c.progress.stats.mutations = p.stats.mutations := by
  induction ns generalizing i p c with
  | nil =>
    cases h
    exact ⟨rfl, rfl⟩
  | cons n ns ih =>
    obtain ⟨v, hv, h⟩ := Option.bind_eq_some_iff.1 h
    have hunmoved := hvisit i n p v hv
    cases hflow : v.flow with
    | kept =>
      rw [hflow] at h
      obtain ⟨d, hd, rfl⟩ := Option.map_eq_some_iff.1 h
      obtain ⟨hvalue, hmutations⟩ := ih hd
      refine ⟨?_, hmutations.trans hunmoved.mutations⟩
      change v.node :: d.value = n :: ns
      rw [hunmoved.node, hvalue]
    | removed => exact absurd hflow hunmoved.flow
    | stopped =>
      rw [hflow] at h
      cases h
      exact ⟨congrArg (· :: ns) hunmoved.node, hunmoved.mutations⟩

theorem unmoved_visitChildren (hvisit : ∀ slot n p v, visit slot n p = some v → Unmoved n p v)
    {c : Children Node σ} (h : visitChildren visit n p = some c) :
    c.value = n ∧ c.progress.stats.mutations = p.stats.mutations := by
  cases n with
  | regExp b _ | group _ b | repetition b _ _ _ =>
    obtain ⟨d, hd, rfl⟩ := Option.map_eq_some_iff.1 h
    obtain ⟨hvalue, hmutations⟩ := unmoved_visitSingle (hvisit _) hd
    subst hvalue
    exact ⟨rfl, hmutations⟩
  | alternative ns | disjunction ns | charClass _ ns =>
    obtain ⟨d, hd, rfl⟩ := Option.map_eq_some_iff.1 h
    obtain ⟨hvalue, hmutations⟩ := unmoved_visitList (fun _ => hvisit _) hd
    subst hvalue
    exact ⟨rfl, hmutations⟩
  | backreference _ _ | assertion _ | char _ | classRange _ _ =>
    cases h
    exact ⟨rfl, rfl⟩

end Children

theorem Steers.visit (hh : Steers h) {limit : Nat} {v : Visit σ}
    (hv : visit h limit ancestors slot n p = some v) : Unmoved n p v := by
  induction limit generalizing ancestors slot n p v with
  | zero => cases hv
  | succ limit ih =>
    obtain ⟨hnode, hremoved, hmutations⟩ := hh.dispatch .enter ancestors slot n p.enter
    have hverdict := verdict?_ne_removed slot hremoved
    rw [Walk.visit] at hv
    dsimp only at hv
    rw [hnode] at hv
    cases hentered : verdict? slot (Walk.dispatch h .enter ancestors slot n p.enter).2.1 with
    | some flow =>
      rw [hentered] at hv hverdict
      cases hv
      exact unmoved_conclude (fun hflow => hverdict (congrArg some hflow)) hmutations
    | none =>
      rw [hentered] at hv
      dsimp only at hv
      split at hv
      · cases hv
        exact hh.leave ancestors slot hmutations
      · obtain ⟨c, hc, rfl⟩ := Option.map_eq_some_iff.1 hv
        obtain ⟨hvalue, hbelow⟩ := unmoved_visitChildren (fun _ _ _ _ => ih) hc
        split
        · exact ⟨hvalue, by simp, hbelow.trans hmutations⟩
        · rw [hvalue]
          exact hh.leave ancestors slot (hbelow.trans hmutations)

/-- A walk whose handlers only steer gives the tree back and counts no mutation, however early it
was stopped. -/
theorem Steers.run? (hh : Steers h) {root : Node} {limit : Nat} {state : σ} {o : Outcome σ}
    (hrun : run? limit h root state = some o) : o.tree = root ∧ o.stats.mutations = 0 := by
  obtain ⟨v, hv, rfl⟩ := Option.map_eq_some_iff.1 hrun
  exact ⟨(hh.visit hv).node, (hh.visit hv).mutations⟩

end Walk

end RegexKit
