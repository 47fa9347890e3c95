import RegexKit.Linear.Engine
import RegexKit.Proofs.Printing.Delimited
import RegexKit.Proofs.Walk.Observing

/-! What a compilation refuses. The scan for constructs that the host lacks is a walk that only
reads until it stops, so its counter is the position in preorder of the node that it looks at, and
what it reports is the first such node there. -/

namespace RegexKit.Host

open Walk

/-! ### The first construct of a list -/

/-- The first node of a list that is a construct which the host lacks, with its position when the
list begins at `i`. -/
def locate (i : Nat) : List Node → Option (Construct × Nat)
  | [] => none
  | n :: ns =>
    match construct? n with
    | some c => some (c, i)
    | none => locate (i + 1) ns

theorem locate_append (i : Nat) (ns ms : List Node) :
    locate i (ns ++ ms) = (locate i ns).or (locate (i + ns.length) ms) := by
  induction ns generalizing i with
  | nil => rfl
  | cons n ns ih =>
    rw [List.cons_append, locate, locate]
    cases construct? n with
    | some c => rfl
    | none =>
      have hlength : i + (n :: ns).length = i + 1 + ns.length := by
        rw [List.length_cons]
        omega
      rw [hlength]
      exact ih (i + 1)

theorem locate_eq_none_iff {i : Nat} {ns : List Node} :
    locate i ns = none ↔ ∀ n ∈ ns, construct? n = none := by
  induction ns generalizing i with
  | nil => simp [locate]
  | cons n ns ih =>
    rw [locate, List.forall_mem_cons]
    cases construct? n with
    | some c => simp
    | none => simp [ih]

theorem locate_eq_some_iff {i j : Nat} {ns : List Node} {c : Construct} :
    locate i ns = some (c, j) ↔ ∃ before n after, ns = before ++ n :: after ∧
      i + before.length = j ∧ construct? n = some c ∧ ∀ m ∈ before, construct? m = none := by
  constructor
  · intro h
    induction ns generalizing i with
    | nil => cases h
    | cons n ns ih =>
      rw [locate] at h
      cases hn : construct? n with
      | some d =>
        rw [hn] at h
        cases h
        exact ⟨[], n, ns, rfl, rfl, hn, by simp⟩
      | none =>
        rw [hn] at h
        obtain ⟨before, m, after, rfl, hj, hm, hbefore⟩ := ih h
        refine ⟨n :: before, m, after, rfl, ?_, hm, List.forall_mem_cons.2 ⟨hn, hbefore⟩⟩
        rw [List.length_cons]
        omega
  · rintro ⟨before, n, after, rfl, rfl, hn, hbefore⟩
    rw [locate_append, locate_eq_none_iff.2 hbefore, locate, hn]
    rfl

theorem construct?_eq_some_iff {n : Node} {c : Construct} : construct? n = some c ↔
    (c = .lookaround ∧ ∃ kind e, n = .group kind e ∧ kind.isLookaround = true) ∨
      c = .backreference ∧ ∃ target number, n = .backreference target number := by
  cases n with
  | group kind e => cases h : kind.isLookaround <;> cases c <;> simp [construct?, h]
  | _ => cases c <;> simp [construct?]

/-! ### The scan -/

/-- What the scan knows when it has been over a list of nodes from position `i` on: the first
construct among them, at which it has stopped, or where it goes on. -/
structure Scanned (i : Nat) (ns : List Node) (stopped : Bool) (s : Scan) : Prop where
  found : s.found = locate i ns
  halted : stopped = (locate i ns).isSome
  position : stopped = false → s.position = i + ns.length

namespace Scanned

theorem nil (i : Nat) : Scanned i [] false ⟨i, none⟩ := ⟨rfl, rfl, fun _ => rfl⟩

variable {i : Nat} {ns ms : List Node} {b : Bool} {s s' : Scan}

theorem locate_eq_none (h : Scanned i ns false s) : locate i ns = none :=
  Option.isNone_iff_eq_none.1 (Option.isSome_eq_false_iff.1 h.halted.symm)

/-- After nodes that the host can do the scan is as at its beginning, further on. -/
theorem eq_of_running (h : Scanned i ns false s) : s = ⟨i + ns.length, none⟩ := by
  obtain ⟨position, found⟩ := s
  rw [Scan.mk.injEq]
  exact ⟨h.position rfl, h.found.trans h.locate_eq_none⟩

theorem append (h : Scanned i ns false s) (h' : Scanned (i + ns.length) ms b s') :
    Scanned i (ns ++ ms) b s' := by
  have hlocate : locate i (ns ++ ms) = locate (i + ns.length) ms := by
    rw [locate_append, h.locate_eq_none]
    rfl
  refine ⟨by rw [hlocate, h'.found], by rw [hlocate, h'.halted], fun hb => ?_⟩
  rw [h'.position hb, List.length_append, Nat.add_assoc]

/-- A scan that has stopped does not look at what follows. -/
theorem append_of_stopped (h : Scanned i ns true s) (ms : List Node) :
    Scanned i (ns ++ ms) true s := by
  obtain ⟨x, hx⟩ := Option.isSome_iff_exists.1 h.halted.symm
  have hlocate : locate i (ns ++ ms) = locate i ns := by
    rw [locate_append, hx]
    rfl
  exact ⟨by rw [hlocate, h.found], by rw [hlocate, h.halted], fun hb => by cases hb⟩

end Scanned

/-- A visit of the scan to a node: the node stays, and the scan has been over all below it. -/
structure ScannedVisit (i : Nat) (n : Node) (v : Visit Scan) : Prop where
  node : v.node = n
  flow : v.flow = .kept ∨ v.flow = .stopped
  scanned : Scanned i n.preorder (v.flow = .stopped) v.progress.state

/-- Visits of the scan to children, which stay, with all below them. -/
structure ScannedBelow {α : Type} (i : Nat) (ns : List Node) (value : α) (c : Children α Scan) :
    Prop where
  value : c.value = value
  scanned : Scanned i ns c.stopped c.progress.state

theorem ScannedBelow.map {α β : Type} {i : Nat} {ns : List Node} {value : α}
    {c : Children α Scan} (hc : ScannedBelow i ns value c) (f : α → β) :
    ScannedBelow i ns (f value) (c.map f) :=
  { hc with value := congrArg f hc.value }

/-- A visitor of children that carries the scan over each of them. -/
def Carries (visit : VisitChild Scan) (ns : List Node) : Prop :=
  ∀ n ∈ ns, ∀ slot p i, p.state = ⟨i, none⟩ → ∃ v, visit slot n p = some v ∧ ScannedVisit i n v

variable {visit : VisitChild Scan} {p : Progress Scan} {i : Nat}

theorem exists_visitSingle_scanning {n : Node} (hv : Carries visit [n]) (slot : Slot)
    (hp : p.state = ⟨i, none⟩) :
    ∃ c, visitSingle visit slot n p = some c ∧ ScannedBelow i n.preorder n c := by
  obtain ⟨v, hvisit, hscan⟩ := hv n List.mem_cons_self slot p i hp
  have hscanned := hscan.scanned
  rw [visitSingle, hvisit, Option.map_some]
  rcases hscan.flow with hflow | hflow
  all_goals
    rw [hflow] at hscanned
    rw [hflow]
    exact ⟨_, rfl, hscan.node, by simpa using hscanned⟩

theorem exists_visitList_scanning {ns : List Node} (hv : Carries visit ns) (k : Nat)
    (hp : p.state = ⟨i, none⟩) :
    ∃ c, visitList visit k ns p = some c ∧ ScannedBelow i (Node.preorderList ns) ns c := by
  induction ns generalizing k i p with
  | nil => exact ⟨_, rfl, rfl, by rw [hp]; exact .nil i⟩
  | cons n ns ih =>
    obtain ⟨v, hvisit, hscan⟩ := hv n List.mem_cons_self (.index k) p i hp
    have hscanned := hscan.scanned
    rw [visitList, hvisit, Option.bind_some, Node.preorderList]
    rcases hscan.flow with hflow | hflow
    · have hrunning : Scanned i n.preorder false v.progress.state := by simpa [hflow] using hscanned
      obtain ⟨c, hc, hbelow⟩ := ih (fun m hm => hv m (List.mem_cons_of_mem _ hm)) (k + 1)
        hrunning.eq_of_running
      rw [hflow]
      simp only [hc, Option.map_some]
      refine ⟨_, rfl, ?_, hrunning.append hbelow.scanned⟩
      rw [← hscan.node, ← hbelow.value]
      rfl
    · have hstopped : Scanned i n.preorder true v.progress.state := by simpa [hflow] using hscanned
      rw [hflow]
      exact ⟨_, rfl, congrArg (· :: ns) hscan.node, hstopped.append_of_stopped _⟩

theorem exists_visitChildren_scanning {n : Node} (hv : Carries visit n.children)
    (hp : p.state = ⟨i, none⟩) :
    ∃ c, visitChildren visit n p = some c ∧
      ScannedBelow i (n.children.flatMap Node.preorder) n c := by
  cases n with
  | regExp b flags =>
    obtain ⟨c, hc, hbelow⟩ := exists_visitSingle_scanning hv .body hp
    rw [show Node.children _ = [_] from rfl, List.flatMap_singleton]
    exact ⟨c.map (.regExp · flags), by rw [visitChildren, hc]; rfl,
      hbelow.map (Node.regExp · flags)⟩
  | group kind e =>
    obtain ⟨c, hc, hbelow⟩ := exists_visitSingle_scanning hv .expression hp
    rw [show Node.children _ = [_] from rfl, List.flatMap_singleton]
    exact ⟨c.map (.group kind), by rw [visitChildren, hc]; rfl, hbelow.map (Node.group kind)⟩
  | repetition e min max greedy =>
    obtain ⟨c, hc, hbelow⟩ := exists_visitSingle_scanning hv .expression hp
    rw [show Node.children _ = [_] from rfl, List.flatMap_singleton]
    exact ⟨c.map (.repetition · min max greedy), by rw [visitChildren, hc]; rfl,
      hbelow.map (Node.repetition · min max greedy)⟩
  | alternative ns | disjunction ns | charClass _ ns =>
    obtain ⟨c, hc, hbelow⟩ := exists_visitList_scanning (show Carries visit ns from hv) 0 hp
    rw [Node.preorderList_eq] at hbelow
    exact ⟨_, by rw [visitChildren, hc]; rfl, hbelow.map _⟩
  | backreference _ _ | assertion _ | char _ | classRange _ _ =>
    exact ⟨_, rfl, rfl, by rw [hp]; exact .nil i⟩

/-- Entering a node counts it, and stops at it when the host lacks it. -/
theorem dispatch_scanning_enter (ancestors : List NodeType) (slot : Slot) (n : Node)
    (hp : p.state = ⟨i, none⟩) :
    dispatch scanning .enter ancestors slot n p =
      match construct? n with
      | some c => (n, { stop := true }, { p with state := ⟨i + 1, some (c, i)⟩ })
      | none => (n, {}, { p with state := ⟨i + 1, none⟩ }) := by
  rw [dispatch_eq_call, hp]
  have hcall : scanning.call n.type .enter { node := n, slot, ancestors } ⟨i, none⟩ =
      match construct? n with
      | some c => ({ node := n, slot, ancestors, signals := { stop := true } },
          ⟨i + 1, some (c, i)⟩)
      | none => ({ node := n, slot, ancestors }, ⟨i + 1, none⟩) := by
    cases hn : construct? n <;>
      simp [Handlers.call, scanning, Handlers.on, Visitor.set, Visitor.handler?, Handlers.callOne,
        Path.apply, Path.stop, Path.keep, Signals.or, hn]
  rw [hcall]
  cases construct? n <;> rfl

/-- There is nothing to do on leaving a node. -/
theorem leave_scanning (ancestors : List NodeType) (slot : Slot) (n : Node) (p : Progress Scan) :
    leave scanning ancestors slot n p = ⟨n, .kept, p⟩ := rfl

theorem exists_visit_scanning (limit : Nat) (ancestors : List NodeType) (slot : Slot) (n : Node)
    (p : Progress Scan) (i : Nat) (hp : p.state = ⟨i, none⟩) (hn : n.height ≤ limit) :
    ∃ v, Walk.visit scanning limit ancestors slot n p = some v ∧ ScannedVisit i n v := by
  induction limit generalizing ancestors slot n p i with
  | zero =>
    have := n.height_pos
    omega
  | succ limit ih =>
    have hcarries : Carries (Walk.visit scanning limit (ancestors ++ [n.type])) n.children := by
      intro m hm slot p i hp
      have hlt := Node.height_lt_of_mem_children hm
      exact ih _ slot m p i hp (by omega)
    have hentered := dispatch_scanning_enter (p := p.enter) ancestors slot n hp
    have hpreorder : n.preorder = [n] ++ n.children.flatMap Node.preorder := n.preorder_eq
    simp only [Walk.visit, hentered]
    cases hconstruct : construct? n with
    | some c =>
      have hfirst : Scanned i [n] true ⟨i + 1, some (c, i)⟩ := by
        have hlocate : locate i [n] = some (c, i) := by rw [locate, hconstruct]
        exact ⟨hlocate.symm, by rw [hlocate]; rfl, fun h => by cases h⟩
      exact ⟨_, rfl, rfl, .inr rfl, by rw [hpreorder]; exact hfirst.append_of_stopped _⟩
    | none =>
      have hfirst : Scanned i [n] false ⟨i + 1, none⟩ := by
        have hlocate : locate i [n] = none := by
          rw [locate, hconstruct]
          rfl
        exact ⟨hlocate.symm, by rw [hlocate]; rfl, fun _ => rfl⟩
      obtain ⟨c, hc, hbelow⟩ := exists_visitChildren_scanning hcarries
        (p := { p.enter with state := ⟨i + 1, none⟩ }) rfl
      have hscanned := hfirst.append hbelow.scanned
      rw [← hpreorder] at hscanned
      refine ⟨_, by simp only [verdict?, hc]; rfl, ?_⟩
      dsimp only
      rw [leave_scanning]
      cases hstop : c.stopped with
      | true =>
        rw [hstop] at hscanned
        exact ⟨hbelow.value, .inr rfl, by simpa using hscanned⟩
      | false =>
        rw [hstop] at hscanned
        exact ⟨hbelow.value, .inl rfl, by simpa using hscanned⟩

/-- The scan reports the first construct in preorder. -/
theorem firstUnsupported?_eq (n : Node) : firstUnsupported? n = locate 0 n.preorder := by
  obtain ⟨v, hv, hscan⟩ := exists_visit_scanning n.height [] .root n { state := {} } 0 rfl le_rfl
  rw [firstUnsupported?, run?, hv]
  exact hscan.scanned.found

/-! ### Compiling -/

theorem badBounds?_of_le {n : Node} (h : ∀ e min max greedy,
    .repetition e min (some max) greedy ∈ n.preorder → min ≤ max) : n.badBounds? = none := by
  have below {n c : Node} (h : ∀ e min max greedy,
      .repetition e min (some max) greedy ∈ n.preorder → min ≤ max) (hc : c ∈ n.children) :
      ∀ e min max greedy, .repetition e min (some max) greedy ∈ c.preorder → min ≤ max := by
    intro e min max greedy he
    refine h e min max greedy ?_
    rw [Node.preorder_eq]
    exact List.mem_cons_of_mem _ (List.mem_flatMap.2 ⟨c, hc, he⟩)
  induction n with
  | regExp b _ ih | group _ b ih => exact ih (below h (List.mem_singleton.2 rfl))
  | repetition e min max greedy ih =>
    have hord : Node.inOrder min max = true := by
      cases max with
      | none => rfl
      | some max => exact decide_eq_true (h e min max greedy List.mem_cons_self)
    rw [Node.badBounds?_repetition hord]
    exact ih (below h (List.mem_singleton.2 rfl))
  | alternative ns ih | disjunction ns ih | charClass _ ns ih =>
    exact Node.badBoundsList?_of_forall fun m hm => ih m hm (below h hm)
  | backreference _ _ | assertion _ | char _ | classRange _ _ => rfl

/-- A root whose bounds are in order is refused for a construct when the scan reports it,
whatever the engine would say of it. -/
theorem compile_eq_unsupported_iff (engine : Engine) {b : Node} {flags : Flags}
    (hbounds : (Node.regExp b flags).badBounds? = none) {c : Construct} {i : Nat} :
    compile engine (.regExp b flags) = .error (.unsupported c i) ↔
      locate 0 (Node.regExp b flags).preorder = some (c, i) := by
  rw [compile, hbounds, firstUnsupported?_eq]
  cases locate 0 (Node.regExp b flags).preorder with
  | none =>
    simp only [Node.isRoot, Bool.not_true, Bool.false_eq_true, if_false]
    split <;> simp
  | some x => simp [Node.isRoot, Prod.ext_iff]

/-- Handlers that only read leave the tree as it is. They are called around the tree: for every node
once on entering, before those below it, and once on leaving, after them. And a root whose bounds
are in order is refused for a construct exactly when some node is a lookaround or a backreference,
with the position of the first such node in that order, for every engine. -/
theorem walk_reads_and_compile_refuses :
    (∀ n : Node, n.preorder = n :: n.children.flatMap Node.preorder ∧
      n.postorder = n.children.flatMap Node.postorder ++ [n]) ∧
    (∀ {σ : Type} (h : Handlers σ), ReadOnly h → ∀ (root : Node) (state : σ) (limit : Nat),
      root.height ≤ limit →
      run? limit h root state =
        some ⟨root, ⟨root.count, 0, false⟩, root.tour.foldl (attend h) state⟩ ∧
      (Revision.entries root.tour).map Call.node = root.preorder ∧
      (Revision.offers root.tour).map Call.node = root.postorder ∧
      Nested root.tour) ∧
    ∀ (engine : Engine) (b : Node) (flags : Flags), (∀ e min max greedy,
        .repetition e min (some max) greedy ∈ (Node.regExp b flags).preorder → min ≤ max) →
      (∀ c i, compile engine (.regExp b flags) = .error (.unsupported c i) ↔
        ∃ before n after, (Node.regExp b flags).preorder = before ++ n :: after ∧
          before.length = i ∧ construct? n = some c ∧ ∀ m ∈ before, construct? m = none) ∧
      ((∃ c i, compile engine (.regExp b flags) = .error (.unsupported c i)) ↔
        ∃ n ∈ (Node.regExp b flags).preorder,
          (∃ kind e, n = .group kind e ∧ kind.isLookaround = true) ∨
            ∃ target number, n = .backreference target number) := by
  refine ⟨fun n => ⟨n.preorder_eq, n.postorder_eq⟩, fun h hh root state limit hl =>
    ⟨hh.run_eq hl state, Revision.map_node_entries [] .root root, ?_, nested_calls [] .root root⟩,
    fun engine b flags hle => ?_⟩
  · have hoffers := Revision.map_node_offers (f := Revision.unchanged) [] .root root
    rwa [funext Revision.below_unchanged, List.map_id'] at hoffers
  · have hcompile {c i} :=
      compile_eq_unsupported_iff engine (badBounds?_of_le hle) (c := c) (i := i)
    refine ⟨fun c i => ?_, ?_, ?_⟩
    · simp only [hcompile, locate_eq_some_iff, Nat.zero_add]
    · rintro ⟨c, i, h⟩
      obtain ⟨before, n, after, hn, -, hc, -⟩ := locate_eq_some_iff.1 (hcompile.1 h)
      refine ⟨n, by rw [hn]; exact List.mem_append_right _ List.mem_cons_self, ?_⟩
      exact (construct?_eq_some_iff.1 hc).imp And.right And.right
    · rintro ⟨n, hn, hkind⟩
      cases hlocate : locate 0 (Node.regExp b flags).preorder with
      | some x => exact ⟨x.1, x.2, hcompile.2 hlocate⟩
      | none =>
        have hnone := locate_eq_none_iff.1 hlocate n hn
        rcases hkind with hkind | hkind
        · rw [construct?_eq_some_iff.2 (.inl ⟨rfl, hkind⟩)] at hnone
          cases hnone
        · rw [construct?_eq_some_iff.2 (.inr ⟨rfl, hkind⟩)] at hnone
          cases hnone

/-- On `(?=a)\1` a handler that counts the nodes it enters counts five, and the host lacks the third
of them. -/
theorem walk_reads_and_compile_refuses_lookahead :
    ∃ h : Handlers Nat, ReadOnly h ∧
      run? 5 h (.regExp (.alternative [.group .lookahead (.char (.simple 'a')),
        .backreference (.number 1) 1]) {}) 0 =
        some ⟨.regExp (.alternative [.group .lookahead (.char (.simple 'a')),
          .backreference (.number 1) 1]) {}, ⟨5, 0, false⟩, 5⟩ ∧
      compile Linear.engine (.regExp (.alternative [.group .lookahead (.char (.simple 'a')),
        .backreference (.number 1) 1]) {}) = .error (.unsupported .lookaround 2) := by
  have hreads : ReadOnly (({} : Handlers Nat).on none .enter fun p s => (p.keep, s + 1)) := by
    refine ⟨fun {phase g} hg => ?_, fun {k phase g} hg => by cases phase <;> cases hg⟩
    cases phase with
    | enter =>
      cases hg
      exact fun _ _ => rfl
    | exit => cases hg
  obtain ⟨-, hwalk, hcompile⟩ := walk_reads_and_compile_refuses
  refine ⟨_, hreads, (hwalk _ hreads _ 0 5 (by decide)).1, ((hcompile _ _ _ ?_).1 _ _).2
    ⟨[_, _], _, _, rfl, rfl, rfl, by decide⟩⟩
  simp [Node.preorder, Node.preorderList]

end RegexKit.Host
