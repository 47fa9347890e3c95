import RegexKit.Proofs.Node.Induction
import RegexKit.Proofs.Walk.Bookkeeping

/-! Walks that revise a tree. The handlers look at a node on entering it, and on leaving it they
keep it, replace it or remove it, as its kind, its slot and the kind of its parent decide; what
they note on the way is free. Such a walk is a recursion over the tree: first the children, then
the node that holds those that stay. Its calls are two for each node of the tree that it began
with, one before and one after those for the children, and none for what was put in place. -/

namespace RegexKit

namespace Node

mutual

/-- All nodes, each after its children. -/
def postorder : Node → List Node
  | n@(regExp b _) => postorder b ++ [n]
  | n@(alternative es) => postorderList es ++ [n]
  | n@(disjunction bs) => postorderList bs ++ [n]
  | n@(group _ e) => postorder e ++ [n]
  | n@(charClass _ ms) => postorderList ms ++ [n]
  | n@(repetition e _ _ _) => postorder e ++ [n]
  | n@(backreference _ _) | n@(assertion _) | n@(char _) | n@(classRange _ _) => [n]

def postorderList : List Node → List Node
  | [] => []
  | n :: ns => postorder n ++ postorderList ns

end

theorem postorderList_eq (ns : List Node) : postorderList ns = ns.flatMap postorder := by
  induction ns with
  | nil => rfl
  | cons n ns ih => simp [postorderList, ih]

theorem postorder_eq (n : Node) : n.postorder = n.children.flatMap postorder ++ [n] := by
  cases n <;> simp [postorder, children, postorderList_eq]

theorem length_postorder (n : Node) : n.postorder.length = n.count := by
  have hlist (ns : List Node) (ih : ∀ m ∈ ns, m.postorder.length = m.count) :
      (postorderList ns).length = countList ns := by
    induction ns with
    | nil => rfl
    | cons m ns ihns =>
      rw [postorderList, List.length_append, ih m List.mem_cons_self,
        ihns fun k hk => ih k (List.mem_cons_of_mem _ hk), countList]
  induction n with
  | regExp b _ ih | group _ b ih | repetition b _ _ _ ih =>
    rw [postorder, List.length_append, ih, List.length_singleton, count, Nat.add_comm]
  | alternative ns ih | disjunction ns ih | charClass _ ns ih =>
    rw [postorder, List.length_append, hlist ns ih, List.length_singleton, count, Nat.add_comm]
  | backreference _ _ | assertion _ | char _ | classRange _ _ => rfl

end Node

/-! ### Edits -/

/-- What becomes of a node on leaving it. -/
inductive Edit
  | keep
  | replace (n : Node)
  | remove
  deriving DecidableEq, Repr

namespace Edit

/-- The answer of a handler that carries out the edit. -/
def reply : Edit → Path → Reply
  | keep, p => p.keep
  | replace n, p => p.replace n
  | remove, p => p.remove

/-- What stays in the slot of the node. -/
def left : Edit → Node → Option Node
  | keep, n => some n
  | replace m, _ => some m
  | remove, _ => none

def isReplacement : Edit → Bool
  | replace _ => true
  | _ => false

def isRemoval : Edit → Bool
  | remove => true
  | _ => false

end Edit

/-- A call of handlers: the visit that it belongs to, and what the handlers are shown. -/
structure Call where
  phase : Phase
  ancestors : List NodeType
  slot : Slot
  node : Node
  deriving DecidableEq, Repr

namespace Call

def parent? (c : Call) : Option NodeType := c.ancestors.getLast?

/-- The path that the first handler is called with. -/
def path (c : Call) : Path := { node := c.node, slot := c.slot, ancestors := c.ancestors }

end Call

/-- An edit for every node, from the kind of its parent and its slot. -/
abbrev Revision := Option NodeType → Slot → Node → Edit

namespace Revision

variable (f : Revision)

/-- What stays of a node in its slot. -/
def settle (parent : Option NodeType) (slot : Slot) (n : Node) : Option Node :=
  (f parent slot n).left n

mutual

/-- The node with its children revised. A list closes the gap of a child that is removed, and its
positions count the children that stay; an only child gives way to the empty alternative. -/
def below : Node → Node
  | .regExp b flags => .regExp ((f.settle (some .regExp) .body (below b)).getD .empty) flags
  | .alternative es => .alternative (belowList (some .alternative) 0 es)
  | .disjunction bs => .disjunction (belowList (some .disjunction) 0 bs)
  | .group kind e => .group kind ((f.settle (some .group) .expression (below e)).getD .empty)
  | .charClass negated ms => .charClass negated (belowList (some .charClass) 0 ms)
  | .repetition e min max greedy =>
    .repetition ((f.settle (some .repetition) .expression (below e)).getD .empty) min max greedy
  | .backreference target number => .backreference target number
  | .assertion kind => .assertion kind
  | .char c => .char c
  | .classRange low high => .classRange low high

def belowList (parent : Option NodeType) (i : Nat) : List Node → List Node
  | [] => []
  | n :: ns =>
    match f.settle parent (.index i) (below n) with
    | some m => m :: belowList parent (i + 1) ns
    | none => belowList parent i ns

end

/-- The whole tree revised. The root is not removed. -/
def tree (n : Node) : Node := (f.settle none .root (f.below n)).getD (f.below n)

/-! ### Calls -/

/-- The calls for a node around those for its children. -/
def around (ancestors : List NodeType) (slot : Slot) (n : Node) (inside : List Call) : List Call :=
  ⟨.enter, ancestors, slot, n⟩ :: (inside ++ [⟨.exit, ancestors, slot, f.below n⟩])

mutual

/-- The calls for a node and all below it, in order. -/
def calls (ancestors : List NodeType) (slot : Slot) : Node → List Call
  | n@(.regExp b _) => f.around ancestors slot n (calls (ancestors ++ [.regExp]) .body b)
  | n@(.alternative es) =>
    f.around ancestors slot n (callsList (ancestors ++ [.alternative]) 0 es)
  | n@(.disjunction bs) =>
    f.around ancestors slot n (callsList (ancestors ++ [.disjunction]) 0 bs)
  | n@(.group _ e) => f.around ancestors slot n (calls (ancestors ++ [.group]) .expression e)
  | n@(.charClass _ ms) => f.around ancestors slot n (callsList (ancestors ++ [.charClass]) 0 ms)
  | n@(.repetition e _ _ _) =>
    f.around ancestors slot n (calls (ancestors ++ [.repetition]) .expression e)
  | n@(.backreference _ _) | n@(.assertion _) | n@(.char _) | n@(.classRange _ _) =>
    f.around ancestors slot n []

def callsList (ancestors : List NodeType) (i : Nat) : List Node → List Call
  | [] => []
  | n :: ns =>
    calls ancestors (.index i) n ++
      callsList ancestors
        (match f.settle ancestors.getLast? (.index i) (f.below n) with
        | some _ => i + 1
        | none => i) ns

end

/-- The calls for all below a node. -/
def inside (ancestors : List NodeType) : Node → List Call
  | .regExp b _ => f.calls (ancestors ++ [.regExp]) .body b
  | .alternative es => f.callsList (ancestors ++ [.alternative]) 0 es
  | .disjunction bs => f.callsList (ancestors ++ [.disjunction]) 0 bs
  | .group _ e => f.calls (ancestors ++ [.group]) .expression e
  | .charClass _ ms => f.callsList (ancestors ++ [.charClass]) 0 ms
  | .repetition e _ _ _ => f.calls (ancestors ++ [.repetition]) .expression e
  | .backreference _ _ | .assertion _ | .char _ | .classRange _ _ => []

theorem calls_eq (ancestors : List NodeType) (slot : Slot) (n : Node) :
    f.calls ancestors slot n = f.around ancestors slot n (f.inside ancestors n) := by
  cases n <;> rfl

/-- The edit of the node that the handlers are shown. -/
def edit (c : Call) : Edit := f c.parent? c.slot c.node

/-- The calls on entering nodes. -/
def entries (cs : List Call) : List Call := cs.filter fun c => c.phase == .enter

/-- The calls on leaving nodes, in which handlers are offered a node to edit. -/
def offers (cs : List Call) : List Call := cs.filter fun c => c.phase == .exit

/-- The number of offers that are answered with a replacement. -/
def replacements (cs : List Call) : Nat := cs.countP fun c => (f.edit c).isReplacement

/-- The number of offers that are answered with a removal, without that of the root. -/
def removals (cs : List Call) : Nat :=
  cs.countP fun c => (f.edit c).isRemoval && c.slot != .root

variable {f}

theorem offers_append (cs cs' : List Call) : offers (cs ++ cs') = offers cs ++ offers cs' := by
  simp [offers]

theorem entries_append (cs cs' : List Call) : entries (cs ++ cs') = entries cs ++ entries cs' := by
  simp [entries]

theorem offers_around (ancestors : List NodeType) (slot : Slot) (n : Node) (inside : List Call) :
    offers (f.around ancestors slot n inside) =
      offers inside ++ [⟨.exit, ancestors, slot, f.below n⟩] := by
  simp [offers, around]

theorem entries_around (ancestors : List NodeType) (slot : Slot) (n : Node)
    (inside : List Call) :
    entries (f.around ancestors slot n inside) =
      ⟨.enter, ancestors, slot, n⟩ :: entries inside := by
  simp [entries, around]

/-- The handlers for leaving are offered each node of the tree once, after those below it and with
its children revised. -/
theorem map_node_offers (ancestors : List NodeType) (slot : Slot) (n : Node) :
    (offers (f.calls ancestors slot n)).map Call.node = n.postorder.map f.below := by
  have hlist (ns : List Node)
      (ih : ∀ m ∈ ns, ∀ ancestors slot,
        (offers (f.calls ancestors slot m)).map Call.node = m.postorder.map f.below)
      (ancestors : List NodeType) (i : Nat) :
      (offers (f.callsList ancestors i ns)).map Call.node =
        (Node.postorderList ns).map f.below := by
    induction ns generalizing i with
    | nil => rfl
    | cons m ns ihns =>
      rw [callsList, offers_append, List.map_append, ih m List.mem_cons_self,
        ihns (fun k hk => ih k (List.mem_cons_of_mem _ hk)), Node.postorderList, List.map_append]
  induction n generalizing ancestors slot with
  | regExp b _ ih | group _ b ih | repetition b _ _ _ ih =>
    rw [calls, offers_around, List.map_append, ih, Node.postorder, List.map_append]
    rfl
  | alternative ns ih | disjunction ns ih | charClass _ ns ih =>
    rw [calls, offers_around, List.map_append, hlist ns ih, Node.postorder, List.map_append]
    rfl
  | backreference _ _ | assertion _ | char _ | classRange _ _ => rfl

/-- The handlers for entering are shown each node of the tree once, before those below it. -/
theorem map_node_entries (ancestors : List NodeType) (slot : Slot) (n : Node) :
    (entries (f.calls ancestors slot n)).map Call.node = n.preorder := by
  have hlist (ns : List Node)
      (ih : ∀ m ∈ ns, ∀ ancestors slot,
        (entries (f.calls ancestors slot m)).map Call.node = m.preorder)
      (ancestors : List NodeType) (i : Nat) :
      (entries (f.callsList ancestors i ns)).map Call.node = Node.preorderList ns := by
    induction ns generalizing i with
    | nil => rfl
    | cons m ns ihns =>
      rw [callsList, entries_append, List.map_append, ih m List.mem_cons_self,
        ihns (fun k hk => ih k (List.mem_cons_of_mem _ hk)), Node.preorderList]
  induction n generalizing ancestors slot with
  | regExp b _ ih | group _ b ih | repetition b _ _ _ ih =>
    rw [calls, entries_around, List.map_cons, ih, Node.preorder]
  | alternative ns ih | disjunction ns ih | charClass _ ns ih =>
    rw [calls, entries_around, List.map_cons, hlist ns ih, Node.preorder]
  | backreference _ _ | assertion _ | char _ | classRange _ _ => rfl

end Revision

namespace Walk

variable {σ : Type}

/-! ### Handlers that revise -/

/-- The state of the handlers after a call. -/
def attend (h : Handlers σ) (s : σ) (c : Call) : σ := (h.call c.node.type c.phase c.path s).2

/-- The handlers keep every node on entering it and carry out a revision on leaving. -/
structure Revises (h : Handlers σ) (f : Revision) : Prop where
  enter (ancestors : List NodeType) (slot : Slot) (n : Node) (s : σ) :
    (h.call n.type .enter { node := n, slot, ancestors } s).1 = { node := n, slot, ancestors }
  exit (ancestors : List NodeType) (slot : Slot) (n : Node) (s : σ) :
    (h.call n.type .exit { node := n, slot, ancestors } s).1 =
      Path.apply { node := n, slot, ancestors }
        ((f ancestors.getLast? slot n).reply { node := n, slot, ancestors })

/-- Without handlers for a node a call changes nothing, so a dispatch is a call in any case. -/
theorem dispatch_eq_call (h : Handlers σ) (phase : Phase) (ancestors : List NodeType)
    (slot : Slot) (n : Node) (p : Progress σ) :
    dispatch h phase ancestors slot n p =
      let r := h.call n.type phase { node := n, slot, ancestors } p.state
      let p := { p with state := r.2 }
      (r.1.node, r.1.signals, if r.1.signals.replaced then p.mutate else p) := by
  unfold dispatch
  split
  · rfl
  · rename_i hnone
    have hcall : h.call n.type phase { node := n, slot, ancestors } p.state =
        ({ node := n, slot, ancestors }, p.state) := by
      simp only [Handlers.has, Bool.not_eq_true, Bool.or_eq_false_iff, Option.isSome_eq_false_iff,
        Option.isNone_iff_eq_none] at hnone
      simp [Handlers.call, Handlers.callOne, hnone.1, hnone.2]
    simp [hcall]

/-! ### Visits -/

/-- How a walk goes on after an edit. -/
def flowOf (slot : Slot) (e : Edit) : Flow :=
  if e.isRemoval && slot != .root then .removed else .kept

/-- What a visit makes of a node when the handlers revise. -/
structure Revised (h : Handlers σ) (f : Revision) (ancestors : List NodeType) (slot : Slot)
    (n : Node) (p : Progress σ) (v : Visit σ) : Prop where
  node : v.node = (f.settle ancestors.getLast? slot (f.below n)).getD (f.below n)
  flow : v.flow = flowOf slot (f ancestors.getLast? slot (f.below n))
  state : v.progress.state = (f.calls ancestors slot n).foldl (attend h) p.state
  entered : v.progress.stats.entered = p.stats.entered + n.count
  mutations : v.progress.stats.mutations + v.flow.removals = p.stats.mutations +
    f.replacements (Revision.offers (f.calls ancestors slot n)) +
    f.removals (Revision.offers (f.calls ancestors slot n))
  stopped : v.progress.stats.stopped = p.stats.stopped

/-- What visits to children make of them when the handlers revise. -/
structure RevisedBelow {α : Type} (h : Handlers σ) (f : Revision) (cs : List Call) (count : Nat)
    (value : α) (p : Progress σ) (c : Children α σ) : Prop where
  value : c.value = value
  running : c.stopped = false
  state : c.progress.state = cs.foldl (attend h) p.state
  entered : c.progress.stats.entered = p.stats.entered + count
  mutations : c.progress.stats.mutations = p.stats.mutations +
    f.replacements (Revision.offers cs) + f.removals (Revision.offers cs)
  stopped : c.progress.stats.stopped = p.stats.stopped

variable {h : Handlers σ} {f : Revision}

theorem Revision.replacements_append (cs cs' : List Call) :
    f.replacements (cs ++ cs') = f.replacements cs + f.replacements cs' := List.countP_append

theorem Revision.removals_append (cs cs' : List Call) :
    f.removals (cs ++ cs') = f.removals cs + f.removals cs' := List.countP_append

theorem Revision.replacements_singleton (c : Call) :
    f.replacements [c] = (f.edit c).isReplacement.toNat := by
  rw [Revision.replacements, List.countP_singleton]
  cases (f.edit c).isReplacement <;> rfl

theorem Revision.removals_singleton (c : Call) :
    f.removals [c] = (flowOf c.slot (f.edit c)).removals := by
  rw [Revision.removals, List.countP_singleton, flowOf]
  split <;> rfl

theorem RevisedBelow.map {α β : Type} {cs : List Call} {count : Nat} {value : α} {p : Progress σ}
    {c : Children α σ} (hc : RevisedBelow h f cs count value p c) (g : α → β) :
    RevisedBelow h f cs count (g value) p (c.map g) :=
  { hc with value := congrArg g hc.value }

/-- An only child that was visited. -/
theorem exists_visitSingle {v : VisitChild σ} {ancestors : List NodeType} (slot : Slot)
    (hslot : slot ≠ .root) {n : Node} {p : Progress σ}
    (hv : ∃ w, v slot n p = some w ∧ Revised h f ancestors slot n p w) :
    ∃ c, visitSingle v slot n p = some c ∧
      RevisedBelow h f (f.calls ancestors slot n) n.count
        ((f.settle ancestors.getLast? slot (f.below n)).getD .empty) p c := by
  obtain ⟨w, hw, hrevised⟩ := hv
  have hflow := hrevised.flow
  have hnode := hrevised.node
  have hmutations := hrevised.mutations
  rw [visitSingle, hw]
  unfold Revision.settle at hnode ⊢
  cases hedit : f ancestors.getLast? slot (f.below n) with
  | remove =>
    rw [hedit] at hflow
    have hremoved : w.flow = .removed := by simpa [flowOf, Edit.isRemoval, hslot] using hflow
    rw [hremoved] at hmutations
    simp only [Option.map_some, hremoved]
    exact ⟨_, rfl, rfl, rfl, hrevised.state, hrevised.entered, hmutations, hrevised.stopped⟩
  | keep | replace m =>
    rw [hedit] at hflow hnode
    have hkept : w.flow = .kept := hflow
    rw [hkept] at hmutations
    simp only [Option.map_some, hkept]
    exact ⟨_, rfl, hnode, rfl, hrevised.state, hrevised.entered, hmutations, hrevised.stopped⟩

/-- Children of a list that were visited, from a position on. -/
theorem exists_visitList {v : VisitChild σ} {ancestors : List NodeType} {ns : List Node}
    (hv : ∀ n ∈ ns, ∀ slot p, ∃ w, v slot n p = some w ∧ Revised h f ancestors slot n p w)
    (i : Nat) (p : Progress σ) :
    ∃ c, visitList v i ns p = some c ∧
      RevisedBelow h f (f.callsList ancestors i ns) (Node.countList ns)
        (f.belowList ancestors.getLast? i ns) p c := by
  induction ns generalizing i p with
  | nil => exact ⟨_, rfl, rfl, rfl, rfl, rfl, rfl, rfl⟩
  | cons n ns ih =>
    obtain ⟨w, hw, hrevised⟩ := hv n List.mem_cons_self (.index i) p
    have htail := ih fun m hm => hv m (List.mem_cons_of_mem _ hm)
    have hflow := hrevised.flow
    have hnode := hrevised.node
    have hmutations := hrevised.mutations
    rw [visitList, hw, Option.bind_some, Revision.callsList, Revision.belowList, Node.countList]
    unfold Revision.settle at hnode ⊢
    cases hedit : f ancestors.getLast? (.index i) (f.below n) with
    | remove =>
      rw [hedit] at hflow
      have hremoved : w.flow = .removed := hflow
      rw [hremoved] at hmutations
      obtain ⟨c, hc, hbelow⟩ := htail i w.progress.mutate
      simp only [Edit.left]
      refine ⟨c, by simpa only [hremoved] using hc, hbelow.value, hbelow.running, ?_, ?_, ?_,
        hbelow.stopped.trans hrevised.stopped⟩
      · rw [List.foldl_append, ← hrevised.state]
        exact hbelow.state
      · rw [hbelow.entered, ← Nat.add_assoc, ← hrevised.entered]
        rfl
      · rw [hbelow.mutations, Revision.offers_append, Revision.replacements_append,
          Revision.removals_append]
        change w.progress.stats.mutations + 1 + _ + _ = _
        simp only [Flow.removals] at hmutations
        omega
    | keep | replace m =>
      rw [hedit] at hflow hnode
      have hkept : w.flow = .kept := hflow
      rw [hkept] at hmutations
      obtain ⟨c, hc, hbelow⟩ := htail (i + 1) w.progress
      simp only [Edit.left] at hnode ⊢
      refine ⟨c.map (w.node :: ·), by simp only [hkept, hc, Option.map_some], ?_, hbelow.running,
        ?_, ?_, ?_, hbelow.stopped.trans hrevised.stopped⟩
      · rw [hnode]
        exact congrArg _ hbelow.value
      · rw [List.foldl_append, ← hrevised.state]
        exact hbelow.state
      · rw [← Nat.add_assoc, ← hrevised.entered]
        exact hbelow.entered
      · rw [Revision.offers_append, Revision.replacements_append, Revision.removals_append]
        refine hbelow.mutations.trans ?_
        simp only [Flow.removals] at hmutations
        omega

/-- The children of a node that were visited. -/
theorem exists_visitChildren {v : VisitChild σ} {ancestors : List NodeType} {n : Node}
    (hv : ∀ m ∈ n.children, ∀ slot p, ∃ w, v slot m p = some w ∧
      Revised h f (ancestors ++ [n.type]) slot m p w) (p : Progress σ) :
    ∃ c, visitChildren v n p = some c ∧
      RevisedBelow h f (f.inside ancestors n) (Node.countList n.children) (f.below n) p c := by
  cases n with
  | regExp b flags =>
    obtain ⟨c, hc, hbelow⟩ := exists_visitSingle .body (by decide) (hv b List.mem_cons_self .body p)
    rw [List.getLast?_concat] at hbelow
    exact ⟨c.map (.regExp · flags), by rw [visitChildren, hc]; rfl,
      hbelow.map (Node.regExp · flags)⟩
  | group kind e =>
    obtain ⟨c, hc, hbelow⟩ :=
      exists_visitSingle .expression (by decide) (hv e List.mem_cons_self .expression p)
    rw [List.getLast?_concat] at hbelow
    exact ⟨c.map (.group kind), by rw [visitChildren, hc]; rfl, hbelow.map (Node.group kind)⟩
  | repetition e min max greedy =>
    obtain ⟨c, hc, hbelow⟩ :=
      exists_visitSingle .expression (by decide) (hv e List.mem_cons_self .expression p)
    rw [List.getLast?_concat] at hbelow
    exact ⟨c.map (.repetition · min max greedy), by rw [visitChildren, hc]; rfl,
      hbelow.map (Node.repetition · min max greedy)⟩
  | alternative ns | disjunction ns | charClass _ ns =>
    obtain ⟨c, hc, hbelow⟩ := exists_visitList (show ∀ m ∈ ns, _ from hv) 0 p
    rw [List.getLast?_concat] at hbelow
    exact ⟨_, by rw [visitChildren, hc]; rfl, hbelow.map _⟩
  | backreference _ _ | assertion _ | char _ | classRange _ _ =>
    exact ⟨_, rfl, rfl, rfl, rfl, rfl, rfl, rfl⟩

/-- Leaving a node carries out its edit. -/
theorem Revises.leave (hf : Revises h f) (ancestors : List NodeType) (slot : Slot) (n : Node)
    (p : Progress σ) :
    leave h ancestors slot n p =
      ⟨(f.settle ancestors.getLast? slot n).getD n, flowOf slot (f ancestors.getLast? slot n),
        ⟨attend h p.state ⟨.exit, ancestors, slot, n⟩,
          { p.stats with
            mutations :=
              p.stats.mutations + (f ancestors.getLast? slot n).isReplacement.toNat }⟩⟩ := by
  rw [Walk.leave, dispatch_eq_call]
  dsimp only
  rw [hf.exit]
  unfold Revision.settle
  cases f ancestors.getLast? slot n with
  | keep => rfl
  | replace m => rfl
  | remove => cases slot <;> rfl

/-- A visit revises the subtree from the leaves upwards. -/
theorem Revises.exists_visit (hf : Revises h f) (limit : Nat) (ancestors : List NodeType)
    (slot : Slot) (n : Node) (p : Progress σ) (hn : n.height ≤ limit) :
    ∃ v, visit h limit ancestors slot n p = some v ∧ Revised h f ancestors slot n p v := by
  induction limit generalizing ancestors slot n p with
  | zero =>
    have := n.height_pos
    omega
  | succ limit ih =>
    have hchildren : ∀ m ∈ n.children, ∀ slot p, ∃ w,
        visit h limit (ancestors ++ [n.type]) slot m p = some w ∧
          Revised h f (ancestors ++ [n.type]) slot m p w := by
      intro m hm slot p
      have hlt := Node.height_lt_of_mem_children hm
      exact ih _ slot m p (by omega)
    have hentered : dispatch h .enter ancestors slot n p.enter =
        (n, {}, ⟨attend h p.state ⟨.enter, ancestors, slot, n⟩, p.enter.stats⟩) := by
      rw [dispatch_eq_call]
      dsimp only
      rw [show p.enter.state = p.state from rfl, hf.enter]
      rfl
    obtain ⟨c, hc, hbelow⟩ := exists_visitChildren hchildren
      ⟨attend h p.state ⟨.enter, ancestors, slot, n⟩, p.enter.stats⟩
    have hvisit : visit h (limit + 1) ancestors slot n p =
        some (Walk.leave h ancestors slot (f.below n) c.progress) := by
      simp only [visit, hentered, verdict?]
      simp [hc, hbelow.running, hbelow.value]
    refine ⟨_, hvisit, ?_⟩
    rw [hf.leave]
    have hcalls := f.calls_eq ancestors slot n
    exact {
      node := rfl
      flow := rfl
      state := by
        rw [hcalls, Revision.around, List.foldl_cons, List.foldl_append, ← hbelow.state]
        rfl
      entered := by
        rw [hbelow.entered, Node.count_eq, ← Nat.add_assoc]
        rfl
      mutations := by
        rw [hcalls, Revision.offers_around, Revision.replacements_append,
          Revision.removals_append, hbelow.mutations]
        rw [Revision.replacements_singleton, Revision.removals_singleton]
        simp only [Progress.mutations_enter, Revision.edit, Call.parent?]
        omega
      stopped := hbelow.stopped }

/-! ### Walks -/

/-- A walk revises the tree. It makes the calls of the revision, counts every node of the tree
that it began with once, and every replacement and removal. -/
theorem Revises.run_eq (hf : Revises h f) {limit : Nat} {root : Node} (hl : root.height ≤ limit)
    (state : σ) :
    run? limit h root state = some ⟨f.tree root,
      ⟨root.count, f.replacements (Revision.offers (f.calls [] .root root)) +
        f.removals (Revision.offers (f.calls [] .root root)), false⟩,
      (f.calls [] .root root).foldl (attend h) state⟩ := by
  obtain ⟨v, hv, hrevised⟩ := hf.exists_visit limit [] .root root { state } hl
  have hkept : v.flow = .kept := by simpa [flowOf] using hrevised.flow
  have hmutations := hrevised.mutations
  rw [hkept] at hmutations
  have hstats : v.progress.stats = ⟨root.count,
      f.replacements (Revision.offers (f.calls [] .root root)) +
        f.removals (Revision.offers (f.calls [] .root root)), false⟩ := by
    have hentered := hrevised.entered
    simp only [Nat.zero_add, Flow.removals, Nat.add_zero] at hentered hmutations
    calc v.progress.stats = ⟨v.progress.stats.entered, v.progress.stats.mutations,
          v.progress.stats.stopped⟩ := rfl
      _ = _ := by rw [hentered, hmutations, hrevised.stopped]
  rw [run?, hv, Option.map_some, hrevised.node, hstats, hrevised.state]
  rfl

/-! ### Handlers for leaving nodes -/

/-- The only handlers are for leaving nodes of a kind. They keep the node, replace it or remove it
as the revision says; what they note is free. -/
structure ExitOnly (h : Handlers σ) (f : Revision) : Prop where
  any : h.any.isEmpty = true
  enter (k : NodeType) : (h.typed k).enter = none
  exit {k : NodeType} {g : Handler σ} : (h.typed k).exit = some g →
    ∀ p s, p.node.type = k → (g p s).1 = (f p.parent? p.slot p.node).reply p
  unhandled {k : NodeType} : (h.typed k).exit = none →
    ∀ parent slot n, n.type = k → f parent slot n = .keep

/-- What the handler for leaving nodes of the kind notes when it is offered a node. -/
def note (h : Handlers σ) (s : σ) (c : Call) : σ :=
  ((h.typed c.node.type).exit.map fun g => (g c.path s).2).getD s

theorem ExitOnly.any_eq (hf : ExitOnly h f) (phase : Phase) : h.any.handler? phase = none := by
  have hany := hf.any
  simp only [Visitor.isEmpty, Bool.and_eq_true, Option.isNone_iff_eq_none] at hany
  cases phase
  · exact hany.1
  · exact hany.2

/-- Without handlers for any kind a call is one of the handler for the kind of the node. -/
theorem ExitOnly.call_eq (hf : ExitOnly h f) (phase : Phase) (c : Call) (s : σ) :
    h.call c.node.type phase c.path s =
      Handlers.callOne ((h.typed c.node.type).handler? phase) c.path s := by
  simp [Handlers.call, Handlers.callOne, hf.any_eq, Call.path]

theorem ExitOnly.call_enter (hf : ExitOnly h f) (c : Call) (s : σ) :
    h.call c.node.type .enter c.path s = (c.path, s) := by
  rw [hf.call_eq .enter, Visitor.handler?, hf.enter, Handlers.callOne]

/-- Offering a node calls the handler for leaving nodes of its kind, if there is one. -/
theorem ExitOnly.call_exit (hf : ExitOnly h f) (c : Call) (s : σ) :
    h.call c.node.type .exit c.path s = (c.path.apply ((f.edit c).reply c.path), note h s c) := by
  rw [hf.call_eq .exit, Visitor.handler?, note, Revision.edit]
  cases hexit : (h.typed c.node.type).exit with
  | none =>
    rw [hf.unhandled hexit _ _ _ rfl, Edit.reply, Path.apply_keep]
    rfl
  | some g =>
    have hreply : (g c.path s).1 = (f c.parent? c.slot c.node).reply c.path :=
      hf.exit hexit c.path s rfl
    rw [Handlers.callOne, hreply]
    rfl

theorem ExitOnly.revises (hf : ExitOnly h f) : Revises h f where
  enter ancestors slot n s := congrArg Prod.fst (hf.call_enter ⟨.enter, ancestors, slot, n⟩ s)
  exit ancestors slot n s := congrArg Prod.fst (hf.call_exit ⟨.exit, ancestors, slot, n⟩ s)

/-- The notes are those of the offers. -/
theorem ExitOnly.foldl_attend (hf : ExitOnly h f) (cs : List Call) (s : σ) :
    cs.foldl (attend h) s = (Revision.offers cs).foldl (note h) s := by
  induction cs generalizing s with
  | nil => rfl
  | cons c cs ih =>
    rw [List.foldl_cons, ih]
    obtain ⟨phase, ancestors, slot, n⟩ := c
    cases phase with
    | enter =>
      rw [attend, hf.call_enter ⟨.enter, ancestors, slot, n⟩]
      rfl
    | exit =>
      rw [attend, hf.call_exit ⟨.exit, ancestors, slot, n⟩]
      rfl

/-- A walk whose only handlers are for leaving nodes is a recursion over the tree: the children are
revised first, then the handler for the kind of the node is offered the node that holds those that
stay. Each node of the tree is offered once, after those below it, and no node that was put in
place is. The root is not removed, and the mutations are the replacements and the other
removals. -/
theorem run_exitOnly (hf : ExitOnly h f) (root : Node) (state : σ) {limit : Nat}
    (hl : root.height ≤ limit) :
    ∃ offers, offers = Revision.offers (f.calls [] .root root) ∧
      run? limit h root state = some ⟨f.tree root,
        ⟨root.count, f.replacements offers + f.removals offers, false⟩,
        offers.foldl (note h) state⟩ ∧
      offers.map Call.node = root.postorder.map f.below ∧ offers.length = root.count := by
  refine ⟨_, rfl, ?_, Revision.map_node_offers [] .root root, ?_⟩
  · rw [hf.revises.run_eq hl, hf.foldl_attend]
  · have hnodes := congrArg List.length (Revision.map_node_offers (f := f) [] .root root)
    rwa [List.length_map, List.length_map, Node.length_postorder] at hnodes

/-- On `(?:abc)` a revision removes `a`, puts an anchor in the place of the first character of a
sequence, which is `b` by then, and asks in vain for the removal of the root. -/
theorem run_exitOnly_gap :
    ∃ (h : Handlers Nat) (f : Revision), ExitOnly h f ∧
      run? 3 h (.group .nonCapturing (.alternative [.char (.simple 'a'), .char (.simple 'b'),
        .char (.simple 'c')])) 0 =
        some ⟨.group .nonCapturing (.alternative [.assertion .start, .char (.simple 'c')]),
          ⟨5, 2, false⟩, 4⟩ := by
  have hf : ExitOnly
      ((({} : Handlers Nat).on (some .char) .exit fun p s =>
        ((if p.node = .char (.simple 'a') then Edit.remove
          else if p.slot = .index 0 then .replace (.assertion .start)
          else .keep).reply p, s + 1)).on
        (some .group) .exit fun p s => (p.remove, s + 1))
      (fun _ slot n =>
        if n.type = .group then .remove
        else if n.type = .char then
          if n = .char (.simple 'a') then .remove
          else if slot = .index 0 then .replace (.assertion .start) else .keep
        else .keep) := by
    refine ⟨rfl, fun k => by cases k <;> rfl, fun {k g} hg p s hk => ?_, fun {k} hk _ _ n hn => ?_⟩
    · cases k <;> first | cases hg; simp [hk, Path.remove, Edit.reply] | cases hg
    · have hother : k ≠ .group ∧ k ≠ .char := by
        constructor
        · rintro rfl
          cases hk
        · rintro rfl
          cases hk
      rw [if_neg (hn ▸ hother.1), if_neg (hn ▸ hother.2)]
  refine ⟨_, _, hf, ?_⟩
  obtain ⟨offers, rfl, hrun, -, -⟩ := run_exitOnly hf
    (.group .nonCapturing (.alternative [.char (.simple 'a'), .char (.simple 'b'),
      .char (.simple 'c')])) 0 (show Node.height _ ≤ 3 by decide)
  rw [hrun]
  rfl

end Walk

end RegexKit
