import RegexKit.Proofs.Walk.Positions

/-! The history of a walk. A walk is run once more with the frames around every node in hand, and
every call of handlers is noted together with the whole tree at that moment. The notes change
nothing: without them it is the walk itself, and the kinds of the ancestors and the slot that
the walk passes to its handlers are those of the frames. -/

namespace RegexKit

namespace Walk

open Node

variable {σ : Type}

/-! ### Events -/

/-- A call of the handlers of a phase. -/
structure Event where
  phase : Phase
  /-- The whole tree at the call. -/
  tree : Node
  /-- The way from the root to the node. -/
  position : List Slot
  ancestors : List NodeType
  slot : Slot
  node : Node
  /-- The node that the handlers leave. -/
  left : Node
  signals : Signals

namespace Event

/-- The verdict on the visit. -/
def verdict? (e : Event) : Option Flow := Walk.verdict? e.slot e.signals

/-- The visit ends with the removal of the node. -/
def removes (e : Event) : Bool := e.verdict? == some .removed

/-- What the call leaves in the slot of the node. -/
def remains (e : Event) : Option Node := if e.removes then none else some e.left

end Event

/-- Calls the handlers on a node in its frames, and notes the call. -/
def observe (h : Handlers σ) (phase : Phase) (fs : List Frame) (n : Node) (p : Progress σ) :
    Event × Progress σ :=
  let r := dispatch h phase (kinds fs) (slotOf fs) n p
  (⟨phase, plug fs n, position fs, kinds fs, slotOf fs, n, r.1, r.2.1⟩, r.2.2)

/-! ### Visits -/

/-- The history of a visit. -/
inductive History
  /-- The visit ended when the node was entered. -/
  | ended (enter : Event)
  /-- The children were passed over. -/
  | skipped (enter exit : Event)
  /-- The walk was stopped among the children. -/
  | stopped (enter : Event) (below : List History)
  | full (enter : Event) (below : List History) (exit : Event)

namespace History

/-- The call on entering the node. -/
def enter : History → Event
  | ended e | skipped e _ | stopped e _ | full e _ _ => e

/-- How the walk went on after the visit. -/
def flow : History → Flow
  | ended e | skipped _ e | full _ _ e => e.verdict?.getD .kept
  | stopped _ _ => .stopped

mutual

/-- The node that the visit left. -/
def left : History → Node
  | ended e | skipped _ e | full _ _ e => e.left
  | stopped e below =>
    e.left.withChildren (survivors below ++ e.left.children.drop below.length)

/-- The nodes that visits left and did not remove. -/
def survivors : List History → List Node
  | [] => []
  | v :: vs => if v.flow = .removed then survivors vs else v.left :: survivors vs

end

mutual

/-- All calls of a visit, in order. -/
def events : History → List Event
  | ended e => [e]
  | skipped e x => [e, x]
  | stopped e below => e :: eventsList below
  | full e below x => e :: (eventsList below ++ [x])

def eventsList : List History → List Event
  | [] => []
  | v :: vs => v.events ++ eventsList vs

end

mutual

/-- The visit and all visits below it, in the order in which they began. -/
def visits : History → List History
  | v@(ended _) | v@(skipped _ _) => [v]
  | v@(stopped _ below) | v@(full _ below _) => v :: visitsList below

def visitsList : List History → List History
  | [] => []
  | v :: vs => v.visits ++ visitsList vs

end

end History

/-- A visit with its history. -/
abbrev Traced (σ : Type) := History × Progress σ

/-- The visit without its history. -/
def Traced.visit (t : Traced σ) : Visit σ := ⟨t.1.left, t.1.flow, t.2⟩

/-! ### The walk with its history -/

/-- Ends a visit with the verdict on a call. -/
def settle (t : Event × Progress σ) : Progress σ :=
  (conclude t.1.left (t.1.verdict?.getD .kept) t.2).progress

/-- Visits children with others of them already visited and left. -/
def traceChildren (visit : Frame → Node → Progress σ → Option (Traced σ)) (parent : Node)
    (before : List Node) : List Node → Progress σ → Option (List History × Progress σ)
  | [], p => some ([], p)
  | n :: ns, p =>
    (visit ⟨parent, before, ns⟩ n p).bind fun t =>
      match t.1.flow with
      | .kept =>
        (traceChildren visit parent (before ++ [t.1.left]) ns t.2).map fun r => (t.1 :: r.1, r.2)
      | .removed =>
        (traceChildren visit parent before ns t.2.mutate).map fun r => (t.1 :: r.1, r.2)
      | .stopped => some ([t.1], t.2)

/-- Some of the visits stopped the walk. -/
def anyStopped (vs : List History) : Bool := vs.any fun v => v.flow == .stopped

/-- Visits a node in its frames and what is below it, at most so many levels deep. -/
def trace (h : Handlers σ) : Nat → List Frame → Node → Progress σ → Option (Traced σ)
  | 0, _, _, _ => none
  | limit + 1, fs, n, p =>
    let enter := observe h .enter fs n p.enter
    match enter.1.verdict? with
    | some _ => some (.ended enter.1, settle enter)
    | none =>
      if enter.1.signals.skip then
        let exit := observe h .exit fs enter.1.left enter.2
        some (.skipped enter.1 exit.1, settle exit)
      else
        (traceChildren (fun f => trace h limit (f :: fs)) enter.1.left [] enter.1.left.children
          enter.2).map fun r =>
            if anyStopped r.1 then (.stopped enter.1 r.1, r.2)
            else
              let exit := observe h .exit fs (enter.1.left.withChildren (History.survivors r.1)) r.2
              (.full enter.1 r.1 exit.1, settle exit)

/-- Walks over a tree, with the history of the walk. -/
def trace? (limit : Nat) (h : Handlers σ) (root : Node) (state : σ) :
    Option (History × Outcome σ) :=
  (trace h limit [] root { state }).map fun t =>
    (t.1, ⟨t.1.left, t.2.stats, t.2.state⟩)

/-! ### The notes change nothing -/

section Children

variable {v : Frame → Node → Progress σ → Option (Traced σ)} {visit : VisitChild σ}
  {parent : Node}

/-- All children are visited unless the walk is stopped among them. -/
theorem length_traceChildren {before ns : List Node} {p : Progress σ}
    {r : List History × Progress σ} (h : traceChildren v parent before ns p = some r)
    (hstopped : anyStopped r.1 = false) : r.1.length = ns.length := by
  induction ns generalizing before p r with
  | nil =>
    cases h
    rfl
  | cons n ns ih =>
    rw [traceChildren] at h
    obtain ⟨t, -, h⟩ := Option.bind_eq_some_iff.1 h
    split at h
    · obtain ⟨r', hr', rfl⟩ := Option.map_eq_some_iff.1 h
      simpa using ih hr' (Bool.or_eq_false_iff.1 hstopped).2
    · obtain ⟨r', hr', rfl⟩ := Option.map_eq_some_iff.1 h
      simpa using ih hr' (Bool.or_eq_false_iff.1 hstopped).2
    · rename_i hflow
      cases h
      simp [anyStopped, hflow] at hstopped

/-- What is left of children after visits to the first of them. -/
def leftOf (vs : List History) (ns : List Node) : List Node :=
  History.survivors vs ++ ns.drop vs.length

/-- Visits to the children of a list, without their histories. -/
theorem visitList_eq (hv : ∀ f n p, f.parent = parent → (v f n p).map Traced.visit =
      visit (parent.slotAt f.before.length) n p)
    (hslot : ∀ i, parent.slotAt i = .index i) (before ns : List Node) (p : Progress σ) :
    (traceChildren v parent before ns p).map
        (fun r => (⟨leftOf r.1 ns, anyStopped r.1, r.2⟩ : Children (List Node) σ)) =
      visitList visit before.length ns p := by
  induction ns generalizing before p with
  | nil => rfl
  | cons n ns ih =>
    rw [traceChildren, visitList, ← hslot, ← hv ⟨parent, before, ns⟩ n p rfl]
    cases v ⟨parent, before, ns⟩ n p with
    | none => rfl
    | some t =>
      simp only [Option.bind_some, Option.map_some, Traced.visit]
      cases hflow : t.1.flow with
      | kept =>
        have hrest := ih (before ++ [t.1.left]) t.2
        rw [List.length_append, List.length_singleton] at hrest
        simp only [← hrest, Option.map_map]
        congr 1
        funext r
        simp [Children.map, leftOf, History.survivors, anyStopped, hflow]
      | removed =>
        simp only [← ih before t.2.mutate, Option.map_map]
        congr 1
        funext r
        simp [leftOf, History.survivors, anyStopped, hflow]
      | stopped => simp [hflow, leftOf, History.survivors, anyStopped]

/-- A visit to an only child, without its history. -/
theorem visitSingle_eq (hv : ∀ f n p, f.parent = parent → (v f n p).map Traced.visit =
      visit (parent.slotAt f.before.length) n p) (n : Node) (p : Progress σ) :
    (traceChildren v parent [] [n] p).map
        (fun r => (⟨(leftOf r.1 [n]).headD .empty, anyStopped r.1, r.2⟩ : Children Node σ)) =
      visitSingle visit (parent.slotAt 0) n p := by
  have hn := hv ⟨parent, [], []⟩ n p rfl
  rw [traceChildren, visitSingle, ← show [].length = 0 from rfl, ← hn]
  cases v ⟨parent, [], []⟩ n p with
  | none => rfl
  | some t =>
    simp only [Option.bind_some, Option.map_some, Traced.visit]
    split
    · rename_i hflow
      simp [traceChildren, hflow, leftOf, History.survivors, anyStopped]
    · rename_i hflow
      simp [traceChildren, hflow, leftOf, History.survivors, anyStopped]
    · rename_i hflow
      simp [hflow, leftOf, History.survivors, anyStopped]

/-- Visits to the children of a node, without their histories. -/
theorem visitChildren_eq (hv : ∀ f n p, f.parent = parent → (v f n p).map Traced.visit =
      visit (parent.slotAt f.before.length) n p) (p : Progress σ) :
    (traceChildren v parent [] parent.children p).map
        (fun r => (⟨parent.withChildren (leftOf r.1 parent.children), anyStopped r.1, r.2⟩ :
          Children Node σ)) =
      visitChildren visit parent p := by
  cases parent with
  | regExp b _ | group _ b | repetition b _ _ _ =>
    have hsingle := visitSingle_eq hv b p
    simp only [slotAt] at hsingle
    rw [visitChildren, ← hsingle, Option.map_map]
    rfl
  | alternative ns | disjunction ns | charClass _ ns =>
    have hlist := visitList_eq hv (fun _ => rfl) [] ns p
    rw [List.length_nil] at hlist
    rw [visitChildren, ← hlist, Option.map_map]
    rfl
  | backreference _ _ | assertion _ | char _ | classRange _ _ => rfl

end Children

theorem kinds_cons (f : Frame) (fs : List Frame) :
    kinds (f :: fs) = kinds fs ++ [f.parent.type] := by
  rw [kinds, List.map_cons, List.reverse_cons, kinds]

/-- Leaving a node is a call that is noted. -/
theorem leave_eq_observe (h : Handlers σ) (fs : List Frame) (n : Node) (p : Progress σ) :
    leave h (kinds fs) (slotOf fs) n p =
      ⟨(observe h .exit fs n p).1.left, (observe h .exit fs n p).1.verdict?.getD .kept,
        settle (observe h .exit fs n p)⟩ := rfl

/-- A visit without its history is the visit of the walk. -/
theorem map_visit_trace (h : Handlers σ) (limit : Nat) (fs : List Frame) (n : Node)
    (p : Progress σ) :
    (trace h limit fs n p).map Traced.visit = visit h limit (kinds fs) (slotOf fs) n p := by
  induction limit generalizing fs n p with
  | zero => rfl
  | succ limit ih =>
    rcases hentered : dispatch h .enter (kinds fs) (slotOf fs) n p.enter with ⟨m, signals, q⟩
    have hobserve : observe h .enter fs n p.enter =
        (⟨.enter, plug fs n, position fs, kinds fs, slotOf fs, n, m, signals⟩, q) := by
      rw [observe, hentered]
    simp only [trace, visit, hobserve, hentered, Event.verdict?, leave_eq_observe]
    cases hverdict : verdict? (slotOf fs) signals with
    | some flow =>
      simp [Traced.visit, History.left, History.flow, settle, Event.verdict?, hverdict, conclude]
    | none =>
      by_cases hskip : signals.skip = true
      · simp [hskip, Traced.visit, History.left, History.flow, Event.verdict?]
      · have hvisits : ∀ (f : Frame) (c : Node) (q : Progress σ), f.parent = m →
            (trace h limit (f :: fs) c q).map Traced.visit =
              visit h limit (kinds fs ++ [m.type]) (m.slotAt f.before.length) c q :=
          fun f c q hf => by rw [ih, kinds_cons, hf, slotOf, Frame.slot, hf]
        have hchildren := visitChildren_eq hvisits q
        simp only [hskip, Bool.false_eq_true, if_false, Option.map_map, ← hchildren]
        refine Option.map_congr fun r hr => ?_
        cases hstopped : anyStopped r.1 with
        | true => simp [Traced.visit, History.left, History.flow, hstopped, leftOf]
        | false =>
          have hlength := length_traceChildren hr hstopped
          simp [Traced.visit, History.left, History.flow, hstopped, leftOf, hlength, Event.verdict?]

/-- The walk is the walk with its history, without the history. -/
theorem map_snd_trace? (limit : Nat) (h : Handlers σ) (root : Node) (state : σ) :
    (trace? limit h root state).map Prod.snd = run? limit h root state := by
  have hvisit := map_visit_trace h limit [] root { state }
  rw [trace?, run?, Option.map_map]
  change _ = (visit h limit (kinds []) (slotOf []) root { state }).map _
  rw [← hvisit, Option.map_map]
  rfl

end Walk

end RegexKit
