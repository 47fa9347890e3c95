import RegexKit.Proofs.Walk.Passes
import RegexKit.Proofs.Walk.Simulation

/-! Walks that are stopped. Handlers are given a number of dispatches; in the last of these the
last handler called stops the walk as well. The walk then is the walk of the handlers as they were
up to that dispatch: what it edited stays edited, a removal asked for in that dispatch is not made,
no node is entered or left afterwards, and what was not visited stays as it was. -/

namespace RegexKit

variable {σ : Type}

/-! ### Handlers with a number of dispatches -/

/-- The signals with a stop. -/
def Signals.halting (s : Signals) : Signals := { s with stop := true }

/-- The answer with a stop. -/
def Reply.halting (r : Reply) : Reply := { r with signals := r.signals.halting }

/-- The path with a stop. -/
def Path.halting (p : Path) : Path := { p with signals := p.signals.halting }

theorem Path.apply_halting (p : Path) (r : Reply) : p.apply r.halting = (p.apply r).halting := by
  simp [apply, Reply.halting, halting, Signals.or, Signals.halting]

namespace Handlers

/-- A handler that knows how many dispatches are left, this one among them when it is the first
that is called in it. If it is the last that is called in the last of them, it stops the walk. -/
def meter (h : Handlers σ) (kind : Option NodeType) (phase : Phase) (f : Handler σ) :
    Handler (σ × Nat) := fun p s =>
  let r := f p s.1
  let left := if kind.isSome && (h.any.handler? phase).isSome then s.2 else s.2 - 1
  let last := kind.isSome || endsCall p.node.type (p.apply r.1) ||
    ((h.typed p.node.type).handler? phase).isNone
  (if last && left == 0 then r.1.halting else r.1, r.2, left)

/-- The handlers with a number of dispatches after which they stop the walk. -/
def metered (h : Handlers σ) : Handlers (σ × Nat) := h.map h.meter

theorem has_metered (h : Handlers σ) (k : NodeType) (phase : Phase) :
    h.metered.has k phase = h.has k phase := h.has_map h.meter k phase

theorem endsCall_halting (k : NodeType) (p : Path) : endsCall k p.halting = true := by
  simp [endsCall, Path.halting, Signals.halting]

theorem endsCall_of_fresh {p : Path} (hp : p.signals = {}) : endsCall p.node.type p = false := by
  simp [endsCall, hp]

section Meter

variable {h : Handlers σ} {phase : Phase} {p : Path}

theorem meter_any (h : Handlers σ) (phase : Phase) (f : Handler σ) (p : Path) (s : σ)
    (left : Nat) : h.meter none phase f p (s, left + 1) =
      (if (endsCall p.node.type (p.apply (f p s).1) ||
          ((h.typed p.node.type).handler? phase).isNone) && left == 0 then (f p s).1.halting
        else (f p s).1, (f p s).2, left) := rfl

theorem meter_alone (hany : h.any.handler? phase = none) (k : NodeType) (f : Handler σ) (p : Path)
    (s : σ) (left : Nat) : h.meter (some k) phase f p (s, left + 1) =
      (if left = 0 then (f p s).1.halting else (f p s).1, (f p s).2, left) := by
  simp [meter, hany]

theorem meter_after_any (hany : (h.any.handler? phase).isSome = true) (k : NodeType)
    (f : Handler σ) (p : Path) (s : σ) (left : Nat) : h.meter (some k) phase f p (s, left) =
      (if left = 0 then (f p s).1.halting else (f p s).1, (f p s).2, left) := by
  simp [meter, hany]

/-- A dispatch takes one from the number that is left, and with the last one the walk stops. -/
theorem call_metered (hp : p.signals = {}) (s : σ) (left : Nat)
    (hhas : h.has p.node.type phase = true) :
    h.metered.call p.node.type phase p (s, left + 1) =
      let r := h.call p.node.type phase p s
      (if left = 0 then r.1.halting else r.1, r.2, left) := by
  rw [call_eq, call_eq]
  simp only [metered, any_map, typed_map, Visitor.handler?_map]
  obtain hany | ⟨f, hany⟩ := (h.any.handler? phase).eq_none_or_eq_some
  · obtain htyped | ⟨g, htyped⟩ := ((h.typed p.node.type).handler? phase).eq_none_or_eq_some
    · simp [has, hany, htyped] at hhas
    · simp only [hany, htyped, Option.map_none, Option.map_some, callOne, endsCall_of_fresh hp,
        meter_alone hany]
      by_cases hleft : left = 0
      · simp [hleft, Path.apply_halting]
      · simp [hleft]
  · have hsome : (h.any.handler? phase).isSome = true := by rw [hany, Option.isSome_some]
    simp only [hany, Option.map_some, callOne, meter_any]
    by_cases hends : endsCall p.node.type (p.apply (f p s).1) = true
    · by_cases hleft : left = 0
      · simp [hleft, hends, Path.apply_halting, endsCall_halting]
      · simp [hleft, hends]
    · obtain htyped | ⟨g, htyped⟩ := ((h.typed p.node.type).handler? phase).eq_none_or_eq_some
      · by_cases hleft : left = 0
        · simp [hleft, hends, htyped, Path.apply_halting, endsCall_halting]
        · simp [hleft, hends, htyped]
      · simp only [htyped, Option.map_some, meter_after_any hsome]
        by_cases hleft : left = 0
        · simp [hleft, hends, Path.apply_halting]
        · simp [hleft, hends]

end Meter

end Handlers

namespace Walk

open Node

/-! ### Dispatches -/

/-- With the number of dispatches left. -/
def Progress.withLeft (p : Progress σ) (left : Nat) : Progress (σ × Nat) := ⟨(p.state, left), p.stats⟩

namespace Event

/-- Some handler is called. -/
def isDispatch (h : Handlers σ) (e : Event) : Bool := h.has e.node.type e.phase

/-- The event with a stop. -/
def halted (e : Event) : Event := { e with signals := e.signals.halting }

theorem verdict?_halted (e : Event) : e.halted.verdict? = some .stopped := by
  simp [halted, verdict?, Walk.verdict?, Signals.halting]

theorem flow_halted (e : Event) : e.halted.verdict?.getD .kept = .stopped := by
  rw [verdict?_halted, Option.getD_some]

end Event

/-- How often some handler is called. -/
def dispatches (h : Handlers σ) (es : List Event) : Nat := es.countP (Event.isDispatch h)

@[simp] theorem dispatches_nil (h : Handlers σ) : dispatches h [] = 0 := rfl

@[simp] theorem dispatches_append (h : Handlers σ) (es es' : List Event) :
    dispatches h (es ++ es') = dispatches h es + dispatches h es' := List.countP_append

theorem dispatches_cons (h : Handlers σ) (e : Event) (es : List Event) :
    dispatches h (e :: es) = dispatches h [e] + dispatches h es := dispatches_append h [e] es

/-- A call makes one dispatch or none. -/
theorem dispatches_singleton_le (h : Handlers σ) (e : Event) : dispatches h [e] ≤ 1 :=
  List.countP_le_length

theorem dispatches_singleton_eq_one {h : Handlers σ} {e : Event} :
    dispatches h [e] = 1 ↔ e.isDispatch h = true := by
  simp [dispatches, List.countP_singleton]

theorem dispatch_of_not_has {h : Handlers σ} {phase : Phase} {n : Node}
    (hhas : h.has n.type phase = false) (ancestors : List NodeType) (slot : Slot)
    (p : Progress σ) : dispatch h phase ancestors slot n p = (n, {}, p) := by
  simp [dispatch, hhas]

theorem dispatch_metered {h : Handlers σ} {phase : Phase} {n : Node}
    (hhas : h.has n.type phase = true) (ancestors : List NodeType) (slot : Slot)
    (p : Progress σ) (left : Nat) :
    dispatch h.metered phase ancestors slot n (p.withLeft (left + 1)) =
      let d := dispatch h phase ancestors slot n p
      (d.1, if left = 0 then d.2.1.halting else d.2.1, d.2.2.withLeft left) := by
  have hhas' : h.metered.has n.type phase = true := (h.has_metered _ _).trans hhas
  have hcall := Handlers.call_metered (p := { node := n, slot, ancestors }) rfl p.state left hhas
  dsimp only at hcall
  simp only [dispatch, hhas, hhas', if_true, Progress.withLeft, hcall]
  by_cases hleft : left = 0
  · simp only [hleft, if_true, Path.halting, Signals.halting]
    split <;> rfl
  · simp only [hleft, if_false]
    split <;> rfl

variable {h : Handlers σ} {fs : List Frame} {n : Node} {p q : Progress σ} {left : Nat}
  {phase : Phase} {e : Event}

/-- A call with more dispatches left than it takes is the call as it was. -/
theorem observe_running (he : observe h phase fs n p = (e, q)) (hleft : 0 < left) :
    observe h.metered phase fs n (p.withLeft (dispatches h [e] + left)) =
      (e, q.withLeft left) := by
  cases he
  cases hhas : h.has n.type phase with
  | false =>
    have hhas' : h.metered.has n.type phase = false := (h.has_metered _ _).trans hhas
    simp [observe, dispatch_of_not_has hhas, dispatch_of_not_has hhas', dispatches,
      Event.isDispatch, hhas]
  | true =>
    have hone : dispatches h [(observe h phase fs n p).1] = 1 :=
      dispatches_singleton_eq_one.2 hhas
    change observe h.metered phase fs n
      (p.withLeft (dispatches h [(observe h phase fs n p).1] + left)) = _
    rw [hone, Nat.add_comm, observe, dispatch_metered hhas]
    dsimp only
    rw [if_neg (Nat.ne_of_gt hleft)]

/-- A call with one dispatch left is the call as it was, with a stop. -/
theorem observe_last (he : observe h phase fs n p = (e, q)) (hone : dispatches h [e] = 1) :
    observe h.metered phase fs n (p.withLeft 1) = (e.halted, q.withLeft 0) := by
  cases he
  have hhas : h.has n.type phase = true := dispatches_singleton_eq_one.1 hone
  rw [observe, dispatch_metered hhas]
  rfl

/-- The count of a removal after a visit. -/
def Flow.charge (f : Flow) (p : Progress σ) : Progress σ :=
  match f with
  | .removed => p.mutate
  | .kept | .stopped => p

theorem Progress.charge_withLeft (f : Flow) (p : Progress σ) (left : Nat) :
    f.charge (p.withLeft left) = (f.charge p).withLeft left := by
  cases f <;> rfl

/-! ### One visit -/

/-- What a visit is: ended on entering, without visits to the children, stopped among these, or
with visits to all of them. -/
inductive Visits (h : Handlers σ) (limit : Nat) (fs : List Frame) (n : Node) (p : Progress σ) :
    Traced σ → Prop
  | ended {e : Event} {q : Progress σ} {flow : Flow} (enter : observe h .enter fs n p.enter = (e, q))
      (verdict : e.verdict? = some flow) : Visits h limit fs n p (.ended e, settle (e, q))
  | skipped {e x : Event} {q q' : Progress σ} (enter : observe h .enter fs n p.enter = (e, q))
      (verdict : e.verdict? = none) (skip : e.signals.skip = true)
      (exit : observe h .exit fs e.left q = (x, q')) :
      Visits h limit fs n p (.skipped e x, settle (x, q'))
  | stopped {e : Event} {q : Progress σ} {r : List History × Progress σ}
      (enter : observe h .enter fs n p.enter = (e, q)) (verdict : e.verdict? = none)
      (skip : e.signals.skip = false)
      (below : traceChildren (fun f => trace h limit (f :: fs)) e.left [] e.left.children q = some r)
      (stopped : anyStopped r.1 = true) : Visits h limit fs n p (.stopped e r.1, r.2)
  | full {e x : Event} {q q' : Progress σ} {r : List History × Progress σ}
      (enter : observe h .enter fs n p.enter = (e, q)) (verdict : e.verdict? = none)
      (skip : e.signals.skip = false)
      (below : traceChildren (fun f => trace h limit (f :: fs)) e.left [] e.left.children q = some r)
      (stopped : anyStopped r.1 = false)
      (exit : observe h .exit fs (e.left.withChildren (History.survivors r.1)) r.2 = (x, q')) :
      Visits h limit fs n p (.full e r.1 x, settle (x, q'))

theorem trace_of_visits {limit : Nat} {t : Traced σ} (ht : Visits h limit fs n p t) :
    trace h (limit + 1) fs n p = some t := by
  rw [trace]
  cases ht with
  | ended henter hverdict => simp only [henter, hverdict]
  | skipped henter hverdict hskip hexit => simp only [henter, hverdict, hskip, hexit, if_true]
  | stopped henter hverdict hskip hbelow hstopped =>
    simp [henter, hverdict, hskip, hbelow, hstopped]
  | full henter hverdict hskip hbelow hstopped hexit =>
    simp [henter, hverdict, hskip, hbelow, hstopped, hexit]

theorem visits_of_trace {limit : Nat} {t : Traced σ} (ht : trace h (limit + 1) fs n p = some t) :
    Visits h limit fs n p t := by
  rw [trace] at ht
  cases hverdict : (observe h .enter fs n p.enter).1.verdict? with
  | some flow =>
    simp only [hverdict] at ht
    cases ht
    exact .ended rfl hverdict
  | none =>
    simp only [hverdict] at ht
    split at ht
    · rename_i hskip
      cases ht
      exact .skipped rfl hverdict hskip rfl
    · rename_i hskip
      obtain ⟨r, hr, rfl⟩ := Option.map_eq_some_iff.1 ht
      have hskip' : (observe h .enter fs n p.enter).1.signals.skip = false := by simpa using hskip
      cases hstopped : anyStopped r.1 with
      | true => exact .stopped rfl hverdict hskip' hr hstopped
      | false => exact .full rfl hverdict hskip' hr hstopped rfl

/-! ### Histories -/

/-- The second events are the first up to the dispatch of that number, which has a stop. -/
def Cut (h : Handlers σ) (k : Nat) (es es' : List Event) : Prop :=
  ∃ earlier e later, es = earlier ++ e :: later ∧ es' = earlier ++ [e.halted] ∧
    e.isDispatch h = true ∧ dispatches h earlier + 1 = k

theorem Cut.here {e : Event} (he : dispatches h [e] = 1) (later : List Event) :
    Cut h 1 (e :: later) [e.halted] :=
  ⟨[], e, later, rfl, rfl, dispatches_singleton_eq_one.1 he, rfl⟩

theorem Cut.append_right {k : Nat} {es es' : List Event} (hcut : Cut h k es es')
    (later : List Event) : Cut h k (es ++ later) es' := by
  obtain ⟨earlier, e, rest, rfl, rfl, he, hk⟩ := hcut
  exact ⟨earlier, e, rest ++ later, by simp, rfl, he, hk⟩

theorem Cut.append_left {k : Nat} {es es' : List Event} (hcut : Cut h k es es')
    (before : List Event) : Cut h (dispatches h before + k) (before ++ es) (before ++ es') := by
  obtain ⟨earlier, e, rest, rfl, rfl, he, hk⟩ := hcut
  refine ⟨before ++ earlier, e, rest, by simp, by simp, he, ?_⟩
  rw [dispatches_append, Nat.add_assoc, hk]

section Children

variable {v : Frame → Node → Progress σ → Option (Traced σ)}
  {w : Frame → Node → Progress (σ × Nat) → Option (Traced (σ × Nat))} {parent : Node}
  {before ns : List Node} {r : List History × Progress σ}

/-- Visits to children go on after a visit that did not stop the walk. -/
theorem traceChildren_cons {t : Traced σ} (ht : v ⟨parent, before, ns⟩ n p = some t)
    (hflow : t.1.flow ≠ .stopped) :
    traceChildren v parent before (n :: ns) p =
      (traceChildren v parent (before ++ t.1.remains.toList) ns (t.1.flow.charge t.2)).map
        fun r => (t.1 :: r.1, r.2) := by
  rw [traceChildren, ht, Option.bind_some, History.remains]
  cases hkept : t.1.flow with
  | kept => simp [Flow.charge]
  | removed => simp [Flow.charge]
  | stopped => exact absurd hkept hflow

theorem traceChildren_cons_of_stopped {t : Traced σ} (ht : v ⟨parent, before, ns⟩ n p = some t)
    (hflow : t.1.flow = .stopped) :
    traceChildren v parent before (n :: ns) p = some ([t.1], t.2) := by
  rw [traceChildren, ht, Option.bind_some, hflow]

/-- Visits to children with more dispatches left than they take are the visits as they were. -/
theorem traceChildren_running (hv : ∀ f n p t left, v f n p = some t → 0 < left →
      w f n (p.withLeft (dispatches h t.1.events + left)) = some (t.1, t.2.withLeft left))
    (hr : traceChildren v parent before ns p = some r) (hleft : 0 < left) :
    traceChildren w parent before ns
        (p.withLeft (dispatches h (History.eventsList r.1) + left)) =
      some (r.1, r.2.withLeft left) := by
  induction ns generalizing before p r with
  | nil =>
    cases hr
    rw [History.eventsList, dispatches_nil, Nat.zero_add]
    rfl
  | cons n ns ih =>
    obtain ⟨t, ht, -⟩ := Option.bind_eq_some_iff.1 hr
    by_cases hflow : t.1.flow = .stopped
    · rw [traceChildren_cons_of_stopped ht hflow] at hr
      cases hr
      rw [History.eventsList, History.eventsList, List.append_nil]
      exact traceChildren_cons_of_stopped (hv _ _ _ _ _ ht hleft) hflow
    · rw [traceChildren_cons ht hflow] at hr
      obtain ⟨r', hr', rfl⟩ := Option.map_eq_some_iff.1 hr
      have hfirst := hv _ _ _ _ (dispatches h (History.eventsList r'.1) + left) ht (by omega)
      rw [History.eventsList, dispatches_append, Nat.add_assoc, traceChildren_cons hfirst hflow,
        Progress.charge_withLeft, ih hr']
      rfl

/-- Visits to children that take the dispatches left are stopped among them. -/
theorem traceChildren_cut (hv : ∀ f n p t left, v f n p = some t → 0 < left →
      w f n (p.withLeft (dispatches h t.1.events + left)) = some (t.1, t.2.withLeft left))
    (hcut : ∀ f n p t left, v f n p = some t → t.1.flow ≠ .stopped → 0 < left →
      left ≤ dispatches h t.1.events → ∃ t', w f n (p.withLeft left) = some t' ∧
        t'.1.flow = .stopped ∧ Cut h left t.1.events t'.1.events)
    (hr : traceChildren v parent before ns p = some r) (hstopped : anyStopped r.1 = false)
    (hleft : 0 < left) (hle : left ≤ dispatches h (History.eventsList r.1)) :
    ∃ r', traceChildren w parent before ns (p.withLeft left) = some r' ∧
      anyStopped r'.1 = true ∧
      Cut h left (History.eventsList r.1) (History.eventsList r'.1) := by
  induction ns generalizing before p r left with
  | nil =>
    cases hr
    rw [History.eventsList, dispatches_nil] at hle
    omega
  | cons n ns ih =>
    obtain ⟨t, ht, -⟩ := Option.bind_eq_some_iff.1 hr
    have hflow : t.1.flow ≠ .stopped := by
      intro hflow
      rw [traceChildren_cons_of_stopped ht hflow] at hr
      cases hr
      simp [anyStopped, hflow] at hstopped
    rw [traceChildren_cons ht hflow] at hr
    obtain ⟨r', hr', rfl⟩ := Option.map_eq_some_iff.1 hr
    rw [History.eventsList, dispatches_append] at hle
    by_cases hfirst : left ≤ dispatches h t.1.events
    · obtain ⟨t', ht', hflow', hcut'⟩ := hcut _ _ _ _ _ ht hflow hleft hfirst
      refine ⟨_, traceChildren_cons_of_stopped ht' hflow', by simp [anyStopped, hflow'], ?_⟩
      rw [History.eventsList, History.eventsList, History.eventsList, List.append_nil]
      exact hcut'.append_right _
    · obtain ⟨rest, rfl⟩ := Nat.exists_eq_add_of_le (Nat.le_of_not_le hfirst)
      have hfirst' := hv _ _ _ _ rest ht (by omega)
      obtain ⟨r'', hr'', hstopped'', hcut''⟩ :=
        ih hr' (Bool.or_eq_false_iff.1 hstopped).2 (show 0 < rest by omega) (by omega)
      refine ⟨(t.1 :: r''.1, r''.2), ?_, Bool.or_eq_true_iff.2 (.inr hstopped''), ?_⟩
      · rw [traceChildren_cons hfirst' hflow, Progress.charge_withLeft, hr'']
        rfl
      · rw [History.eventsList, History.eventsList]
        exact hcut''.append_left _

end Children

theorem settle_withLeft (e : Event) (p : Progress σ) (left : Nat) :
    settle (e, p.withLeft left) = (settle (e, p)).withLeft left := by
  unfold settle conclude
  split <;> rfl

/-- A visit with more dispatches left than it takes is the visit as it was. -/
theorem trace_running {limit : Nat} {t : Traced σ} (ht : trace h limit fs n p = some t)
    (hleft : 0 < left) :
    trace h.metered limit fs n (p.withLeft (dispatches h t.1.events + left)) =
      some (t.1, t.2.withLeft left) := by
  induction limit generalizing fs n p t left with
  | zero => cases ht
  | succ limit ih =>
    cases visits_of_trace ht with
    | ended henter hverdict =>
      rw [← settle_withLeft]
      exact trace_of_visits (.ended (observe_running henter hleft) hverdict)
    | skipped henter hverdict hskip hexit =>
      rw [← settle_withLeft, History.events, dispatches_cons, Nat.add_assoc]
      exact trace_of_visits (.skipped (observe_running henter (by omega)) hverdict hskip
        (observe_running hexit hleft))
    | stopped henter hverdict hskip hbelow hstopped =>
      have hbelow' := traceChildren_running (fun f n p t left ht hleft => ih ht hleft) hbelow hleft
      rw [History.events, dispatches_cons, Nat.add_assoc]
      exact trace_of_visits (.stopped (observe_running henter (by omega)) hverdict hskip hbelow'
        hstopped)
    | full henter hverdict hskip hbelow hstopped hexit =>
      have hbelow' := fun left (hleft : 0 < left) =>
        traceChildren_running (fun f n p t left ht hleft => ih ht hleft) hbelow hleft
      rw [← settle_withLeft, History.events, dispatches_cons, dispatches_append, Nat.add_assoc,
        Nat.add_assoc]
      exact trace_of_visits (.full (observe_running henter (by omega)) hverdict hskip
        (hbelow' _ (by omega)) hstopped (observe_running hexit hleft))

/-- The only dispatch that a call can make takes the last one left. -/
theorem eq_one_of_le {e : Event} (hleft : 0 < left) (hle : left ≤ dispatches h [e]) :
    left = 1 ∧ dispatches h [e] = 1 := by
  have := dispatches_singleton_le h e
  omega

/-- Where the dispatch on entering is the last one left the visit ends there. -/
theorem exists_trace_cut_entering (limit : Nat) (later : List Event)
    (henter : observe h .enter fs n p.enter = (e, q)) (hleft : 0 < left)
    (hle : left ≤ dispatches h [e]) :
    ∃ t', trace h.metered (limit + 1) fs n (p.withLeft left) = some t' ∧
      t'.1.flow = .stopped ∧ Cut h left (e :: later) t'.1.events := by
  obtain ⟨rfl, hone⟩ := eq_one_of_le hleft hle
  exact ⟨_, trace_of_visits (.ended (observe_last henter hone) e.verdict?_halted),
    e.flow_halted, .here hone later⟩

/-- A visit that takes the dispatches left is stopped in the last of them. -/
theorem trace_cut {limit : Nat} {t : Traced σ} (ht : trace h limit fs n p = some t)
    (hflow : t.1.flow ≠ .stopped) (hleft : 0 < left) (hle : left ≤ dispatches h t.1.events) :
    ∃ t', trace h.metered limit fs n (p.withLeft left) = some t' ∧ t'.1.flow = .stopped ∧
      Cut h left t.1.events t'.1.events := by
  induction limit generalizing fs n p t left with
  | zero => cases ht
  | succ limit ih =>
    cases visits_of_trace ht with
    | ended henter hverdict => exact exists_trace_cut_entering limit [] henter hleft hle
    | skipped henter hverdict hskip hexit =>
      rename_i e x q q'
      by_cases hfirst : left ≤ dispatches h [e]
      · exact exists_trace_cut_entering limit [x] henter hleft hfirst
      -- one dispatch is left on leaving
      obtain ⟨last, rfl⟩ := Nat.exists_eq_add_of_le (Nat.le_of_not_le hfirst)
      rw [History.events, dispatches_cons h e [x], Nat.add_le_add_iff_left] at hle
      obtain ⟨rfl, hone⟩ := eq_one_of_le (by omega) hle
      exact ⟨_, trace_of_visits (.skipped (observe_running henter Nat.one_pos) hverdict hskip
        (observe_last hexit hone)), x.flow_halted, (Cut.here hone []).append_left [e]⟩
    | stopped henter hverdict hskip hbelow hstopped => exact absurd rfl hflow
    | full henter hverdict hskip hbelow hstopped hexit =>
      rename_i e x q q' r
      by_cases hfirst : left ≤ dispatches h [e]
      · exact exists_trace_cut_entering limit _ henter hleft hfirst
      obtain ⟨rest, rfl⟩ := Nat.exists_eq_add_of_le (Nat.le_of_not_le hfirst)
      rw [History.events, dispatches_cons h e (_ ++ _), dispatches_append,
        Nat.add_le_add_iff_left] at hle
      have henter' := observe_running henter (show 0 < rest by omega)
      -- the last dispatch is among those of the children, or it is the one on leaving
      by_cases hinside : rest ≤ dispatches h (History.eventsList r.1)
      · obtain ⟨r', hbelow', hstopped', hcut⟩ := traceChildren_cut
          (fun f n p t left ht hleft => trace_running ht hleft)
          (fun f n p t left ht hflow hleft hle => ih ht hflow hleft hle) hbelow hstopped
          (show 0 < rest by omega) hinside
        exact ⟨_, trace_of_visits (.stopped henter' hverdict hskip hbelow' hstopped'), rfl,
          (hcut.append_right [x]).append_left [e]⟩
      · obtain ⟨last, rfl⟩ := Nat.exists_eq_add_of_le (Nat.le_of_not_le hinside)
        obtain ⟨rfl, hone⟩ := eq_one_of_le (by omega) (Nat.add_le_add_iff_left.1 hle)
        have hbelow' := traceChildren_running
          (fun f n p t left ht hleft => trace_running ht hleft) hbelow Nat.one_pos
        exact ⟨_, trace_of_visits (.full henter' hverdict hskip hbelow' hstopped
          (observe_last hexit hone)), x.flow_halted,
          ((Cut.here hone []).append_left (History.eventsList r.1)).append_left [e]⟩

/-! ### Stops and the counts -/

theorem stopped_settle {t : Event × Progress σ} (hflow : t.1.verdict?.getD .kept = .stopped) :
    (settle t).stats.stopped = true := by
  rw [settle, conclude, hflow]
  rfl

theorem stopped_traceChildren {v : Frame → Node → Progress σ → Option (Traced σ)} {parent : Node}
    {before ns : List Node} {r : List History × Progress σ}
    (hv : ∀ f n p t, v f n p = some t → t.1.flow = .stopped → t.2.stats.stopped = true)
    (hr : traceChildren v parent before ns p = some r) (hstopped : anyStopped r.1 = true) :
    r.2.stats.stopped = true := by
  induction ns generalizing before p r with
  | nil =>
    cases hr
    cases hstopped
  | cons n ns ih =>
    obtain ⟨t, ht, -⟩ := Option.bind_eq_some_iff.1 hr
    by_cases hflow : t.1.flow = .stopped
    · rw [traceChildren_cons_of_stopped ht hflow] at hr
      cases hr
      exact hv _ _ _ _ ht hflow
    · rw [traceChildren_cons ht hflow] at hr
      obtain ⟨r', hr', rfl⟩ := Option.map_eq_some_iff.1 hr
      rcases Bool.or_eq_true_iff.1 hstopped with hfirst | hrest
      · exact absurd (by simpa using hfirst) hflow
      · have hstop : r'.2.stats.stopped = true := ih hr' hrest
        exact hstop

/-- A visit that stops the walk reports it. -/
theorem stopped_trace {limit : Nat} {t : Traced σ} (ht : trace h limit fs n p = some t)
    (hflow : t.1.flow = .stopped) : t.2.stats.stopped = true := by
  induction limit generalizing fs n p t with
  | zero => cases ht
  | succ limit ih =>
    cases visits_of_trace ht with
    | ended henter hverdict => exact stopped_settle hflow
    | skipped henter hverdict hskip hexit => exact stopped_settle hflow
    | stopped henter hverdict hskip hbelow hstopped =>
      exact stopped_traceChildren (fun f n p t ht hflow => ih ht hflow) hbelow hstopped
    | full henter hverdict hskip hbelow hstopped hexit => exact stopped_settle hflow

/-! ### Trees -/

/-- Each event finds the tree that the edits before it have made. -/
theorem Continuous.before {t t' : Node} {earlier later : List Event}
    (hes : Continuous t (earlier ++ e :: later) t') : Continuous t earlier e.tree := by
  induction earlier generalizing t with
  | nil => exact hes.1
  | cons e' earlier ih =>
    obtain ⟨htree, u, hput, hrest⟩ := hes
    exact ⟨htree, u, hput, ih hrest⟩

/-- The last event makes the last tree. -/
theorem Continuous.last {t t' : Node} {earlier : List Event}
    (hes : Continuous t (earlier ++ [e]) t') : putAt e.remains e.position e.tree = some t' := by
  induction earlier generalizing t with
  | nil =>
    obtain ⟨rfl, u, hput, rfl⟩ := hes
    exact hput
  | cons e' earlier ih =>
    obtain ⟨-, u, -, hrest⟩ := hes
    exact ih hrest

theorem remains_halted (e : Event) : e.halted.remains = some e.left := by
  rw [Event.remains, Event.removes, e.verdict?_halted]
  rfl

/-- The edits of a visit to the root make the tree that it leaves. -/
theorem Faithful.continuous_root {root : Node} {t : Traced σ} (ht : Faithful h [] root p t) :
    Continuous root t.1.events t.1.left := by
  obtain ⟨u, hu, hcontinuous⟩ := ht.continuous
  cases hremains : t.1.remains with
  | none =>
    rw [hremains] at hu
    cases hu
  | some m =>
    rw [hremains] at hu
    cases hu
    have hm : m = t.1.left := by
      rw [History.remains] at hremains
      split at hremains
      · cases hremains
      · exact (Option.some.inj hremains).symm
    rwa [hm] at hcontinuous

/-! ### Walks -/

/-- Where handlers are called: the phase, the node, its position, slot and ancestors. -/
structure Site where
  phase : Phase
  node : Node
  position : List Slot
  slot : Slot
  ancestors : List NodeType
  deriving DecidableEq, Repr

def Event.site (e : Event) : Site := ⟨e.phase, e.node, e.position, e.slot, e.ancestors⟩

/-- Where the handlers are called, dispatch by dispatch. -/
def sites (h : Handlers σ) (es : List Event) : List Site :=
  (es.filter (Event.isDispatch h)).map Event.site

theorem Cut.sites_eq {k : Nat} {es es' : List Event} (hcut : Cut h k es es') :
    sites h es' = (sites h es).take k := by
  obtain ⟨earlier, e, later, rfl, rfl, he, rfl⟩ := hcut
  have hlength : ((earlier.filter (Event.isDispatch h)).map Event.site).length =
      dispatches h earlier := by
    rw [List.length_map, dispatches, List.countP_eq_length_filter]
  have he' : e.halted.isDispatch h = true := he
  simp only [sites, List.filter_append, List.filter_cons, he, he', if_true, List.filter_nil,
    List.map_append, List.map_cons, List.map_nil]
  rw [List.take_append, hlength, List.take_of_length_le (by omega)]
  simp [Event.site, Event.halted]

/-- A walk that is stopped in the `k`-th dispatch, beside the walk that is not. -/
structure StoppedIn (h : Handlers σ) (k : Nat) (root : Node) (v v' : History)
    (o' : Outcome (σ × Nat)) : Prop where
  /-- The calls are the same up to the dispatch and end with it. The tree is the one that the edits
  before have made, with the node that the handlers leave in the place of that dispatch: a
  removal that they ask for is neither made nor counted. -/
  cut : ∃ earlier e later, v.events = earlier ++ e :: later ∧ v'.events = earlier ++ [e.halted] ∧
    e.isDispatch h = true ∧ dispatches h earlier + 1 = k ∧ Continuous root earlier e.tree ∧
    putAt (some e.left) e.position e.tree = some o'.tree ∧
    o'.stats.mutations = replacements v'.events + removals earlier
  /-- The handlers are called in the first `k` of the places. -/
  sites : sites h v'.events = (sites h v.events).take k
  stopped : o'.stats.stopped = true
  entered : o'.stats.entered = v'.visits.length
  /-- Of a node in which the walk was stopped the children that were not visited stay. -/
  unvisited : ∀ e below, .stopped e below ∈ v'.visits → ∃ unvisited,
    e.left.children = below.map (fun w => w.enter.node) ++ unvisited ∧
      (History.stopped e below).left =
        e.left.withChildren (History.survivors below ++ unvisited)

/-- A visit to the root that is cut. -/
theorem stoppedIn_of_cut {root : Node} {state : σ} {k : Nat} {t : Traced σ}
    {t' : Traced (σ × Nat)} (hfaithful : Faithful h [] root { state } t)
    (hfaithful' : Faithful h.metered [] root { state := (state, k) } t')
    (hflow : t'.1.flow = .stopped) (hstopped : t'.2.stats.stopped = true)
    (hcut : Cut h k t.1.events t'.1.events) :
    StoppedIn h k root t.1 t'.1 ⟨t'.1.left, t'.2.stats, t'.2.state⟩ where
  cut := by
    obtain ⟨earlier, e, later, hes, hes', he, hk⟩ := hcut
    have hcontinuous := hfaithful.continuous_root
    have hcontinuous' := hfaithful'.continuous_root
    have hmutations := hfaithful'.mutations
    rw [hes] at hcontinuous
    rw [hes'] at hcontinuous'
    have hlast := hcontinuous'.last
    rw [remains_halted] at hlast
    refine ⟨earlier, e, later, hes, hes', he, hk, hcontinuous.before, hlast, ?_⟩
    rw [hflow] at hmutations
    have hremovals : removals t'.1.events = removals earlier := by
      rw [hes', removals_append, removals_cons, e.flow_halted]
      rfl
    rw [hremovals] at hmutations
    simpa [Flow.removals] using hmutations
  sites := hcut.sites_eq
  stopped := hstopped
  entered := by simpa using hfaithful'.entered
  unvisited e below hmem := by
    obtain ⟨-, hdescends, -⟩ := hfaithful'.whole _ hmem
    obtain ⟨unvisited, hchildren⟩ := hdescends.children
    refine ⟨unvisited, hchildren.symm, ?_⟩
    rw [History.left, ← hchildren]
    simp

/-- Of a walk that ends and is not stopped, whatever its handlers do: when the last handler called
in the `k`-th dispatch stops the walk as well, the walk is the same up to that dispatch and ends
with it, and the tree is left as it is then. In a pipeline the next pass begins with that tree. -/
theorem run?_metered {limit : Nat} {h : Handlers σ} {root : Node} {state : σ} {o : Outcome σ}
    (hrun : run? limit h root state = some o) (hstopped : o.stats.stopped = false) :
    ∃ v, trace? limit h root state = some (v, o) ∧
      ∀ k, 0 < k → k ≤ dispatches h v.events → ∃ v' o',
        trace? limit h.metered root (state, k) = some (v', o') ∧
        run? limit h.metered root (state, k) = some o' ∧ StoppedIn h k root v v' o' ∧
        ∀ name earlier later n done, Stage.runAll? earlier (n, {}) = some (root, done) →
          Stage.runAll? (earlier ++ ⟨⟨name, h.metered⟩, (state, k), fun _ => limit⟩ :: later)
              (n, {}) =
            Stage.runAll? later (o'.tree, done.add o'.stats) := by
  rw [← map_snd_trace?] at hrun
  obtain ⟨⟨v, o⟩, htrace, rfl⟩ := Option.map_eq_some_iff.1 hrun
  obtain ⟨t, ht, hout⟩ := Option.map_eq_some_iff.1 htrace
  cases hout
  have hflow : t.1.flow ≠ .stopped := by
    intro hflow
    rw [stopped_trace ht hflow] at hstopped
    cases hstopped
  refine ⟨t.1, htrace, fun k hk hle => ?_⟩
  obtain ⟨t', ht', hflow', hcut⟩ := trace_cut ht hflow hk hle
  have htrace' : trace? limit h.metered root (state, k) =
      some (t'.1, ⟨t'.1.left, t'.2.stats, t'.2.state⟩) := by
    rw [trace?]
    exact congrArg _ ht'
  have hrun' : run? limit h.metered root (state, k) =
      some ⟨t'.1.left, t'.2.stats, t'.2.state⟩ := by
    rw [← map_snd_trace?, htrace', Option.map_some]
  refine ⟨t'.1, _, htrace', hrun', ?_, ?_⟩
  · exact stoppedIn_of_cut (faithful_trace h limit (List.forall_mem_nil _) ht)
      (faithful_trace h.metered limit (List.forall_mem_nil _) ht') hflow' (stopped_trace ht' hflow')
      hcut
  · intro name earlier later n done hdone
    have hstage : Stage.run? ⟨⟨name, h.metered⟩, (state, k), fun _ => limit⟩ (root, done) =
        some (t'.1.left, done.add t'.2.stats) := by
      simp only [Stage.run?, hrun', Option.map_some]
    rw [Stage.runAll?_append, hdone, Option.bind_some, Stage.runAll?, hstage, Option.bind_some]

/-- Takes every `b` out on entering it. -/
def removingB : Handlers Unit := ({} : Handlers Unit).on (some .char) .enter fun p s =>
  (if p.node = .char (.simple 'b') then p.remove else p.keep, s)

/-- A walk over `abc` that is stopped when it enters `b` does not take it out; the next pass
does. -/
theorem run?_metered_removal :
    ∃ v v' o', StoppedIn removingB 2
        (.alternative [.char (.simple 'a'), .char (.simple 'b'), .char (.simple 'c')]) v v' o' ∧
      o'.tree = .alternative [.char (.simple 'a'), .char (.simple 'b'), .char (.simple 'c')] ∧
      o'.stats = ⟨3, 0, true⟩ ∧
      Stage.runAll? [⟨⟨"stopped", removingB.metered⟩, ((), 2), fun _ => 2⟩,
          ⟨⟨"next", removingB⟩, (), fun _ => 2⟩]
          (.alternative [.char (.simple 'a'), .char (.simple 'b'), .char (.simple 'c')], {}) =
        some (.alternative [.char (.simple 'a'), .char (.simple 'c')], ⟨2, 1, 1⟩) := by
  have hrun : run? 2 removingB
      (.alternative [.char (.simple 'a'), .char (.simple 'b'), .char (.simple 'c')]) () =
      some ⟨.alternative [.char (.simple 'a'), .char (.simple 'c')], ⟨4, 1, false⟩, ()⟩ := by
    rfl
  have hstopped : run? 2 removingB.metered
      (.alternative [.char (.simple 'a'), .char (.simple 'b'), .char (.simple 'c')]) ((), 2) =
      some ⟨.alternative [.char (.simple 'a'), .char (.simple 'b'), .char (.simple 'c')],
        ⟨3, 0, true⟩, ((), 0)⟩ := by
    rfl
  obtain ⟨v, htrace, hcuts⟩ := run?_metered hrun rfl
  have hdispatches : (trace? 2 removingB
      (.alternative [.char (.simple 'a'), .char (.simple 'b'), .char (.simple 'c')]) ()).map
        (fun t => dispatches removingB t.1.events) = some 3 := by
    rfl
  rw [htrace] at hdispatches
  have hthree : dispatches removingB v.events = 3 := Option.some.inj hdispatches
  obtain ⟨v', o', -, hrun', hin, hpasses⟩ := hcuts 2 (by decide) (by rw [hthree]; decide)
  rw [hstopped] at hrun'
  cases hrun'
  refine ⟨v, v', _, hin, rfl, rfl, ?_⟩
  exact (hpasses "stopped" [] [⟨⟨"next", removingB⟩, (), fun _ => 2⟩] _ {} rfl).trans rfl

end Walk

end RegexKit
