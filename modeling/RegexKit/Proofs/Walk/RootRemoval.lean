import RegexKit.Proofs.Walk.Simulation

/-! Requests to remove the root. The walk ignores them, but between the handler for any kind and
the one for the kind of the root they count: after a request by the first the second is not
called. Two walks whose handlers differ in such requests alone are the same, call by call, exactly
when no call of a handler is lost to one. -/

namespace RegexKit

variable {σ : Type}

/-! ### Noted calls -/

/-- A call of one handler: the kind that it is for, if it is for one, and what it is given. -/
structure Called (σ : Type) where
  kind : Option NodeType
  phase : Phase
  path : Path
  state : σ

namespace Handlers

/-- The handlers, with a note of each of their calls. -/
def noted (h : Handlers σ) : Handlers (σ × List (Called σ)) :=
  h.map fun kind phase f p s => ((f p s.1).1, (f p s.1).2, s.2 ++ [⟨kind, phase, p, s.1⟩])

/-- The calls that are made on a node that was of kind `k`. -/
def calls (h : Handlers σ) (k : NodeType) (phase : Phase) (p : Path) (s : σ) : List (Called σ) :=
  let r := callOne (h.any.handler? phase) p s
  (h.any.handler? phase).toList.map (fun _ => ⟨none, phase, p, s⟩) ++
    if endsCall k r.1 then []
    else ((h.typed k).handler? phase).toList.map fun _ => ⟨some k, phase, r.1, r.2⟩

theorem callOne_noted (f : Option (Handler σ)) (kind : Option NodeType) (phase : Phase)
    (p : Path) (s : σ) (cs : List (Called σ)) :
    callOne (f.map fun f p s => ((f p s.1).1, (f p s.1).2, s.2 ++ [⟨kind, phase, p, s.1⟩])) p
        (s, cs) =
      ((callOne f p s).1, (callOne f p s).2,
        cs ++ f.toList.map fun _ => (⟨kind, phase, p, s⟩ : Called σ)) := by
  cases f with
  | none => simp [callOne]
  | some f => rfl

/-- The notes are those of the calls, and change nothing else. -/
theorem call_noted (h : Handlers σ) (k : NodeType) (phase : Phase) (p : Path) (s : σ)
    (cs : List (Called σ)) :
    h.noted.call k phase p (s, cs) =
      ((h.call k phase p s).1, (h.call k phase p s).2, cs ++ h.calls k phase p s) := by
  rw [call_eq, call_eq, calls]
  simp only [noted, any_map, typed_map, Visitor.handler?_map, callOne_noted]
  split <;> simp

theorem slot_callOne (f : Option (Handler σ)) (p : Path) (s : σ) :
    (callOne f p s).1.slot = p.slot := by
  cases f <;> rfl

/-- Calls are made in the phase and in the slot of the node. -/
theorem mem_calls {h : Handlers σ} {k : NodeType} {phase : Phase} {p : Path} {s : σ}
    {c : Called σ} (hc : c ∈ h.calls k phase p s) : c.phase = phase ∧ c.path.slot = p.slot := by
  rcases List.mem_append.1 hc with hc | hc
  · obtain ⟨_, -, rfl⟩ := List.mem_map.1 hc
    exact ⟨rfl, rfl⟩
  · split at hc
    · cases hc
    · obtain ⟨_, -, rfl⟩ := List.mem_map.1 hc
      exact ⟨rfl, slot_callOne _ _ _⟩

/-- The handler for kind `k` is called after the one for any kind. -/
def Followed (h : Handlers σ) (k : NodeType) (phase : Phase) (p : Path) (s : σ) : Prop :=
  endsCall k (callOne (h.any.handler? phase) p s).1 = false ∧
    ((h.typed k).handler? phase).isSome = true

section Follow

variable {h : Handlers σ} {k : NodeType} {phase : Phase} {p : Path} {s : σ}

/-- No handler follows a request for the removal. -/
theorem not_followed_of_removed
    (hremoved : (callOne (h.any.handler? phase) p s).1.signals.removed = true) :
    ¬ h.Followed k phase p s := by
  intro hfollowed
  have hends := hfollowed.1
  rw [endsCall, hremoved] at hends
  cases hends

theorem calls_of_followed (hany : (h.any.handler? phase).isSome = true)
    (hf : h.Followed k phase p s) :
    h.calls k phase p s = [⟨none, phase, p, s⟩, ⟨some k, phase,
      (callOne (h.any.handler? phase) p s).1, (callOne (h.any.handler? phase) p s).2⟩] := by
  obtain ⟨f, hf'⟩ := Option.isSome_iff_exists.1 hany
  obtain ⟨g, hg⟩ := Option.isSome_iff_exists.1 hf.2
  rw [calls, hf.1, hg, hf']
  rfl

theorem calls_of_not_followed (hany : (h.any.handler? phase).isSome = true)
    (hf : ¬ h.Followed k phase p s) : h.calls k phase p s = [⟨none, phase, p, s⟩] := by
  obtain ⟨f, hf'⟩ := Option.isSome_iff_exists.1 hany
  rw [calls]
  split
  · rw [hf']
    rfl
  · rename_i hends
    have hnone : (h.typed k).handler? phase = none := by
      simpa [Followed, hends] using hf
    rw [hf', hnone]
    rfl

theorem call_of_not_followed (hf : ¬ h.Followed k phase p s) :
    h.call k phase p s = callOne (h.any.handler? phase) p s := by
  rw [call_eq]
  dsimp only
  split
  · rfl
  · rename_i hends
    have hnone : (h.typed k).handler? phase = none := by
      simpa [Followed, hends] using hf
    rw [hnone]
    rfl

end Follow

end Handlers

/-! ### Requests to remove the root -/

/-- The answer with a request to remove the node. -/
def Reply.removing (r : Reply) : Reply := { r with signals := { r.signals with removed := true } }

/-- The path with a request to remove the node. -/
def Path.removing (p : Path) : Path := { p with signals := { p.signals with removed := true } }

theorem Path.apply_removing (p : Path) (r : Reply) : p.apply r.removing = (p.apply r).removing := by
  simp [apply, Reply.removing, removing, Signals.or]

/-- The second handler answers as the first does, but on the root it may ask for the removal of
the node as well. -/
def AlsoRemovesRoot (f g : Handler σ) : Prop :=
  ∀ p s, g p s = f p s ∨ p.slot = .root ∧ g p s = ((f p s).1.removing, (f p s).2)

/-- The second handlers differ from the first in requests to remove the root alone. -/
structure RemovesRoot (h h' : Handlers σ) : Prop where
  any : ∀ phase, Option.Rel AlsoRemovesRoot (h.any.handler? phase) (h'.any.handler? phase)
  typed : ∀ k phase, Option.Rel AlsoRemovesRoot ((h.typed k).handler? phase)
    ((h'.typed k).handler? phase)

open Handlers (callOne endsCall calls)

/-- A call of a handler for any kind that one for the kind of the node follows; but the second
handlers ask here for the removal of the node, and then that one is not called. -/
structure Silenced (h h' : Handlers σ) (c : Called σ) : Prop where
  kind : c.kind = none
  followed : h.Followed c.path.node.type c.phase c.path c.state
  removed : (callOne (h'.any.handler? c.phase) c.path c.state).1.signals.removed = true

/-- The calls on a node agree but for a request to remove the root, and none is silenced. -/
structure AgreeOn (h h' : Handlers σ) (phase : Phase) (p : Path) (s : σ) : Prop where
  calls : h'.calls p.node.type phase p s = h.calls p.node.type phase p s
  call : h'.call p.node.type phase p s = h.call p.node.type phase p s ∨
    p.slot = .root ∧ h'.call p.node.type phase p s =
      ((h.call p.node.type phase p s).1.removing, (h.call p.node.type phase p s).2)
  heard : ∀ c ∈ h.calls p.node.type phase p s, ¬ Silenced h h' c

/-- On the root the calls part, after one that is silenced. -/
structure PartOn (h h' : Handlers σ) (phase : Phase) (p : Path) (s : σ) : Prop where
  slot : p.slot = .root
  calls : h'.calls p.node.type phase p s ≠ h.calls p.node.type phase p s
  silenced : ∃ c, Silenced h h' c ∧ c ∈ h.calls p.node.type phase p s ∧
    c ∈ h'.calls p.node.type phase p s

variable {h h' : Handlers σ} {f g : Option (Handler σ)}

theorem callOne_of_rel (hfg : Option.Rel AlsoRemovesRoot f g) (p : Path) (s : σ) :
    callOne g p s = callOne f p s ∨
      f.isSome = true ∧ p.slot = .root ∧
        callOne g p s = ((callOne f p s).1.removing, (callOne f p s).2) := by
  cases hfg with
  | none => exact .inl rfl
  | some hfg =>
    simp only [callOne]
    rcases hfg p s with heq | ⟨hslot, heq⟩
    · exact .inl (by rw [heq])
    · exact .inr ⟨rfl, hslot, by rw [heq, Path.apply_removing]⟩

theorem isSome_of_rel (hfg : Option.Rel AlsoRemovesRoot f g) : g.isSome = f.isSome := by
  cases hfg <;> rfl

theorem map_toList_of_rel {α : Type} (hfg : Option.Rel AlsoRemovesRoot f g) (a : α) :
    g.toList.map (fun _ => a) = f.toList.map fun _ => a := by
  cases hfg <;> rfl

theorem AlsoRemovesRoot.refl (f : Handler σ) : AlsoRemovesRoot f f := fun _ _ => .inl rfl

/-- A handler that keeps every node may as well ask for the removal of the root. -/
theorem AlsoRemovesRoot.keep : AlsoRemovesRoot (fun p (s : σ) => (p.keep, s))
    fun p s => (if p.slot = .root then p.remove else p.keep, s) := by
  intro p s
  by_cases hslot : p.slot = .root
  · exact .inr ⟨hslot, by simp [hslot, Path.remove, Path.keep, Reply.removing]⟩
  · exact .inl (by simp [hslot])

theorem RemovesRoot.refl (h : Handlers σ) : RemovesRoot h h := by
  have hrel : ∀ f : Option (Handler σ), Option.Rel AlsoRemovesRoot f f := by
    intro f
    cases f with
    | none => exact .none
    | some f => exact .some (.refl f)
  exact ⟨fun _ => hrel _, fun _ _ => hrel _⟩

/-- Handlers that are registered alike. -/
theorem RemovesRoot.on (hh : RemovesRoot h h') (type : Option NodeType) (phase : Phase)
    {f g : Handler σ} (hfg : AlsoRemovesRoot f g) :
    RemovesRoot (h.on type phase f) (h'.on type phase g) := by
  have hset : ∀ (v v' : Visitor σ), (∀ phase, Option.Rel AlsoRemovesRoot (v.handler? phase)
      (v'.handler? phase)) → ∀ phase', Option.Rel AlsoRemovesRoot
        ((v.set phase f).handler? phase') ((v'.set phase g).handler? phase') := by
    intro v v' hv phase'
    cases phase <;> cases phase'
    · exact .some hfg
    · exact hv .exit
    · exact hv .enter
    · exact .some hfg
  cases type with
  | none => exact ⟨hset _ _ hh.any, hh.typed⟩
  | some k =>
    refine ⟨hh.any, fun k' => ?_⟩
    simp only [Handlers.on]
    split
    · exact hset _ _ (hh.typed k)
    · exact hh.typed k'

/-- The handlers for any kind alone can silence others. -/
theorem not_silenced_of_any_eq (hany : h'.any = h.any) (c : Called σ) : ¬ Silenced h h' c :=
  fun hsilenced => Handlers.not_followed_of_removed (hany ▸ hsilenced.removed) hsilenced.followed

/-- Where the handlers for any kind do the same the calls agree. -/
theorem RemovesRoot.agree_of_callOne (hh : RemovesRoot h h') {phase : Phase} {p : Path} {s : σ}
    (heq : callOne (h'.any.handler? phase) p s = callOne (h.any.handler? phase) p s) :
    AgreeOn h h' phase p s where
  calls := by
    rw [calls, calls, heq, map_toList_of_rel (hh.any phase), map_toList_of_rel (hh.typed _ phase)]
  call := by
    rw [Handlers.call_eq, Handlers.call_eq, heq]
    dsimp only
    split
    · exact .inl rfl
    · rcases callOne_of_rel (hh.typed p.node.type phase) _ _ with heq | ⟨-, hslot, heq⟩
      · exact .inl heq
      · rw [Handlers.slot_callOne] at hslot
        exact .inr ⟨hslot, heq⟩
  heard c hc hsilenced := by
    rcases List.mem_append.1 hc with hc | hc
    · obtain ⟨_, -, rfl⟩ := List.mem_map.1 hc
      exact Handlers.not_followed_of_removed (heq ▸ hsilenced.removed) hsilenced.followed
    · split at hc
      · cases hc
      · obtain ⟨_, -, rfl⟩ := List.mem_map.1 hc
        cases hsilenced.kind

/-- On any node the calls agree or part. -/
theorem RemovesRoot.agree_or_part (hh : RemovesRoot h h') (phase : Phase) (p : Path) (s : σ) :
    AgreeOn h h' phase p s ∨ PartOn h h' phase p s := by
  rcases callOne_of_rel (hh.any phase) p s with heq | ⟨hany, hslot, heq⟩
  · exact .inl (hh.agree_of_callOne heq)
  have hany' : (h'.any.handler? phase).isSome = true := (isSome_of_rel (hh.any phase)).trans hany
  have hremoved : (callOne (h'.any.handler? phase) p s).1.signals.removed = true := by
    rw [heq]
    rfl
  have hlost : ¬ h'.Followed p.node.type phase p s := Handlers.not_followed_of_removed hremoved
  have hcalls' := Handlers.calls_of_not_followed hany' hlost
  by_cases hfollowed : h.Followed p.node.type phase p s
  · have hcalls := Handlers.calls_of_followed hany hfollowed
    exact .inr ⟨hslot, by simp [hcalls, hcalls'], ⟨none, phase, p, s⟩, ⟨rfl, hfollowed, hremoved⟩,
      by simp [hcalls], by simp [hcalls']⟩
  · have hcalls := Handlers.calls_of_not_followed hany hfollowed
    have hcall : h'.call p.node.type phase p s =
        ((h.call p.node.type phase p s).1.removing, (h.call p.node.type phase p s).2) := by
      rw [Handlers.call_of_not_followed hlost, Handlers.call_of_not_followed hfollowed, heq]
    refine .inl ⟨hcalls'.trans hcalls.symm, .inr ⟨hslot, hcall⟩, ?_⟩
    intro c hc hsilenced
    rw [hcalls, List.mem_singleton] at hc
    subst hc
    exact hfollowed hsilenced.followed

namespace Walk

/-! ### Walks with notes -/

/-- A state with the notes of the calls so far. -/
abbrev Noted (σ : Type) := σ × List (Called σ)

/-- Without the notes the walk is the walk of the handlers as they were. -/
theorem run?_noted (h : Handlers σ) (limit : Nat) (root : Node) (s : σ) (cs : List (Called σ)) :
    (run? limit h.noted root (s, cs)).map (fun o => (⟨o.tree, o.stats, o.state.1⟩ : Outcome σ)) =
      run? limit h root s := by
  have hs : Simulates (fun (s : Noted σ) (t : σ) => s.1 = t) (fun _ _ => True) h.noted h := by
    rintro phase ancestors slot n ⟨s, cs⟩ _ - rfl
    rw [Handlers.call_noted]
    exact ⟨rfl, rfl⟩
  refine map_eq_of_rel (hs.run? limit root (show (s, cs).1 = s from rfl)) ?_
  rintro o ⟨tree, stats, state⟩ ⟨rfl, rfl, rfl⟩
  rfl

/-- In the notes no call is silenced. -/
def Heard (h h' : Handlers σ) (cs : List (Called σ)) : Prop := ∀ c ∈ cs, ¬ Silenced h h' c

variable {p : Progress (Noted σ)}

/-- A dispatch adds the notes of its calls. -/
theorem dispatch_noted (h : Handlers σ) (phase : Phase) (ancestors : List NodeType) (slot : Slot)
    (n : Node) (p : Progress (Noted σ)) :
    dispatch h.noted phase ancestors slot n p =
      let path : Path := { node := n, slot, ancestors }
      let r := h.call n.type phase path p.state.1
      let q := { p with state := (r.2, p.state.2 ++ h.calls n.type phase path p.state.1) }
      (r.1.node, r.1.signals, if r.1.signals.replaced then q.mutate else q) := by
  rw [dispatch_eq_call]
  dsimp only
  rw [← Prod.eta p.state, Handlers.call_noted]

theorem notes_dispatch (h : Handlers σ) (phase : Phase) (ancestors : List NodeType) (slot : Slot)
    (n : Node) (p : Progress (Noted σ)) :
    (dispatch h.noted phase ancestors slot n p).2.2.state.2 =
      p.state.2 ++ h.calls n.type phase { node := n, slot, ancestors } p.state.1 := by
  rw [dispatch_noted]
  dsimp only
  split <;> rfl

/-- Below the root the handlers answer alike, and none is silenced. -/
theorem simulates_of_removesRoot (hh : RemovesRoot h h') :
    Simulates (fun s t : Noted σ => s = t ∧ Heard h h' s.2) (fun _ slot => slot ≠ .root) h.noted
      h'.noted := by
  rintro phase ancestors slot n ⟨s, cs⟩ _ hslot ⟨rfl, hheard⟩
  rw [Handlers.call_noted, Handlers.call_noted]
  rcases hh.agree_or_part phase { node := n, slot, ancestors } s with hagree | hpart
  · rcases hagree.call with hcall | ⟨hroot, -⟩
    · dsimp only at hcall
      refine ⟨by rw [hcall], ?_, List.forall_mem_append.2 ⟨hheard, hagree.heard⟩⟩
      rw [hagree.calls, hcall]
    · exact absurd hroot hslot
  · exact absurd hpart.slot hslot

/-! ### Dispatches on the root -/

/-- The dispatch with a request to remove the node. -/
def Dispatched.removing (d : Dispatched σ) : Dispatched σ :=
  (d.1, { d.2.1 with removed := true }, d.2.2)

theorem verdict?_removing (d : Dispatched σ) :
    verdict? .root d.removing.2.1 = verdict? .root d.2.1 := by
  simp [Dispatched.removing, verdict?]

/-- On leaving the root the walk passes over the request. -/
theorem depart_removing (d : Dispatched σ) :
    Dispatched.depart .root d.removing = Dispatched.depart .root d := by
  unfold Dispatched.depart
  rw [verdict?_removing]
  rfl

/-- On entering the root the walk passes over the request. -/
theorem resume_removing (h : Handlers σ) (limit : Nat) (ancestors : List NodeType)
    (d : Dispatched σ) :
    resume h limit ancestors .root d.removing = resume h limit ancestors .root d := by
  unfold resume
  rw [verdict?_removing]
  rfl

theorem dispatch_of_agree {phase : Phase} {ancestors : List NodeType} {slot : Slot} {n : Node}
    (hagree : AgreeOn h h' phase { node := n, slot, ancestors } p.state.1) :
    dispatch h'.noted phase ancestors slot n p = dispatch h.noted phase ancestors slot n p ∨
      dispatch h'.noted phase ancestors slot n p =
        Dispatched.removing (dispatch h.noted phase ancestors slot n p) := by
  have hcalls := hagree.calls
  dsimp only at hcalls
  rw [dispatch_noted, dispatch_noted]
  dsimp only
  rw [hcalls]
  rcases hagree.call with hcall | ⟨-, hcall⟩
  · dsimp only at hcall
    exact .inl (by rw [hcall])
  · dsimp only at hcall
    exact .inr (by rw [hcall]; rfl)

/-- Two visits are the same and no call is silenced, or their notes differ and both have one of a
call that is. -/
inductive Parted (h h' : Handlers σ) (v w : Visit (Noted σ)) : Prop
  | same (eq : w = v) (heard : Heard h h' v.progress.state.2)
  | apart (ne : w.progress.state.2 ≠ v.progress.state.2)
      (silenced : ∃ c, Silenced h h' c ∧ c ∈ v.progress.state.2 ∧ c ∈ w.progress.state.2)

theorem state_conclude (n : Node) (flow : Flow) (p : Progress σ) :
    (conclude n flow p).progress.state = p.state := by
  unfold conclude
  split <;> rfl

/-- The root is left in the same way, or the notes part. -/
theorem parted_leave (hh : RemovesRoot h h') (ancestors : List NodeType) (n : Node)
    (hheard : Heard h h' p.state.2) :
    Parted h h' (leave h.noted ancestors .root n p) (leave h'.noted ancestors .root n p) := by
  rw [leave_eq_depart, leave_eq_depart]
  rcases hh.agree_or_part .exit { node := n, slot := .root, ancestors } p.state.1 with
    hagree | hpart
  · have hdepart : Dispatched.depart .root (dispatch h'.noted .exit ancestors .root n p) =
        Dispatched.depart .root (dispatch h.noted .exit ancestors .root n p) := by
      rcases dispatch_of_agree hagree with heq | heq
      · rw [heq]
      · rw [heq, depart_removing]
    refine .same hdepart ?_
    rw [Dispatched.depart, state_conclude, notes_dispatch]
    exact List.forall_mem_append.2 ⟨hheard, hagree.heard⟩
  · obtain ⟨c, hsilenced, hc, hc'⟩ := hpart.silenced
    refine .apart ?_ ⟨c, hsilenced, ?_⟩
    · simp only [Dispatched.depart, state_conclude, notes_dispatch]
      exact fun heq => hpart.calls (List.append_cancel_left heq)
    · simp only [Dispatched.depart, state_conclude, notes_dispatch]
      exact ⟨List.mem_append_right _ hc, List.mem_append_right _ hc'⟩

/-- After the root was entered in the same way the visit goes on in the same way, until the notes
part on leaving it. -/
theorem parted_resume (hh : RemovesRoot h h') (limit : Nat) (ancestors : List NodeType)
    {d : Dispatched (Noted σ)} (hheard : Heard h h' d.2.2.state.2) :
    Option.Rel (Parted h h') (resume h.noted limit ancestors .root d)
      (resume h'.noted limit ancestors .root d) := by
  have hs := simulates_of_removesRoot hh
  unfold resume
  cases verdict? .root d.2.1 with
  | some flow =>
    refine .some (.same rfl ?_)
    rw [state_conclude]
    exact hheard
  | none =>
    dsimp only
    split
    · exact .some (parted_leave hh ancestors _ hheard)
    · refine rel_map (related_visitChildren
        (fun slot hslot n _ _ hp => hs.visit (fun _ _ hslot => hslot) limit _ hslot n hp)
        d.1 ⟨⟨rfl, hheard⟩, rfl⟩) fun c c' hc => ?_
      obtain ⟨value, stopped, ⟨state, stats⟩⟩ := c
      obtain ⟨_, _, ⟨_, _⟩⟩ := c'
      obtain ⟨rfl, rfl, ⟨⟨rfl, hheard⟩, rfl⟩⟩ := hc
      dsimp only
      split
      · exact .same rfl hheard
      · exact parted_leave hh ancestors value hheard

/-- The notes of the calls on entering the root. -/
def rootEntries (cs : List (Called σ)) : List (Called σ) :=
  cs.filter fun c => c.phase == .enter && c.path.slot == .root

theorem rootEntries_calls (h : Handlers σ) (ancestors : List NodeType) (n : Node) (s : σ) :
    rootEntries (h.calls n.type .enter { node := n, slot := .root, ancestors } s) =
      h.calls n.type .enter { node := n, slot := .root, ancestors } s := by
  refine List.filter_eq_self.2 fun c hc => ?_
  obtain ⟨hphase, hslot⟩ := Handlers.mem_calls hc
  simp [hphase, hslot]

/-- The notes on entering the root stay as they are after it was entered. -/
theorem simulates_rootEntries (h : Handlers σ) (es : List (Called σ)) :
    Simulates (fun s t : Noted σ => s = t ∧ rootEntries s.2 = es)
      (fun phase slot => ¬ (phase = .enter ∧ slot = .root)) h.noted h.noted := by
  rintro phase ancestors slot n ⟨s, cs⟩ _ hslot ⟨rfl, hes⟩
  refine ⟨rfl, rfl, ?_⟩
  have hnone : rootEntries (h.calls n.type phase { node := n, slot, ancestors } s) = [] := by
    refine List.filter_eq_nil_iff.2 fun c hc => ?_
    obtain ⟨hphase, hslot'⟩ := Handlers.mem_calls hc
    simpa [hphase, hslot'] using hslot
  rw [Handlers.call_noted]
  dsimp only at hes ⊢
  rw [rootEntries] at hes hnone ⊢
  rw [List.filter_append, hes, hnone, List.append_nil]

/-- The notes on entering the root at the end of a visit are those of the first dispatch. -/
theorem rootEntries_visit {limit : Nat} {ancestors : List NodeType} {n : Node}
    {v : Visit (Noted σ)} (hp : p.state.2 = [])
    (hv : visit h.noted (limit + 1) ancestors .root n p = some v) :
    rootEntries v.progress.state.2 =
      h.calls n.type .enter { node := n, slot := .root, ancestors } p.state.1 := by
  rw [visit_succ] at hv
  have hentered : rootEntries
      (dispatch h.noted .enter ancestors .root n p.enter).2.2.state.2 =
      h.calls n.type .enter { node := n, slot := .root, ancestors } p.state.1 := by
    rw [notes_dispatch]
    change rootEntries (p.state.2 ++ _) = _
    rw [hp, List.nil_append]
    exact rootEntries_calls h ancestors n p.state.1
  have hexit : ¬ (Phase.exit = .enter ∧ Slot.root = .root) := by simp
  have hrel := (simulates_rootEntries h _).resume (fun _ _ hslot hroot => hslot hroot.2) limit
    ancestors hexit ⟨rfl, rfl, ⟨rfl, hentered⟩, rfl⟩
  rw [hv] at hrel
  cases hrel with
  | some hrel => exact hrel.progress.state.2

/-- Two visits to the root go together until the notes part; or the notes part on entering it, and
then those of the one visit and of the other stay what they were. -/
theorem visit_root (hh : RemovesRoot h h') (limit : Nat) (ancestors : List NodeType) (n : Node)
    (hp : p.state.2 = []) :
    Option.Rel (Parted h h') (visit h.noted limit ancestors .root n p)
        (visit h'.noted limit ancestors .root n p) ∨
      ∃ es es', es' ≠ es ∧ (∃ c, Silenced h h' c ∧ c ∈ es ∧ c ∈ es') ∧
        (∀ v, visit h.noted limit ancestors .root n p = some v →
          rootEntries v.progress.state.2 = es) ∧
        ∀ w, visit h'.noted limit ancestors .root n p = some w →
          rootEntries w.progress.state.2 = es' := by
  cases limit with
  | zero => exact .inl .none
  | succ limit =>
    rcases hh.agree_or_part .enter { node := n, slot := .root, ancestors } p.state.1 with
      hagree | hpart
    · refine .inl ?_
      have hheard : Heard h h' (dispatch h.noted .enter ancestors .root n p.enter).2.2.state.2 := by
        rw [notes_dispatch]
        change Heard h h' (p.state.2 ++ _)
        rw [hp, List.nil_append]
        exact hagree.heard
      have hresume : visit h'.noted (limit + 1) ancestors .root n p = resume h'.noted limit
          ancestors .root (dispatch h.noted .enter ancestors .root n p.enter) := by
        rw [visit_succ]
        rcases dispatch_of_agree (p := p.enter) hagree with heq | heq
        · rw [heq]
        · rw [heq, resume_removing]
      rw [hresume, visit_succ]
      exact parted_resume hh limit ancestors hheard
    · exact .inr ⟨_, _, hpart.calls, hpart.silenced, fun v hv => rootEntries_visit hp hv,
        fun w hw => rootEntries_visit hp hw⟩

/-! ### Walks -/

/-- What a walk leaves after the visit to the root. -/
def Visit.outcome (v : Visit σ) : Outcome σ := ⟨v.node, v.progress.stats, v.progress.state⟩

section Outcomes

variable {x y : Option (Visit (Noted σ))} {o : Outcome (Noted σ)}

theorem eq_iff_of_parted (hrel : Option.Rel (Parted h h') x y)
    (ho : x.map Visit.outcome = some o ∨ y.map Visit.outcome = some o) :
    y.map Visit.outcome = x.map Visit.outcome ↔ Heard h h' o.state.2 := by
  cases hrel with
  | none => rcases ho with ho | ho <;> cases ho
  | some hparted =>
    cases hparted with
    | same heq hheard =>
      subst heq
      rcases ho with ho | ho <;> cases ho <;> exact iff_of_true rfl hheard
    | apart hne hsilenced =>
      obtain ⟨c, hsilenced, hc, hc'⟩ := hsilenced
      refine iff_of_false (fun heq => hne ?_) ?_
      · exact congrArg (fun o => o.state.2) (Option.some.inj heq)
      · rcases ho with ho | ho <;> cases ho
        · exact fun hheard => hheard c hc hsilenced
        · exact fun hheard => hheard c hc' hsilenced

theorem eq_iff_of_rootEntries {es es' : List (Called σ)} {c : Called σ} (hne : es' ≠ es)
    (hsilenced : Silenced h h' c) (hc : c ∈ es) (hc' : c ∈ es')
    (hx : ∀ v, x = some v → rootEntries v.progress.state.2 = es)
    (hy : ∀ v, y = some v → rootEntries v.progress.state.2 = es')
    (ho : x.map Visit.outcome = some o ∨ y.map Visit.outcome = some o) :
    y.map Visit.outcome = x.map Visit.outcome ↔ Heard h h' o.state.2 := by
  have hx' : x.map Visit.outcome = some o → rootEntries o.state.2 = es := by
    intro ho
    obtain ⟨v, hv, rfl⟩ := Option.map_eq_some_iff.1 ho
    exact hx v hv
  have hy' : y.map Visit.outcome = some o → rootEntries o.state.2 = es' := by
    intro ho
    obtain ⟨v, hv, rfl⟩ := Option.map_eq_some_iff.1 ho
    exact hy v hv
  have hmem : c ∈ rootEntries o.state.2 := by
    rcases ho with ho | ho
    · rwa [hx' ho]
    · rwa [hy' ho]
  refine iff_of_false (fun heq => hne ?_) fun hheard =>
    hheard c (List.mem_filter.1 hmem).1 hsilenced
  rw [heq, or_self] at ho
  rw [← hx' ho, ← hy' (heq.trans ho)]

end Outcomes

/-- Two sets of handlers that differ in requests to remove the root alone, on entering or on leaving
it, by a handler for any kind or for its own: the walks call the same handlers in the same order
on equal nodes, and leave equal trees, counts and states, exactly when no call is silenced, that
is, when no handler for the kind of the root would have been called after a request. -/
theorem run?_eq_iff_of_removesRoot (hh : RemovesRoot h h') {limit : Nat} {root : Node} {state : σ}
    {o : Outcome (Noted σ)} (ho : run? limit h.noted root (state, []) = some o ∨
      run? limit h'.noted root (state, []) = some o) :
    (run? limit h'.noted root (state, []) = run? limit h.noted root (state, []) ↔
        ∀ c ∈ o.state.2, ¬ Silenced h h' c) ∧
      ((∀ c ∈ o.state.2, ¬ Silenced h h' c) →
        run? limit h' root state = run? limit h root state) := by
  have hiff : run? limit h'.noted root (state, []) = run? limit h.noted root (state, []) ↔
      ∀ c ∈ o.state.2, ¬ Silenced h h' c := by
    rcases visit_root hh limit [] root (p := { state := (state, []) }) rfl with
      hrel | ⟨es, es', hne, ⟨c, hsilenced, hc, hc'⟩, hx, hy⟩
    · exact eq_iff_of_parted hrel ho
    · exact eq_iff_of_rootEntries hne hsilenced hc hc' hx hy ho
  refine ⟨hiff, fun hheard => ?_⟩
  rw [← run?_noted h limit root state [], ← run?_noted h' limit root state [], hiff.2 hheard]

/-- Counts the nodes that are entered. -/
def countingEntries : Handlers Nat := ({} : Handlers Nat).on none .enter fun p s => (p.keep, s + 1)

/-- On leaving `/a/` the handler for the root asks for its removal; the walk is the same. -/
theorem run?_eq_of_removal_on_exit :
    run? 2 (countingEntries.on (some .regExp) .exit fun p s =>
        (if p.slot = .root then p.remove else p.keep, s)) (.regExp (.char (.simple 'a')) {}) 0 =
      run? 2 (countingEntries.on (some .regExp) .exit fun p s => (p.keep, s))
        (.regExp (.char (.simple 'a')) {}) 0 := by
  have hh := (RemovesRoot.refl countingEntries).on (some .regExp) .exit .keep
  have hrun : run? 2 (countingEntries.on (some .regExp) .exit fun p s => (p.keep, s)).noted
      (.regExp (.char (.simple 'a')) {}) (0, []) =
      some ⟨.regExp (.char (.simple 'a')) {}, ⟨2, 0, false⟩, _⟩ := rfl
  refine (run?_eq_iff_of_removesRoot hh (.inl hrun)).2 fun c _ => ?_
  refine not_silenced_of_any_eq ?_ c
  rfl

/-- The handler for any kind asks for the removal of `/a/`, so the one for the root does not put
`/b/` in its place. -/
theorem removal_of_root_silences : ∃ h h' : Handlers Unit, RemovesRoot h h' ∧
    run? 2 h (.regExp (.char (.simple 'a')) {}) () =
      some ⟨.regExp (.char (.simple 'b')) {}, ⟨2, 1, false⟩, ()⟩ ∧
    run? 2 h' (.regExp (.char (.simple 'a')) {}) () =
      some ⟨.regExp (.char (.simple 'a')) {}, ⟨2, 0, false⟩, ()⟩ :=
  ⟨_, _, ((RemovesRoot.refl {}).on none .enter .keep).on (some .regExp) .enter
    (.refl fun p s => (p.replace (.regExp (.char (.simple 'b')) {}), s)), rfl, rfl⟩

end Walk

end RegexKit
