import RegexKit.Proofs.Walk.Observing
import RegexKit.Proofs.Walk.Simulation
import RegexKit.Walk.Script

/-! Scripted walks. Of several scripts for the same visits only the last is ever called. A call
notes what its handler is told, so the events of a walk name the script that was in charge of a
node and give the text that the node had; and a walk is only given up at a node that cannot be
printed. One call keeps this of the log, and so a walk does, and passes in order. Scripts that only
pass over children and stop leave the tree alone. -/

namespace RegexKit

variable {σ : Type}

/-! ### Registration -/

theorem Visitor.handler?_set (v : Visitor σ) (phase phase' : Phase) (f : Handler σ) :
    (v.set phase f).handler? phase' = if phase = phase' then some f else v.handler? phase' := by
  cases phase <;> cases phase' <;> rfl

namespace Handlers

/-- The handler for a kind, or for any kind. -/
def at? (h : Handlers σ) : Option NodeType → Phase → Option (Handler σ)
  | none, phase => h.any.handler? phase
  | some k, phase => (h.typed k).handler? phase

theorem at?_on (h : Handlers σ) (type type' : Option NodeType) (phase phase' : Phase)
    (f : Handler σ) :
    (h.on type phase f).at? type' phase' =
      if type = type' ∧ phase = phase' then some f else h.at? type' phase' := by
  cases type with
  | none =>
    cases type' with
    | none => simp [on, at?, Visitor.handler?_set]
    | some k' => simp [on, at?]
  | some k =>
    cases type' with
    | none => simp [on, at?]
    | some k' =>
      by_cases hk : k' = k
      · subst hk
        simp [on, at?, Visitor.handler?_set]
      · simp [on, at?, hk, Ne.symm hk]

end Handlers

namespace Script

variable {scripts : List Script} {i : Nat} {s : Script}

/-- The script is the one with the number, and none of those after it is for the same visits. -/
def LastFor (scripts : List Script) (i : Nat) (s : Script) : Prop :=
  ∃ before after, scripts = before ++ s :: after ∧ before.length = i ∧
    ∀ t ∈ after, t.type = s.type → t.phase ≠ s.phase

/-- A registered handler is that of the last script for its visits; where there is none, it was
there before. -/
theorem at?_register {h : Handlers Log} {type : Option NodeType} {phase : Phase}
    {f : Handler Log} (hf : (register h i scripts).at? type phase = some f) :
    (∃ j s, LastFor scripts j s ∧ s.type = type ∧ s.phase = phase ∧ f = s.handler (i + j)) ∨
      h.at? type phase = some f ∧ ∀ s ∈ scripts, s.type = type → s.phase ≠ phase := by
  induction scripts generalizing h i with
  | nil => exact .inr ⟨hf, List.forall_mem_nil _⟩
  | cons s ss ih =>
    rcases ih hf with ⟨j, t, ⟨before, after, rfl, rfl, hafter⟩, htype, hphase, rfl⟩ | ⟨hon, hnone⟩
    · refine .inl ⟨before.length + 1, t, ⟨s :: before, after, rfl, rfl, hafter⟩, htype, hphase, ?_⟩
      rw [Nat.add_assoc, Nat.add_comm 1]
    · rw [Handlers.at?_on] at hon
      split at hon
      · rename_i hsame
        obtain ⟨rfl, rfl⟩ := hsame
        cases hon
        exact .inl ⟨0, s, ⟨[], ss, rfl, rfl, hnone⟩, rfl, rfl, rfl⟩
      · rename_i hother
        refine .inr ⟨hon, List.forall_mem_cons.2 ⟨fun htype hphase => ?_, hnone⟩⟩
        exact hother ⟨htype, hphase⟩

theorem at?_handlers {type : Option NodeType} {phase : Phase} {f : Handler Log}
    (hf : (handlers scripts).at? type phase = some f) :
    ∃ i s, LastFor scripts i s ∧ s.type = type ∧ s.phase = phase ∧ f = s.handler i := by
  rcases at?_register hf with ⟨i, s, hlast, htype, hphase, rfl⟩ | ⟨hempty, -⟩
  · exact ⟨i, s, hlast, htype, hphase, by rw [Nat.zero_add]⟩
  · cases type <;> cases phase <;> cases hempty

theorem LastFor.mem (h : LastFor scripts i s) : s ∈ scripts := by
  obtain ⟨before, after, rfl, -, -⟩ := h
  exact List.mem_append_right _ List.mem_cons_self

end Script

/-! ### Logs -/

/-- The event was noted by the last script for visits like this one, at a node of its kind that had
its text. -/
structure Event.Heard (scripts : List Script) (e : Event) : Prop where
  script : ∃ s, Script.LastFor scripts e.handler s ∧ (s.type = none ∨ s.type = some e.type)
  node : ∃ n : Node, n.type = e.type ∧ n.render = .ok e.text

/-- All events were heard, and bounds that are noted kept some node from being printed. -/
structure Log.Sound (scripts : List Script) (log : Log) : Prop where
  events : ∀ e ∈ log.events, e.Heard scripts
  failure : ∀ b, log.failure = some b → ∃ n : Node, n.render = .error b

namespace Script

variable {scripts : List Script} {log : Log} {n : Node}

/-- A script in charge of a node keeps the log sound. -/
theorem sound_handler {i : Nat} {s : Script} {p : Path} (hs : LastFor scripts i s)
    (htype : s.type = none ∨ s.type = some p.node.type) (hlog : log.Sound scripts) :
    (s.handler i p log).2.Sound scripts := by
  rw [handler]
  cases hrender : p.node.render with
  | error b =>
    refine ⟨hlog.events, fun b' hb' => ?_⟩
    cases hb'
    exact ⟨p.node, hrender⟩
  | ok text =>
    refine ⟨List.forall_mem_cons.2 ⟨⟨⟨s, hs, htype⟩, p.node, rfl, hrender⟩, hlog.events⟩, ?_⟩
    exact hlog.failure

theorem sound_callOne {type : Option NodeType} (phase : Phase) {p : Path}
    (htype : type = none ∨ type = some p.node.type) (hlog : log.Sound scripts) :
    (Handlers.callOne ((handlers scripts).at? type phase) p log).2.Sound scripts := by
  cases hf : (handlers scripts).at? type phase with
  | none => exact hlog
  | some f =>
    obtain ⟨i, s, hlast, rfl, -, rfl⟩ := at?_handlers hf
    exact sound_handler hlast htype hlog

/-- A call on a node keeps the log sound. The handler for its kind is only called while the node is
of that kind. -/
theorem sound_call (phase : Phase) (ancestors : List NodeType) (slot : Slot) (n : Node)
    (hlog : log.Sound scripts) :
    ((handlers scripts).call n.type phase { node := n, slot, ancestors } log).2.Sound scripts := by
  have hany : (Handlers.callOne ((handlers scripts).at? none phase)
      { node := n, slot, ancestors } log).2.Sound scripts := sound_callOne phase (.inl rfl) hlog
  rw [Handlers.call_eq]
  dsimp only
  split
  · exact hany
  · rename_i hgoes
    have hkind : (Handlers.callOne ((handlers scripts).any.handler? phase)
        { node := n, slot, ancestors } log).1.node.type = n.type := by
      simp only [Handlers.endsCall, Bool.or_eq_true, bne_iff_ne, ne_eq, not_or,
        Decidable.not_not] at hgoes
      exact hgoes.2
    exact sound_callOne phase (.inr (congrArg some hkind.symm)) hany

/-! ### Walks -/

theorem run_eq_ok_iff {r : Result} : run scripts n = .ok r ↔
    ∃ o, Walk.run? depthLimit (handlers scripts) n {} = some o ∧ o.state.failure = none ∧
      ⟨o.tree, o.stats, o.state.events.reverse⟩ = r := by
  rw [run]
  cases Walk.run? depthLimit (handlers scripts) n {} with
  | none => simp
  | some o =>
    dsimp only
    cases hfailure : o.state.failure with
    | none => simp [hfailure]
    | some b => simp [hfailure]

theorem run_eq_bounds_iff {b : BoundsError} : run scripts n = .error (.bounds b) ↔
    ∃ o, Walk.run? depthLimit (handlers scripts) n {} = some o ∧ o.state.failure = some b := by
  rw [run]
  cases Walk.run? depthLimit (handlers scripts) n {} with
  | none => simp
  | some o =>
    dsimp only
    cases hfailure : o.state.failure with
    | none => simp [hfailure]
    | some b => simp [hfailure]

theorem sound_run? {o : Walk.Outcome Log}
    (h : Walk.run? depthLimit (handlers scripts) n {} = some o) : o.state.Sound scripts :=
  Walk.run?_keeps (fun phase ancestors slot n _ => sound_call phase ancestors slot n)
    ⟨List.forall_mem_nil _, fun _ hb => by cases hb⟩ h

/-- Every event of a walk was noted by the script in charge of a node that had the text. -/
theorem heard_of_run {r : Result} (h : run scripts n = .ok r) :
    ∀ e ∈ r.events, e.Heard scripts := by
  obtain ⟨o, ho, -, rfl⟩ := run_eq_ok_iff.1 h
  exact fun e he => (sound_run? ho).events e (List.mem_reverse.1 he)

/-- A walk is given up only for a node that cannot be printed. -/
theorem exists_of_run_eq_bounds {b : BoundsError} (h : run scripts n = .error (.bounds b)) :
    ∃ m : Node, m.render = .error b := by
  obtain ⟨o, ho, hfailure⟩ := run_eq_bounds_iff.1 h
  exact (sound_run? ho).failure b hfailure

/-! ### Scripts that only steer -/

end Script

/-- The deed edits nothing. -/
def Deed.steers : Deed → Bool
  | skip | stop => true
  | remove | replace _ | replaceAndSkip _ | set _ => false

/-- The script edits nothing. -/
def Script.steers (s : Script) : Bool := s.actions.all fun a => a.deed.steers

/-- The path is at the node, with nothing done to it so far. -/
structure Path.IsAt (p : Path) (n : Node) : Prop where
  node : p.node = n
  replaced : p.signals.replaced = false
  removed : p.signals.removed = false

namespace Script

variable {scripts : List Script} {n : Node} {p : Path}

theorem isAt_apply {r : Reply} (hp : p.IsAt n) (hnode : r.node = n)
    (hreplaced : r.signals.replaced = false) (hremoved : r.signals.removed = false) :
    (p.apply r).IsAt n :=
  ⟨hnode, by simp [Path.apply, Signals.or, hp.replaced, hreplaced],
    by simp [Path.apply, Signals.or, hp.removed, hremoved]⟩

theorem isAt_perform {actions : List Action} (hsteers : ∀ a ∈ actions, a.deed.steers = true)
    (sight : Sight) (hp : p.IsAt n) : (perform actions sight p).IsAt n := by
  induction actions generalizing p with
  | nil => exact hp
  | cons a actions ih =>
    obtain ⟨ha, hactions⟩ := List.forall_mem_cons.1 hsteers
    refine ih hactions ?_
    dsimp only
    split
    · obtain ⟨condition, deed⟩ := a
      cases deed with
      | skip | stop => exact isAt_apply hp hp.node rfl rfl
      | _ => cases ha
    · exact hp

theorem isAt_callOne (hsteers : ∀ s ∈ scripts, s.steers = true) (type : Option NodeType)
    (phase : Phase) (hp : p.IsAt n) (log : Log) :
    (Handlers.callOne ((handlers scripts).at? type phase) p log).1.IsAt n := by
  cases hf : (handlers scripts).at? type phase with
  | none => exact hp
  | some f =>
    obtain ⟨i, s, hlast, -, -, rfl⟩ := at?_handlers hf
    rw [Handlers.callOne, handler]
    split
    · exact isAt_apply hp hp.node rfl rfl
    · have hdone (sight : Sight) : (perform s.actions sight p).IsAt n :=
        isAt_perform (List.all_eq_true.1 (hsteers s hlast.mem)) sight hp
      exact isAt_apply hp (hdone _).node (hdone _).replaced (hdone _).removed

theorem steers_handlers (hsteers : ∀ s ∈ scripts, s.steers = true) :
    Walk.Steers (handlers scripts) := by
  intro phase ancestors slot n log
  have hat : Path.IsAt { node := n, slot, ancestors } n := ⟨rfl, rfl, rfl⟩
  have hany := isAt_callOne hsteers none phase hat log
  suffices h : Path.IsAt
      ((handlers scripts).call n.type phase { node := n, slot, ancestors } log).1 n from
    ⟨h.node, h.replaced, h.removed⟩
  rw [Handlers.call_eq]
  dsimp only
  split
  · exact hany
  · exact isAt_callOne hsteers (some n.type) phase hany _

/-- Scripts that only pass over children and stop give the tree back. -/
theorem run_of_steers (hsteers : ∀ s ∈ scripts, s.steers = true) {r : Result}
    (h : run scripts n = .ok r) : r.tree = n ∧ r.stats.mutations = 0 := by
  obtain ⟨o, ho, -, rfl⟩ := run_eq_ok_iff.1 h
  exact (steers_handlers hsteers).run? ho

end Script

/-! ### Passes in order -/

namespace ScriptPass

variable {passes : List ScriptPass} {n : Node} {r : Result}

/-- What every pass keeps of the results so far, passes in order keep. -/
theorem runAll_keeps {P : Result → Prop} (hpass : ∀ p ∈ passes, ∀ done now, P done →
      Script.run p.scripts done.tree = .ok now →
      P ⟨now.tree, done.stats.add now.stats, done.events ++ now.events⟩)
    (hn : P ⟨n, {}, []⟩) (h : runAll passes n = .ok r) : P r := by
  rw [runAll] at h
  generalize (⟨n, {}, []⟩ : Result) = done at hn h
  induction passes generalizing done with
  | nil =>
    cases h
    exact hn
  | cons p passes ih =>
    obtain ⟨hp, hpasses⟩ := List.forall_mem_cons.1 hpass
    rw [List.foldlM_cons] at h
    cases hrun : Script.run p.scripts done.tree with
    | error e =>
      rw [hrun] at h
      cases h
    | ok now =>
      rw [hrun] at h
      exact ih hpasses _ (hp done now hn hrun) h

/-- Every event was heard by the scripts of one of the passes. -/
theorem heard_of_runAll (h : runAll passes n = .ok r) :
    ∀ e ∈ r.events, ∃ p ∈ passes, e.Heard p.scripts := by
  refine runAll_keeps (P := fun r => ∀ e ∈ r.events, ∃ p ∈ passes, e.Heard p.scripts)
    (fun p hp done now hdone hrun e he => ?_) (List.forall_mem_nil _) h
  rcases List.mem_append.1 he with he | he
  · exact hdone e he
  · exact ⟨p, hp, Script.heard_of_run hrun e he⟩

/-- Passes of scripts that only steer give the tree back. -/
theorem runAll_of_steers (hsteers : ∀ p ∈ passes, ∀ s ∈ p.scripts, s.steers = true)
    (h : runAll passes n = .ok r) : r.tree = n ∧ r.stats.mutations = 0 := by
  refine runAll_keeps (P := fun r => r.tree = n ∧ r.stats.mutations = 0)
    (fun p hp done now hdone hrun => ?_) ⟨rfl, rfl⟩ h
  obtain ⟨htree, hmutations⟩ := Script.run_of_steers (hsteers p hp) hrun
  refine ⟨htree.trans hdone.1, ?_⟩
  change done.stats.mutations + now.stats.mutations = 0
  rw [hdone.2, hmutations]

end ScriptPass

end RegexKit
