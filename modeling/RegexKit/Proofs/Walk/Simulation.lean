import RegexKit.Proofs.Walk.Revision

/-! Two walks side by side. When the handlers of one answer as those of the other do and keep the
states of both related, the walks make the same visits and leave the same tree and counts. One
relation takes notes away from a state, another carries a property of the state along a walk. -/

namespace RegexKit

variable {σ τ : Type}

/-! ### Handlers made from others -/

/-- Another handler in the place of each. -/
def Visitor.map (f : Phase → Handler σ → Handler τ) (v : Visitor σ) : Visitor τ :=
  ⟨v.enter.map (f .enter), v.exit.map (f .exit)⟩

@[simp] theorem Visitor.handler?_map (f : Phase → Handler σ → Handler τ) (v : Visitor σ)
    (phase : Phase) : (v.map f).handler? phase = (v.handler? phase).map (f phase) := by
  cases phase <;> rfl

namespace Handlers

/-- Another handler in the place of each, for any kind and for each kind. -/
def map (f : Option NodeType → Phase → Handler σ → Handler τ) (h : Handlers σ) : Handlers τ :=
  ⟨h.any.map (f none), fun k => (h.typed k).map (f (some k))⟩

@[simp] theorem any_map (f : Option NodeType → Phase → Handler σ → Handler τ) (h : Handlers σ) :
    (h.map f).any = h.any.map (f none) := rfl

@[simp] theorem typed_map (f : Option NodeType → Phase → Handler σ → Handler τ) (h : Handlers σ)
    (k : NodeType) : (h.map f).typed k = (h.typed k).map (f (some k)) := rfl

@[simp] theorem has_map (f : Option NodeType → Phase → Handler σ → Handler τ) (h : Handlers σ)
    (k : NodeType) (phase : Phase) : (h.map f).has k phase = h.has k phase := by
  simp [has]

/-- With the path left so by the handler for any kind, the one for kind `k` is not called. -/
def endsCall (k : NodeType) (p : Path) : Bool :=
  p.signals.removed || p.signals.stop || p.node.type != k

theorem call_eq (h : Handlers σ) (k : NodeType) (phase : Phase) (p : Path) (s : σ) :
    h.call k phase p s =
      let r := callOne (h.any.handler? phase) p s
      if endsCall k r.1 then r else callOne ((h.typed k).handler? phase) r.1 r.2 := rfl

end Handlers

namespace Walk

/-- On nodes in some slots the handlers answer alike, and related states stay related. -/
def Simulates (R : σ → τ → Prop) (slots : Phase → Slot → Prop) (h : Handlers σ)
    (h' : Handlers τ) : Prop :=
  ∀ phase ancestors slot n s t, slots phase slot → R s t →
    (h'.call n.type phase { node := n, slot, ancestors } t).1 =
        (h.call n.type phase { node := n, slot, ancestors } s).1 ∧
      R (h.call n.type phase { node := n, slot, ancestors } s).2
        (h'.call n.type phase { node := n, slot, ancestors } t).2

/-! ### Results side by side -/

/-- Related states and the same counts. -/
structure Progress.Related (R : σ → τ → Prop) (p : Progress σ) (q : Progress τ) : Prop where
  state : R p.state q.state
  stats : p.stats = q.stats

/-- The same visit, with related states. -/
structure Visit.Related (R : σ → τ → Prop) (v : Visit σ) (w : Visit τ) : Prop where
  node : v.node = w.node
  flow : v.flow = w.flow
  progress : v.progress.Related R w.progress

/-- The same children, with related states. -/
structure Children.Related {α : Type} (R : σ → τ → Prop) (c : Children α σ)
    (d : Children α τ) : Prop where
  value : c.value = d.value
  stopped : c.stopped = d.stopped
  progress : c.progress.Related R d.progress

/-- What a dispatch leaves: the node, the signals and the progress. -/
abbrev Dispatched (σ : Type) := Node × Signals × Progress σ

/-- The end of a visit, after the call on leaving. -/
def Dispatched.depart (slot : Slot) (d : Dispatched σ) : Visit σ :=
  conclude d.1 ((verdict? slot d.2.1).getD .kept) d.2.2

theorem leave_eq_depart (h : Handlers σ) (ancestors : List NodeType) (slot : Slot) (n : Node)
    (p : Progress σ) :
    leave h ancestors slot n p = Dispatched.depart slot (dispatch h .exit ancestors slot n p) := rfl

/-- The same node and signals, with related states. -/
structure Dispatched.Related (R : σ → τ → Prop) (d : Dispatched σ) (e : Dispatched τ) : Prop where
  node : d.1 = e.1
  signals : d.2.1 = e.2.1
  progress : d.2.2.Related R e.2.2

variable {R : σ → τ → Prop} {slots : Phase → Slot → Prop} {h : Handlers σ} {h' : Handlers τ}
  {p : Progress σ} {q : Progress τ}

theorem Progress.Related.enter (hp : p.Related R q) : p.enter.Related R q.enter :=
  ⟨hp.state, by simp only [Progress.enter, hp.stats]⟩

theorem Progress.Related.mutate (hp : p.Related R q) : p.mutate.Related R q.mutate :=
  ⟨hp.state, by simp only [Progress.mutate, hp.stats]⟩

theorem Progress.Related.halt (hp : p.Related R q) : p.halt.Related R q.halt :=
  ⟨hp.state, by simp only [Progress.halt, hp.stats]⟩

theorem Children.Related.map {α β : Type} {c : Children α σ} {d : Children α τ}
    (hc : c.Related R d) (f : α → β) : (c.map f).Related R (d.map f) :=
  ⟨congrArg f hc.value, hc.stopped, hc.progress⟩

/-- A visit that ends in the same way. -/
theorem related_conclude (n : Node) (flow : Flow) (hp : p.Related R q) :
    (conclude n flow p).Related R (conclude n flow q) := by
  refine ⟨rfl, rfl, ?_⟩
  unfold conclude
  split
  · exact hp.halt
  · exact hp

theorem rel_map {α β γ δ : Type} {r : α → β → Prop} {s : γ → δ → Prop} {x : Option α}
    {y : Option β} (h : Option.Rel r x y) {f : α → γ} {g : β → δ}
    (hfg : ∀ a b, r a b → s (f a) (g b)) : Option.Rel s (x.map f) (y.map g) := by
  cases h with
  | none => exact .none
  | some h => exact .some (hfg _ _ h)

theorem rel_bind {α β γ δ : Type} {r : α → β → Prop} {s : γ → δ → Prop} {x : Option α}
    {y : Option β} (h : Option.Rel r x y) {f : α → Option γ} {g : β → Option δ}
    (hfg : ∀ a b, r a b → Option.Rel s (f a) (g b)) : Option.Rel s (x.bind f) (y.bind g) := by
  cases h with
  | none => exact .none
  | some h => exact hfg _ _ h

theorem map_eq_of_rel {α β : Type} {r : α → β → Prop} {x : Option α} {y : Option β}
    (h : Option.Rel r x y) {f : α → β} (hf : ∀ a b, r a b → f a = b) : x.map f = y := by
  cases h with
  | none => rfl
  | some h => exact congrArg some (hf _ _ h)

/-! ### Calls -/

theorem Simulates.dispatch (hs : Simulates R slots h h') {phase : Phase} {slot : Slot}
    (hslot : slots phase slot) (ancestors : List NodeType) (n : Node) (hp : p.Related R q) :
    Dispatched.Related R (dispatch h phase ancestors slot n p)
      (dispatch h' phase ancestors slot n q) := by
  obtain ⟨hpath, hstate⟩ := hs phase ancestors slot n p.state q.state hslot hp.state
  rw [dispatch_eq_call, dispatch_eq_call]
  dsimp only
  rw [hpath]
  refine ⟨rfl, rfl, ?_⟩
  split
  · exact Progress.Related.mutate ⟨hstate, hp.stats⟩
  · exact ⟨hstate, hp.stats⟩

theorem Simulates.leave (hs : Simulates R slots h h') {slot : Slot}
    (hslot : slots .exit slot) (ancestors : List NodeType) (n : Node) (hp : p.Related R q) :
    (leave h ancestors slot n p).Related R (leave h' ancestors slot n q) := by
  have hd := hs.dispatch hslot ancestors n hp
  rw [leave_eq_depart, leave_eq_depart, Dispatched.depart, Dispatched.depart, hd.node, hd.signals]
  exact related_conclude _ _ hd.progress

/-! ### Children -/

section Children

variable {v : VisitChild σ} {w : VisitChild τ}

theorem related_visitSingle {slot : Slot}
    (h : ∀ n p q, p.Related R q → Option.Rel (Visit.Related R) (v slot n p) (w slot n q))
    (n : Node) (hp : p.Related R q) :
    Option.Rel (Children.Related R) (visitSingle v slot n p) (visitSingle w slot n q) := by
  refine rel_map (h n p q hp) fun a b hab => ?_
  rw [hab.flow, hab.node]
  cases b.flow with
  | kept => exact ⟨rfl, rfl, hab.progress⟩
  | removed => exact ⟨rfl, rfl, hab.progress.mutate⟩
  | stopped => exact ⟨rfl, rfl, hab.progress⟩

theorem related_visitList (h : ∀ i n p q, p.Related R q →
      Option.Rel (Visit.Related R) (v (.index i) n p) (w (.index i) n q))
    (i : Nat) (ns : List Node) (hp : p.Related R q) :
    Option.Rel (Children.Related R) (visitList v i ns p) (visitList w i ns q) := by
  induction ns generalizing i p q with
  | nil => exact .some ⟨rfl, rfl, hp⟩
  | cons n ns ih =>
    refine rel_bind (h i n p q hp) fun a b hab => ?_
    rw [hab.flow, hab.node]
    cases b.flow with
    | kept => exact rel_map (ih (i + 1) hab.progress) fun c d hcd => hcd.map _
    | removed => exact ih i hab.progress.mutate
    | stopped => exact .some ⟨rfl, rfl, hab.progress⟩

theorem related_visitChildren (h : ∀ slot, slot ≠ .root → ∀ n p q, p.Related R q →
      Option.Rel (Visit.Related R) (v slot n p) (w slot n q))
    (n : Node) (hp : p.Related R q) :
    Option.Rel (Children.Related R) (visitChildren v n p) (visitChildren w n q) := by
  have hsingle : ∀ slot, slot ≠ .root → ∀ m, Option.Rel (Children.Related R)
      (visitSingle v slot m p) (visitSingle w slot m q) :=
    fun slot hslot m => related_visitSingle (h slot hslot) m hp
  have hlist : ∀ ns, Option.Rel (Children.Related R)
      (visitList v 0 ns p) (visitList w 0 ns q) :=
    fun ns => related_visitList (fun i => h (.index i) (by simp)) 0 ns hp
  cases n with
  | regExp b _ => exact rel_map (hsingle .body (by simp) b) fun c d hcd => hcd.map _
  | group _ b | repetition b _ _ _ =>
    exact rel_map (hsingle .expression (by simp) b) fun c d hcd => hcd.map _
  | alternative ns | disjunction ns | charClass _ ns =>
    exact rel_map (hlist ns) fun c d hcd => hcd.map _
  | backreference _ _ | assertion _ | char _ | classRange _ _ => exact .some ⟨rfl, rfl, hp⟩

end Children

/-! ### Visits -/

/-- The rest of a visit, after the call on entering. -/
def resume (h : Handlers σ) (limit : Nat) (ancestors : List NodeType) (slot : Slot)
    (d : Dispatched σ) : Option (Visit σ) :=
  match verdict? slot d.2.1 with
  | some flow => some (conclude d.1 flow d.2.2)
  | none =>
    if d.2.1.skip then some (leave h ancestors slot d.1 d.2.2)
    else
      (visitChildren (visit h limit (ancestors ++ [d.1.type])) d.1 d.2.2).map fun c =>
        if c.stopped then ⟨c.value, .stopped, c.progress⟩
        else leave h ancestors slot c.value c.progress

theorem visit_succ (h : Handlers σ) (limit : Nat) (ancestors : List NodeType) (slot : Slot)
    (n : Node) (p : Progress σ) :
    visit h (limit + 1) ancestors slot n p =
      resume h limit ancestors slot (dispatch h .enter ancestors slot n p.enter) := rfl

/-- The rest of a visit goes alike when the visits below do. -/
theorem related_resume (hs : Simulates R slots h h') {slot : Slot} (hslot : slots .exit slot)
    {limit : Nat} (hvisit : ∀ ancestors slot, slot ≠ .root → ∀ n p q, p.Related R q →
      Option.Rel (Visit.Related R) (visit h limit ancestors slot n p)
        (visit h' limit ancestors slot n q))
    (ancestors : List NodeType) {d : Dispatched σ} {e : Dispatched τ} (hd : d.Related R e) :
    Option.Rel (Visit.Related R) (resume h limit ancestors slot d)
      (resume h' limit ancestors slot e) := by
  unfold resume
  rw [hd.node, hd.signals]
  cases verdict? slot e.2.1 with
  | some flow => exact .some (related_conclude _ _ hd.progress)
  | none =>
    dsimp only
    split
    · exact .some (hs.leave hslot ancestors _ hd.progress)
    · refine rel_map (related_visitChildren (hvisit _) _ hd.progress) fun c c' hc => ?_
      rw [hc.stopped, hc.value]
      split
      · exact ⟨rfl, rfl, hc.progress⟩
      · exact hs.leave hslot ancestors _ hc.progress

/-- Visits below the root go alike. -/
theorem Simulates.visit (hs : Simulates R slots h h')
    (hslots : ∀ phase slot, slot ≠ .root → slots phase slot) (limit : Nat)
    (ancestors : List NodeType) {slot : Slot} (hslot : slot ≠ .root) (n : Node)
    (hp : p.Related R q) :
    Option.Rel (Visit.Related R) (visit h limit ancestors slot n p)
      (visit h' limit ancestors slot n q) := by
  induction limit generalizing ancestors slot n p q with
  | zero => exact .none
  | succ limit ih =>
    have hentered := hs.dispatch (hslots .enter slot hslot) ancestors n hp.enter
    exact related_resume hs (hslots .exit slot hslot)
      (fun ancestors _ hslot n _ _ hp => ih ancestors hslot n hp) ancestors hentered

/-- The rest of a visit goes alike. -/
theorem Simulates.resume (hs : Simulates R slots h h')
    (hslots : ∀ phase slot, slot ≠ .root → slots phase slot) (limit : Nat)
    (ancestors : List NodeType) {slot : Slot} (hslot : slots .exit slot) {d : Dispatched σ}
    {e : Dispatched τ} (hd : d.Related R e) :
    Option.Rel (Visit.Related R) (resume h limit ancestors slot d)
      (resume h' limit ancestors slot e) :=
  related_resume hs hslot
    (fun ancestors _ hslot n _ _ hp => hs.visit hslots limit ancestors hslot n hp) ancestors hd

/-- Walks go alike: both have a result or none, with the same tree and the same counts. -/
theorem Simulates.run? (hs : Simulates R (fun _ _ => True) h h') (limit : Nat)
    (root : Node) {s : σ} {t : τ} (hst : R s t) :
    Option.Rel (fun o o' => o.tree = o'.tree ∧ o.stats = o'.stats ∧ R o.state o'.state)
      (run? limit h root s) (run? limit h' root t) := by
  cases limit with
  | zero => exact .none
  | succ limit =>
    have hp : Progress.Related R ({ state := s } : Progress σ) ({ state := t } : Progress τ) :=
      ⟨hst, rfl⟩
    have hentered : Dispatched.Related R (Walk.dispatch h .enter [] .root root _)
        (Walk.dispatch h' .enter [] .root root _) := hs.dispatch trivial [] root hp.enter
    exact rel_map (hs.resume (fun _ _ _ => trivial) limit [] trivial hentered)
      fun v w hv => ⟨hv.node, hv.progress.stats, hv.progress.state⟩

/-- What every call of the handlers keeps of their state, a walk keeps. -/
theorem run?_keeps {P : σ → Prop}
    (hcall : ∀ phase ancestors slot n s, P s →
      P (h.call n.type phase { node := n, slot, ancestors } s).2)
    {limit : Nat} {root : Node} {s : σ} {o : Outcome σ} (hs : P s)
    (hrun : run? limit h root s = some o) : P o.state := by
  have hself : Simulates (fun s t => s = t ∧ P s) (fun _ _ => True) h h := by
    rintro phase ancestors slot n s t - ⟨rfl, hs⟩
    exact ⟨rfl, rfl, hcall phase ancestors slot n s hs⟩
  have hrel := hself.run? limit root (s := s) (t := s) ⟨rfl, hs⟩
  rw [hrun] at hrel
  cases hrel with
  | some hstate => exact hstate.2.2.2

end Walk

end RegexKit
