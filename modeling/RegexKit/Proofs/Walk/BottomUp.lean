import Mathlib.Data.List.Forall2
import RegexKit.Walk.Pipeline

/-! Walks from the leaves upwards. When every handler that is called on leaving a node either
keeps the node or replaces it, and none is called on entering one, or only to replace a character
by a node that is kept, the walk is a rewriting: first the children, then the node that holds
them, each node once and no node of a replacement. The height of the tree is depth enough, so
such a walk always ends. -/

namespace RegexKit

/-- A replacement for a node under a parent of some kind, if it is to be replaced. -/
abbrev Rewrite := Option NodeType → Node → Option Node

namespace Rewrite

variable (f : Rewrite)

/-- The replacement of a node, or the node itself. -/
def apply (parent : Option NodeType) (n : Node) : Node := (f parent n).getD n

/-- The replacement that the first rewriting has, or else the one that the second has. -/
def orElse (g f : Rewrite) : Rewrite := fun parent n => (g parent n).or (f parent n)

/-- One when the node is replaced. -/
def hit (parent : Option NodeType) (n : Node) : Nat := if (f parent n).isSome then 1 else 0

mutual

/-- The tree after rewriting everything below a node and then the node. -/
def up (parent : Option NodeType) : Node → Node
  | .regExp b flags => f.apply parent (.regExp (up (some .regExp) b) flags)
  | .alternative es => f.apply parent (.alternative (upList (some .alternative) es))
  | .disjunction bs => f.apply parent (.disjunction (upList (some .disjunction) bs))
  | .group kind e => f.apply parent (.group kind (up (some .group) e))
  | .charClass negated ms => f.apply parent (.charClass negated (upList (some .charClass) ms))
  | .repetition e min max greedy =>
    f.apply parent (.repetition (up (some .repetition) e) min max greedy)
  | .backreference target number => f.apply parent (.backreference target number)
  | .assertion kind => f.apply parent (.assertion kind)
  | .char c => f.apply parent (.char c)
  | .classRange low high => f.apply parent (.classRange low high)

def upList (parent : Option NodeType) : List Node → List Node
  | [] => []
  | n :: ns => up parent n :: upList parent ns

end

mutual

/-- The number of nodes that are replaced. -/
def hits (parent : Option NodeType) : Node → Nat
  | .regExp b flags =>
    hits (some .regExp) b + f.hit parent (.regExp (f.up (some .regExp) b) flags)
  | .alternative es =>
    hitsList (some .alternative) es +
      f.hit parent (.alternative (f.upList (some .alternative) es))
  | .disjunction bs =>
    hitsList (some .disjunction) bs +
      f.hit parent (.disjunction (f.upList (some .disjunction) bs))
  | .group kind e =>
    hits (some .group) e + f.hit parent (.group kind (f.up (some .group) e))
  | .charClass negated ms =>
    hitsList (some .charClass) ms +
      f.hit parent (.charClass negated (f.upList (some .charClass) ms))
  | .repetition e min max greedy =>
    hits (some .repetition) e +
      f.hit parent (.repetition (f.up (some .repetition) e) min max greedy)
  | .backreference target number => f.hit parent (.backreference target number)
  | .assertion kind => f.hit parent (.assertion kind)
  | .char c => f.hit parent (.char c)
  | .classRange low high => f.hit parent (.classRange low high)

def hitsList (parent : Option NodeType) : List Node → Nat
  | [] => 0
  | n :: ns => hits parent n + hitsList parent ns

end

/-! ### What a rewriting keeps -/

/-- A relation between a node and another one in its place, under a parent of some kind, that
passes from the children to the nodes that hold them. -/
structure Congruence (R : Option NodeType → Node → Node → Prop) : Prop where
  refl (parent : Option NodeType) (n : Node) : R parent n n
  trans {parent : Option NodeType} {a b c : Node} : R parent a b → R parent b c → R parent a c
  regExp {parent : Option NodeType} {b b' : Node} (flags : Flags) :
    R (some .regExp) b b' → R parent (.regExp b flags) (.regExp b' flags)
  alternative {parent : Option NodeType} {es es' : List Node} :
    List.Forall₂ (R (some .alternative)) es es' → R parent (.alternative es) (.alternative es')
  disjunction {parent : Option NodeType} {bs bs' : List Node} :
    List.Forall₂ (R (some .disjunction)) bs bs' → R parent (.disjunction bs) (.disjunction bs')
  group {parent : Option NodeType} {e e' : Node} (kind : GroupKind) :
    R (some .group) e e' → R parent (.group kind e) (.group kind e')
  charClass {parent : Option NodeType} {ms ms' : List Node} (negated : Bool) :
    List.Forall₂ (R (some .charClass)) ms ms' →
      R parent (.charClass negated ms) (.charClass negated ms')
  repetition {parent : Option NodeType} {e e' : Node} (min : Nat) (max : Option Nat)
    (greedy : Bool) : R (some .repetition) e e' →
      R parent (.repetition e min max greedy) (.repetition e' min max greedy)

variable {f} {R : Option NodeType → Node → Node → Prop}

theorem Congruence.apply (hR : Congruence R) (hf : ∀ parent n m, f parent n = some m → R parent n m)
    {parent : Option NodeType} {a b : Node} (h : R parent a b) : R parent a (f.apply parent b) := by
  cases hb : f parent b with
  | none => simpa [Rewrite.apply, hb] using h
  | some m => simpa [Rewrite.apply, hb] using hR.trans h (hf parent b m hb)

mutual

/-- What every single replacement keeps, the whole rewriting keeps. -/
theorem Congruence.up (hR : Congruence R) (hf : ∀ parent n m, f parent n = some m → R parent n m) :
    ∀ (parent : Option NodeType) (n : Node), R parent n (f.up parent n)
  | _, .regExp b flags => hR.apply hf (hR.regExp flags (Congruence.up hR hf _ b))
  | _, .alternative es => hR.apply hf (hR.alternative (Congruence.upList hR hf _ es))
  | _, .disjunction bs => hR.apply hf (hR.disjunction (Congruence.upList hR hf _ bs))
  | _, .group kind e => hR.apply hf (hR.group kind (Congruence.up hR hf _ e))
  | _, .charClass negated ms => hR.apply hf (hR.charClass negated (Congruence.upList hR hf _ ms))
  | _, .repetition e min max greedy =>
    hR.apply hf (hR.repetition min max greedy (Congruence.up hR hf _ e))
  | _, .backreference _ _ => hR.apply hf (hR.refl _ _)
  | _, .assertion _ => hR.apply hf (hR.refl _ _)
  | _, .char _ => hR.apply hf (hR.refl _ _)
  | _, .classRange _ _ => hR.apply hf (hR.refl _ _)

theorem Congruence.upList (hR : Congruence R)
    (hf : ∀ parent n m, f parent n = some m → R parent n m) :
    ∀ (parent : Option NodeType) (ns : List Node), List.Forall₂ (R parent) ns (f.upList parent ns)
  | _, [] => .nil
  | _, n :: ns => .cons (Congruence.up hR hf _ n) (Congruence.upList hR hf _ ns)

end

end Rewrite

namespace Walk

/-- The handlers are called on no entry, and on leaving a node they replace it as `f` says or
keep it. -/
structure Follows (h : Handlers Unit) (f : Rewrite) : Prop where
  enter (k : NodeType) : h.has k .enter = false
  exit (ancestors : List NodeType) (slot : Slot) (n : Node) (p : Progress Unit) :
    dispatch h .exit ancestors slot n p =
      match f ancestors.getLast? n with
      | some m => (m, { replaced := true }, p.mutate)
      | none => (n, {}, p)

/-- On entering, the handlers replace some characters as `g` says, and pass over what they put in
their places; on leaving they replace a node as `f` says or keep it, and they keep what was put in
on entering. -/
structure Settles (h : Handlers Unit) (g f : Rewrite) : Prop where
  enter (ancestors : List NodeType) (slot : Slot) (n : Node) (p : Progress Unit) :
    dispatch h .enter ancestors slot n p =
      match g ancestors.getLast? n with
      | some m => (m, { replaced := true, skip := true }, p.mutate)
      | none => (n, {}, p)
  exit (ancestors : List NodeType) (slot : Slot) (n : Node) (p : Progress Unit) :
    dispatch h .exit ancestors slot n p =
      match f ancestors.getLast? n with
      | some m => (m, { replaced := true }, p.mutate)
      | none => (n, {}, p)
  leaf {parent : Option NodeType} {n m : Node} :
    g parent n = some m → n.type = .char ∧ f parent m = none

/-- Handlers for leaving nodes of one kind that answer with a replacement or keep the node. -/
def Replaces (g : Handler Unit) (f : Rewrite) : Prop :=
  ∀ (p : Path) (s : Unit), g p s =
    match f p.parent? p.node with
    | some m => (p.replace m, s)
    | none => (p.keep, s)

/-- The answer of the only handler that is called on a node. -/
theorem dispatch_of_handler {h : Handlers Unit} {phase : Phase} {g : Handler Unit} {n : Node}
    (hany : h.any.handler? phase = none) (htyped : (h.typed n.type).handler? phase = some g)
    (ancestors : List NodeType) (slot : Slot) (p : Progress Unit) :
    dispatch h phase ancestors slot n p =
      let reply := (g { node := n, slot, ancestors } p.state).1
      (reply.node, reply.signals, if reply.signals.replaced then p.mutate else p) := by
  simp [dispatch, Handlers.has, hany, htyped, Handlers.call, Handlers.callOne, Path.apply]

/-- Leaving a node with a typed handler that replaces it as `f` says. -/
theorem dispatch_typed {h : Handlers Unit} {f : Rewrite} {g : Handler Unit} {n : Node}
    (hany : h.any.handler? .exit = none) (htyped : (h.typed n.type).handler? .exit = some g)
    (hg : Replaces g f) (ancestors : List NodeType) (slot : Slot) (p : Progress Unit) :
    dispatch h .exit ancestors slot n p =
      match f ancestors.getLast? n with
      | some m => (m, { replaced := true }, p.mutate)
      | none => (n, {}, p) := by
  have hcall := hg { node := n, slot, ancestors } p.state
  simp only [Path.parent?] at hcall
  rw [dispatch_of_handler hany htyped, hcall]
  cases f ancestors.getLast? n <;> rfl

/-- Leaving a node that no handler is for. -/
theorem dispatch_untyped {h : Handlers Unit} {n : Node} (hany : h.any.exit = none)
    (htyped : (h.typed n.type).exit = none) (ancestors : List NodeType) (slot : Slot)
    (p : Progress Unit) : dispatch h .exit ancestors slot n p = (n, {}, p) := by
  simp [dispatch, Handlers.has, Visitor.handler?, hany, htyped]

/-- A single handler for leaving the nodes of a kind follows its replacements. -/
theorem follows_on {k : NodeType} {g : Handler Unit} {f : Rewrite} (hg : Replaces g f)
    (hk : ∀ parent n, n.type ≠ k → f parent n = none) :
    Follows (({} : Handlers Unit).on (some k) .exit g) f where
  enter k' := by
    by_cases h : k' = k <;> simp [Handlers.has, Handlers.on, Visitor.handler?, Visitor.set, h]
  exit ancestors slot n p := by
    by_cases h : n.type = k
    · exact dispatch_typed rfl (by simp [Handlers.on, Visitor.set, Visitor.handler?, h]) hg
        ancestors slot p
    · rw [dispatch_untyped rfl (by simp [Handlers.on, h]), hk _ _ h]

/-- Progress after further visits and replacements. -/
def Progress.advance (p : Progress Unit) (entered mutations : Nat) : Progress Unit :=
  { p with stats := { p.stats with
      entered := p.stats.entered + entered
      mutations := p.stats.mutations + mutations } }

@[simp] theorem Progress.advance_advance (p : Progress Unit) (a b c d : Nat) :
    (p.advance a b).advance c d = p.advance (a + c) (b + d) := by
  simp [Progress.advance, Nat.add_assoc]

@[simp] theorem Progress.advance_zero (p : Progress Unit) : p.advance 0 0 = p := rfl

theorem Progress.enter_eq_advance (p : Progress Unit) : p.enter = p.advance 1 0 := rfl

theorem Progress.mutate_eq_advance (p : Progress Unit) : p.mutate = p.advance 0 1 := rfl

/-- What a walk makes of a subtree when it follows `f`. -/
def rewritten (f : Rewrite) (parent : Option NodeType) (n : Node) (p : Progress Unit) :
    Visit Unit :=
  ⟨f.up parent n, .kept, p.advance n.count (f.hits parent n)⟩

variable {h : Handlers Unit} {g f : Rewrite}

theorem Follows.settles (hf : Follows h f) : Settles h (fun _ _ => none) f where
  enter ancestors slot n p := by simp [dispatch, hf.enter]
  exit := hf.exit
  leaf hg := by cases hg

theorem Settles.leave_eq (hf : Settles h g f) (ancestors : List NodeType) (slot : Slot)
    (n : Node) (p : Progress Unit) :
    leave h ancestors slot n p =
      ⟨f.apply ancestors.getLast? n, .kept, p.advance 0 (f.hit ancestors.getLast? n)⟩ := by
  rw [leave, hf.exit]
  cases hr : f ancestors.getLast? n with
  | none => simp [verdict?, conclude, Rewrite.apply, Rewrite.hit, hr]
  | some m =>
    simp [verdict?, conclude, Rewrite.apply, Rewrite.hit, hr, Progress.mutate_eq_advance]

/-- A node that is replaced on entering is not looked into. -/
theorem Settles.visit_of_entered (hf : Settles h g f) (limit : Nat) {ancestors : List NodeType}
    (slot : Slot) {n m : Node} (p : Progress Unit) (hg : g ancestors.getLast? n = some m) :
    visit h (limit + 1) ancestors slot n p = some ⟨m, .kept, p.advance 1 1⟩ := by
  simp only [visit, hf.enter, hg, Progress.enter_eq_advance, Progress.mutate_eq_advance, verdict?,
    hf.leave_eq, Rewrite.apply, Rewrite.hit, (hf.leaf hg).2]
  simp

theorem Settles.visit_succ (hf : Settles h g f) (limit : Nat) {ancestors : List NodeType}
    (slot : Slot) {n : Node} (p : Progress Unit) (hg : g ancestors.getLast? n = none) :
    visit h (limit + 1) ancestors slot n p =
      (visitChildren (visit h limit (ancestors ++ [n.type])) n (p.advance 1 0)).map fun c =>
        if c.stopped then ⟨c.value, .stopped, c.progress⟩
        else ⟨f.apply ancestors.getLast? c.value, .kept,
          c.progress.advance 0 (f.hit ancestors.getLast? c.value)⟩ := by
  simp only [visit, hf.enter, hg, Progress.enter_eq_advance, hf.leave_eq]
  rfl

/-- Visiting a list follows `f` when visiting each of its members does. -/
theorem visitList_rewritten {v : VisitChild Unit} {parent : Option NodeType} {ns : List Node}
    (hv : ∀ n ∈ ns, ∀ slot p, v slot n p = some (rewritten f parent n p)) (i : Nat)
    (p : Progress Unit) :
    visitList v i ns p =
      some ⟨f.upList parent ns, false,
        p.advance (Node.countList ns) (f.hitsList parent ns)⟩ := by
  induction ns generalizing i p with
  | nil => rfl
  | cons n ns ih =>
    have htail := ih (fun m hm => hv m (List.mem_cons_of_mem _ hm)) (i + 1)
    simp only [visitList, hv n List.mem_cons_self, Option.bind_some, rewritten, htail,
      Option.map_some, Children.map, Progress.advance_advance]
    rfl

theorem visitSingle_rewritten {v : VisitChild Unit} {parent : Option NodeType} {n : Node}
    {slot : Slot} {p : Progress Unit} (hv : v slot n p = some (rewritten f parent n p)) :
    visitSingle v slot n p =
      some ⟨f.up parent n, false, p.advance n.count (f.hits parent n)⟩ := by
  simp [visitSingle, hv, rewritten]

/-- Nodes other than characters are replaced on leaving only. -/
theorem Settles.orElse_eq (hf : Settles h g f) (parent : Option NodeType) (n : Node)
    (hn : n.type ≠ .char) :
    (g.orElse f).apply parent n = f.apply parent n ∧
      (g.orElse f).hit parent n = f.hit parent n := by
  have hnone : g parent n = none := by
    cases hg : g parent n with
    | none => rfl
    | some m => exact absurd (hf.leaf hg).1 hn
  simp [Rewrite.apply, Rewrite.hit, Rewrite.orElse, hnone]

/-- A visit rewrites the subtree from the leaves upwards. -/
theorem Settles.visit_eq (hf : Settles h g f) (limit : Nat) (ancestors : List NodeType)
    (slot : Slot) (n : Node) (p : Progress Unit) (hn : n.height ≤ limit) :
    visit h limit ancestors slot n p = some (rewritten (g.orElse f) ancestors.getLast? n p) := by
  induction limit generalizing ancestors slot n p with
  | zero =>
    have := n.height_pos
    omega
  | succ limit ih =>
    have hchild : ∀ c ∈ n.children, ∀ slot p, visit h limit (ancestors ++ [n.type]) slot c p =
        some (rewritten (g.orElse f) (some n.type) c p) := by
      intro c hc slot p
      have hlt := Node.height_lt_of_mem_children hc
      simpa using ih (ancestors ++ [n.type]) slot c p (by omega)
    cases hg : g ancestors.getLast? n with
    | some m =>
      have htype := (hf.leaf hg).1
      rw [hf.visit_of_entered limit slot p hg]
      cases n with
      | char c => simp [rewritten, Rewrite.up, Rewrite.hits, Rewrite.apply, Rewrite.hit,
          Rewrite.orElse, hg, Node.count]
      | _ => cases htype
    | none =>
      rw [hf.visit_succ limit slot p hg]
      cases n with
      | regExp b _ | group _ b | repetition b _ _ _ =>
        simp only [visitChildren, visitSingle_rewritten (hchild b (by simp [Node.children]) _ _)]
        simp only [Option.map_some, Children.map, rewritten, Rewrite.up, Rewrite.hits, Node.count]
        rw [(hf.orElse_eq _ _ (by simp [Node.type])).1, (hf.orElse_eq _ _ (by simp [Node.type])).2]
        simp [Node.type]
      | alternative ns | disjunction ns | charClass _ ns =>
        have hlist := visitList_rewritten (show ∀ c ∈ ns, _ from hchild) 0 (p.advance 1 0)
        simp only [visitChildren, hlist]
        simp only [Option.map_some, Children.map, rewritten, Rewrite.up, Rewrite.hits, Node.count]
        rw [(hf.orElse_eq _ _ (by simp [Node.type])).1, (hf.orElse_eq _ _ (by simp [Node.type])).2]
        simp [Node.type]
      | backreference _ _ | assertion _ | char _ | classRange _ _ =>
        simp [visitChildren, rewritten, Rewrite.up, Rewrite.hits, Node.count, Rewrite.apply,
          Rewrite.hit, Rewrite.orElse, hg]

end Walk

/-- A rule whose handlers settle a rewriting runs it over the whole tree. -/
theorem Rule.run_eq_up_of_settles {r : Rule} {g f : Rewrite} (hf : Walk.Settles r.handlers g f)
    (n : Node) :
    r.run n = ((g.orElse f).up none n, ⟨n.count, (g.orElse f).hits none n, false⟩) := by
  simp [Rule.run, Walk.run?, hf.visit_eq _ [] .root n _ (Nat.le_refl _), Walk.rewritten,
    Walk.Progress.advance]

/-- A rule whose handlers follow a rewriting runs it over the whole tree. -/
theorem Rule.run_eq_up {r : Rule} {f : Rewrite} (hf : Walk.Follows r.handlers f) (n : Node) :
    r.run n = (f.up none n, ⟨n.count, f.hits none n, false⟩) :=
  Rule.run_eq_up_of_settles hf.settles n

end RegexKit
