import RegexKit.Proofs.Host.Matching
import RegexKit.Proofs.Optimizer.Bounds
import RegexKit.Proofs.Walk.Scripted

/-! Sessions. What an operation does when it answers is said once, by cases; all else about the
steps of a session follows from it. A step that fails leaves the tree as it was, so the session of
the steps that succeeded gives the same answers and the same tree. An answer that comes with a text
comes with the text of the tree that is left, so whoever keeps the last text knows the tree's. Trees
of a session can always be printed: operations that cannot fail on such trees do not fail, and only
scripts can put in bounds that are out of order. -/

namespace RegexKit

/-! ### Results -/

theorem bind_eq_ok_iff {ε α β : Type} {x : Except ε α} {f : α → Except ε β} {b : β} :
    x >>= f = .ok b ↔ ∃ a, x = .ok a ∧ f a = .ok b := by
  cases x with
  | error e =>
    constructor
    · intro h
      cases h
    · rintro ⟨a, h, -⟩
      cases h
  | ok a =>
    constructor
    · exact fun h => ⟨a, rfl, h⟩
    · rintro ⟨a', h, hb⟩
      cases h
      exact hb

theorem mapError_eq_ok_iff {ε ε' α : Type} {x : Except ε α} {f : ε → ε'} {a : α} :
    x.mapError f = .ok a ↔ x = .ok a := by
  cases x <;> simp [Except.mapError]

variable {n m : Node} {t : Text}

theorem Node.render_eq_ok_iff : n.render = .ok t ↔ n.badBounds? = none ∧ n.fullText = t := by
  rw [render]
  cases n.badBounds? with
  | none => simp
  | some b => simp

theorem Printed.of_eq_ok_iff {p : Printed} :
    Printed.of n = .ok p ↔ n.render = .ok p.text ∧ p = ⟨n, p.text, n.pattern, n.flags.text⟩ := by
  obtain ⟨tree, text, pattern, flags⟩ := p
  rw [Printed.of, bind_eq_ok_iff]
  simp only [mapError_eq_ok_iff]
  constructor
  · rintro ⟨text', htext, h⟩
    cases h
    exact ⟨htext, rfl⟩
  · rintro ⟨htext, h⟩
    cases h
    exact ⟨text, htext, rfl⟩

theorem optimize_eq_ok_iff {o : Optimizer.Options} :
    optimize o n = .ok m ↔ o.isInvalid = false ∧ (Optimizer.optimizeTree o n).1 = m := by
  rw [optimize]
  cases o.isInvalid <;> simp

/-! ### Operations -/

/-- The text that an answer shows of the tree that is left. -/
def Answer.text? : Answer → Option Text
  | generated p | optimized p _ _ => some p.text
  | reparsed t _ | flagsSet t | traversed _ _ _ t | piped _ _ t => some t
  | compiled m => some m.display
  | described _ _ _ | inspected _ _ | found _ => none

namespace Command

/-- What an operation does on a tree when it answers: the answer, and the tree that it leaves. -/
inductive Does (engine : Host.Engine) (n : Node) : Command → Answer → Node → Prop
  | described : Does engine n .describe (.described n n.count n.captureGroups?) n
  | generated {p : Printed} : Printed.of n = .ok p → Does engine n .generate (.generated p) n
  | reparsed {t t' : Text} {m : Node} :
      n.render = .ok t → Source.parse t = .ok m → m.render = .ok t' →
      Does engine n .reparse (.reparsed t' m.count) m
  | inspected :
      Does engine n .inspect (.inspected (n.preorder.map NodeFacts.of) n.captureGroups?) n
  | flagsSet {letters t : Text} {flags old : Flags} {body : Node} :
      Flags.parse letters = .ok flags → n = .regExp body old →
      (Node.regExp body flags).render = .ok t →
      Does engine n (.setFlags letters) (.flagsSet t) (.regExp body flags)
  | optimized {o : Optimizer.Options} {p : Printed} :
      o.isInvalid = false → Printed.of (Optimizer.optimizeTree o n).1 = .ok p →
      Does engine n (.optimize o) (.optimized p (Optimizer.optimizeTree o n).2 true)
        (Optimizer.optimizeTree o n).1
  | traversed {scripts : List Script} {r : Script.Result} {t : Text} :
      Script.run scripts n = .ok r → r.tree.render = .ok t →
      Does engine n (.traverse scripts)
        (.traversed (Script.handlers scripts).handled (Script.handlers scripts).isEmpty r t) r.tree
  | piped {passes : List ScriptPass} {r : ScriptPass.Result} {t : Text} :
      ScriptPass.runAll passes n = .ok r → r.tree.render = .ok t →
      Does engine n (.pipeline passes) (.piped (passes.map (·.name)) r t) r.tree
  | compiled {m : Host.Matcher} :
      Host.compile engine n = .ok m → Does engine n .compile (.compiled m) n
  | found {haystacks : List Text} {m : Host.Matcher} :
      Host.compile engine n = .ok m →
      Does engine n (.find haystacks) (.found (haystacks.map fun h =>
        ⟨m.isMatch engine h, m.find engine h, m.findAll engine h⟩)) n

variable {engine : Host.Engine} {c : Command} {a : Answer}

theorem does_of_run (h : c.run n engine = .ok (a, m)) : Does engine n c a m := by
  cases c with
  | describe | inspect =>
    cases h
    constructor
  | generate =>
    obtain ⟨p, hp, h⟩ := bind_eq_ok_iff.1 h
    cases h
    exact .generated hp
  | reparse =>
    obtain ⟨t, ht, h⟩ := bind_eq_ok_iff.1 h
    obtain ⟨m', hm, h⟩ := bind_eq_ok_iff.1 h
    obtain ⟨t', ht', h⟩ := bind_eq_ok_iff.1 h
    cases h
    exact .reparsed (mapError_eq_ok_iff.1 ht) (mapError_eq_ok_iff.1 hm) (mapError_eq_ok_iff.1 ht')
  | setFlags letters =>
    obtain ⟨flags, hflags, h⟩ := bind_eq_ok_iff.1 h
    cases n with
    | regExp body old =>
      obtain ⟨t, ht, h⟩ := bind_eq_ok_iff.1 h
      cases h
      exact .flagsSet (mapError_eq_ok_iff.1 hflags) rfl (mapError_eq_ok_iff.1 ht)
    | _ => cases h
  | optimize o =>
    obtain ⟨copy, hcopy, h⟩ := bind_eq_ok_iff.1 h
    obtain ⟨hvalid, rfl⟩ := optimize_eq_ok_iff.1 hcopy
    have hdoes (p : Printed) (hp : Printed.of (Optimizer.optimizeTree o n).1 = .ok p) :
        Does engine n (.optimize o) (.optimized p (Optimizer.optimizeTree o n).2 true)
          (Optimizer.optimizeTree o n).1 := .optimized hvalid hp
    generalize Optimizer.optimizeTree o n = done at h hdoes
    obtain ⟨m', report⟩ := done
    obtain ⟨p, hp, h⟩ := bind_eq_ok_iff.1 h
    rw [beq_self_eq_true] at h
    cases h
    exact hdoes p hp
  | traverse scripts =>
    obtain ⟨r, hr, h⟩ := bind_eq_ok_iff.1 h
    obtain ⟨t, ht, h⟩ := bind_eq_ok_iff.1 h
    cases h
    exact .traversed (mapError_eq_ok_iff.1 hr) (mapError_eq_ok_iff.1 ht)
  | pipeline passes =>
    obtain ⟨r, hr, h⟩ := bind_eq_ok_iff.1 h
    obtain ⟨t, ht, h⟩ := bind_eq_ok_iff.1 h
    cases h
    exact .piped (mapError_eq_ok_iff.1 hr) (mapError_eq_ok_iff.1 ht)
  | compile =>
    obtain ⟨matcher, hm, h⟩ := bind_eq_ok_iff.1 h
    cases h
    exact .compiled (mapError_eq_ok_iff.1 hm)
  | find haystacks =>
    obtain ⟨matcher, hm, h⟩ := bind_eq_ok_iff.1 h
    cases h
    exact .found (mapError_eq_ok_iff.1 hm)

theorem run_of_does (h : Does engine n c a m) : c.run n engine = .ok (a, m) := by
  cases h with
  | described | inspected => rfl
  | generated hp => rw [run, hp]; rfl
  | reparsed ht hm ht' => rw [run, ht]; simp only [Except.mapError, bind, Except.bind, hm, ht']; rfl
  | flagsSet hflags hn ht =>
    subst hn
    rw [run, hflags]
    simp only [Except.mapError, bind, Except.bind, ht]
    rfl
  | optimized hvalid hp =>
    rw [run, optimize_eq_ok_iff.2 ⟨hvalid, rfl⟩]
    simp only [bind, Except.bind, hp, beq_self_eq_true]
    rfl
  | traversed hr ht | piped hr ht =>
    rw [run, hr]
    simp only [Except.mapError, bind, Except.bind, ht]
    rfl
  | compiled hm | found hm => rw [run, hm]; rfl

/-- An operation answers exactly as said. -/
theorem run_eq_ok_iff : c.run n engine = .ok (a, m) ↔ Does engine n c a m :=
  ⟨does_of_run, run_of_does⟩

/-- The text that an answer shows is that of the tree that is left; without one, the tree has the
text that it had. -/
theorem Does.render (h : Does engine n c a m) (hn : n.render = .ok t) :
    m.render = .ok (a.text?.getD t) := by
  cases h with
  | described | inspected | found _ => exact hn
  | generated hp | optimized _ hp => exact (Printed.of_eq_ok_iff.1 hp).1
  | reparsed _ _ ht | flagsSet _ _ ht | traversed _ ht | piped _ ht => exact ht
  | compiled hm => exact Host.render_of_compile hm

/-! ### Operations that leave the tree alone -/

/-- The operation edits nothing: it only looks, or its scripts only steer. -/
def keeps : Command → Bool
  | describe | generate | inspect | compile | find _ => true
  | traverse scripts => scripts.all Script.steers
  | pipeline passes => passes.all fun p => p.scripts.all Script.steers
  | reparse | setFlags _ | optimize _ => false

theorem Does.eq_of_keeps (h : Does engine n c a m) (hc : c.keeps = true) : m = n := by
  cases h with
  | described | generated _ | inspected | compiled _ | found _ => rfl
  | reparsed _ _ _ | flagsSet _ _ _ | optimized _ _ => cases hc
  | traversed hr _ => exact (Script.run_of_steers (List.all_eq_true.1 hc) hr).1
  | piped hr _ =>
    refine (ScriptPass.runAll_of_steers (fun p hp => ?_) hr).1
    exact List.all_eq_true.1 (List.all_eq_true.1 hc p hp)

/-! ### Operations on trees that can be printed -/

/-- The operation has no reason to fail on a tree that can be printed. -/
def isSafe : Command → Bool
  | describe | generate | inspect => true
  | optimize o => !o.isInvalid
  | reparse | setFlags _ | traverse _ | pipeline _ | compile | find _ => false

/-- The operation runs scripts. -/
def isScripted : Command → Bool
  | traverse _ | pipeline _ => true
  | describe | generate | reparse | inspect | setFlags _ | optimize _ | compile | find _ => false

theorem printed_of_render (hn : n.render = .ok t) :
    Printed.of n = .ok ⟨n, t, n.pattern, n.flags.text⟩ :=
  Printed.of_eq_ok_iff.2 ⟨hn, rfl⟩

/-- What the optimizer makes of a tree that can be printed can be printed. -/
theorem render_optimizeTree (o : Optimizer.Options) (hn : n.render = .ok t) :
    (Optimizer.optimizeTree o n).1.render = .ok (Optimizer.optimizeTree o n).1.fullText :=
  Node.render_eq_ok (Optimizer.inOrder_optimizeTree o
    (Node.badBounds?_eq_none_iff.1 (Node.render_eq_ok_iff.1 hn).1))

theorem exists_does_of_isSafe (engine : Host.Engine) (hn : n.render = .ok t)
    (hc : c.isSafe = true) : ∃ a m, Does engine n c a m := by
  cases c with
  | describe => exact ⟨_, _, .described⟩
  | generate => exact ⟨_, _, .generated (printed_of_render hn)⟩
  | inspect => exact ⟨_, _, .inspected⟩
  | optimize o =>
    have hvalid : o.isInvalid = false := Bool.not_eq_true' _ |>.mp hc
    exact ⟨_, _, .optimized hvalid (printed_of_render (render_optimizeTree o hn))⟩
  | _ => cases hc

/-- On a tree that can be printed only scripts meet bounds that are out of order. -/
theorem run_ne_bounds (hn : n.render = .ok t) (hc : c.isScripted = false) (b : BoundsError) :
    c.run n engine ≠ .error (.bounds b) := by
  obtain ⟨hbounds, -⟩ := Node.render_eq_ok_iff.1 hn
  have hcompile : ∀ e, Host.compile engine n = .error e → Failure.ofMatcher e ≠ .bounds b := by
    intro e he hb
    cases e with
    | bounds b' => exact Host.compile_ne_bounds hbounds b' he
    | _ => cases hb
  cases c with
  | traverse _ | pipeline _ => cases hc
  | describe | inspect => exact fun h => by cases h
  | generate =>
    rw [run, printed_of_render hn]
    exact fun h => by cases h
  | reparse =>
    rw [run, hn]
    cases hparse : Source.parse t with
    | error e =>
      simp only [Except.mapError, bind, Except.bind, hparse]
      exact fun h => by cases h
    | ok m =>
      have hm := Node.render_eq_ok (Optimizer.inOrder_of_parse hparse)
      simp only [Except.mapError, bind, Except.bind, hparse, hm]
      exact fun h => by cases h
  | setFlags letters =>
    rw [run]
    cases Flags.parse letters with
    | error e => exact fun h => by cases h
    | ok flags =>
      cases n with
      | regExp body old =>
        have hm : (Node.regExp body flags).render = .ok (Node.regExp body flags).fullText :=
          Node.render_eq_ok_iff.2 ⟨hbounds, rfl⟩
        simp only [Except.mapError, bind, Except.bind, hm]
        exact fun h => by cases h
      | _ => exact fun h => by cases h
  | optimize o =>
    cases hvalid : o.isInvalid with
    | true =>
      rw [run, RegexKit.optimize, hvalid]
      exact fun h => by cases h
    | false =>
      have hdoes : Does engine n (.optimize o) _ _ :=
        .optimized hvalid (printed_of_render (render_optimizeTree o hn))
      rw [run_of_does hdoes]
      exact fun h => by cases h
  | compile | find _ =>
    rw [run]
    cases hm : Host.compile engine n with
    | ok m => exact fun h => by cases h
    | error e =>
      intro h
      exact hcompile e hm (Except.error.inj h)

end Command

/-! ### Steps -/

namespace Session

variable {engine : Host.Engine} {s : Except Failure Command} {e : Failure}
  {steps : List (Except Failure Command)}

/-- A step answers as its operation does, or it fails and leaves the tree as it was. -/
theorem step_cases (engine : Host.Engine) (n : Node) (s : Except Failure Command) :
    (∃ c a m, s = .ok c ∧ c.Does engine n a m ∧ step engine n s = (.ok a, m)) ∨
      ∃ e, s.bind (fun c => c.run n engine) = .error e ∧ step engine n s = (.error e, n) := by
  rw [step]
  cases hs : s.bind fun c => c.run n engine with
  | error e => exact .inr ⟨e, rfl, rfl⟩
  | ok answered =>
    obtain ⟨a, m⟩ := answered
    obtain ⟨c, rfl, hrun⟩ := bind_eq_ok_iff.1 hs
    exact .inl ⟨c, a, m, rfl, Command.does_of_run hrun, rfl⟩

/-- A step that fails leaves the tree as it was. -/
theorem step_of_error (h : (step engine n s).1 = .error e) : (step engine n s).2 = n := by
  obtain ⟨c, a, m, -, -, hstep⟩ | ⟨e', -, hstep⟩ := step_cases engine n s
  · rw [hstep] at h
    cases h
  · rw [hstep]

/-- The text that an answer shows, and `t` where it shows none. -/
def shownBy (t : Text) (answer : Except Failure Answer) : Text :=
  (answer.toOption.bind Answer.text?).getD t

theorem render_step (hn : n.render = .ok t) (s : Except Failure Command) :
    (step engine n s).2.render = .ok (shownBy t (step engine n s).1) := by
  obtain ⟨c, a, m, -, hdoes, hstep⟩ | ⟨e, -, hstep⟩ := step_cases engine n s
  · rw [hstep]
    exact hdoes.render hn
  · rw [hstep]
    exact hn

/-- The step edits nothing: it could not be read, or its operation edits nothing. -/
def stepKeeps : Except Failure Command → Bool
  | .ok c => c.keeps
  | .error _ => true

theorem step_of_keeps (hs : stepKeeps s = true) : (step engine n s).2 = n := by
  obtain ⟨c, a, m, rfl, hdoes, hstep⟩ | ⟨e, -, hstep⟩ := step_cases engine n s
  · rw [hstep]
    exact hdoes.eq_of_keeps hs
  · rw [hstep]

theorem step_isOk_of_isSafe (engine : Host.Engine) (hn : n.render = .ok t) {c : Command}
    (hc : c.isSafe = true) :
    ∃ a, (step engine n (.ok c)).1 = .ok a := by
  obtain ⟨a, m, hdoes⟩ := Command.exists_does_of_isSafe engine hn hc
  refine ⟨a, ?_⟩
  have hrun : (Except.ok c : Except Failure Command).bind (fun c => c.run n engine) = .ok (a, m) :=
    Command.run_of_does hdoes
  rw [step, hrun]

theorem step_bounds (hn : n.render = .ok t) {b : BoundsError}
    (h : (step engine n s).1 = .error (.bounds b)) :
    s = .error (.bounds b) ∨ ∃ c, s = .ok c ∧ c.isScripted = true := by
  obtain ⟨c, a, m, -, -, hstep⟩ | ⟨e, hrun, hstep⟩ := step_cases engine n s
  · rw [hstep] at h
    cases h
  · rw [hstep] at h
    cases h
    cases s with
    | error e =>
      cases hrun
      exact .inl rfl
    | ok c =>
      refine .inr ⟨c, rfl, ?_⟩
      cases hc : c.isScripted with
      | true => rfl
      | false => exact absurd hrun (Command.run_ne_bounds hn hc b)

/-! ### Runs -/

@[simp] theorem run_nil (engine : Host.Engine) (n : Node) : run engine n [] = [] := rfl

@[simp] theorem run_cons (engine : Host.Engine) (n : Node) (s : Except Failure Command)
    (steps : List (Except Failure Command)) :
    run engine n (s :: steps) =
      (step engine n s).1 :: run engine (step engine n s).2 steps := rfl

@[simp] theorem finish_nil (engine : Host.Engine) (n : Node) : finish engine n [] = n := rfl

@[simp] theorem finish_cons (engine : Host.Engine) (n : Node) (s : Except Failure Command)
    (steps : List (Except Failure Command)) :
    finish engine n (s :: steps) = finish engine (step engine n s).2 steps := rfl

/-- Steps are answered on the tree that the ones before them left. -/
theorem run_append (engine : Host.Engine) (n : Node)
    (steps steps' : List (Except Failure Command)) :
    run engine n (steps ++ steps') =
      run engine n steps ++ run engine (finish engine n steps) steps' := by
  induction steps generalizing n with
  | nil => rfl
  | cons s steps ih => rw [List.cons_append, run_cons, run_cons, finish_cons, ih, List.cons_append]

/-- The answers come in the order of the steps, one each, and each step is taken on the tree that
those before it leave. -/
theorem getElem?_run (engine : Host.Engine) (n : Node) (steps : List (Except Failure Command))
    (i : Nat) : (run engine n steps)[i]? =
      steps[i]?.map fun s => (step engine (finish engine n (steps.take i)) s).1 := by
  induction steps generalizing n i with
  | nil => rfl
  | cons s steps ih =>
    cases i with
    | zero => rfl
    | succ i => rw [run_cons, List.getElem?_cons_succ, ih, List.getElem?_cons_succ]; rfl

theorem length_run (engine : Host.Engine) (n : Node) (steps : List (Except Failure Command)) :
    (run engine n steps).length = steps.length := by
  induction steps generalizing n with
  | nil => rfl
  | cons s steps ih => rw [run_cons, List.length_cons, List.length_cons, ih]

/-- The first answers are those of the first steps. -/
theorem take_run (engine : Host.Engine) (n : Node) (steps : List (Except Failure Command))
    (i : Nat) : (run engine n steps).take i = run engine n (steps.take i) := by
  induction steps generalizing n i with
  | nil => rw [run_nil, List.take_nil, List.take_nil, run_nil]
  | cons s steps ih =>
    cases i with
    | zero => rfl
    | succ i => rw [run_cons, List.take_succ_cons, List.take_succ_cons, run_cons, ih]

/-- The text last shown after answers, and `t` before any. -/
def shown (t : Text) (answers : List (Except Failure Answer)) : Text := answers.foldl shownBy t

/-- The tree that steps leave has the text that was shown last. -/
theorem render_finish (hn : n.render = .ok t) (steps : List (Except Failure Command)) :
    (finish engine n steps).render = .ok (shown t (run engine n steps)) := by
  induction steps generalizing n t with
  | nil => exact hn
  | cons s steps ih => exact ih (render_step hn s)

/-- The steps that succeed. -/
def successful (engine : Host.Engine) (n : Node) :
    List (Except Failure Command) → List (Except Failure Command)
  | [] => []
  | s :: steps =>
    let now := step engine n s
    let later := successful engine now.2 steps
    if now.1.isOk then s :: later else later

/-- Without the steps that fail, the others are answered as before and the same tree is left. -/
theorem run_successful (engine : Host.Engine) (n : Node) (steps : List (Except Failure Command)) :
    run engine n (successful engine n steps) = (run engine n steps).filter Except.isOk ∧
      finish engine n (successful engine n steps) = finish engine n steps := by
  induction steps generalizing n with
  | nil => exact ⟨rfl, rfl⟩
  | cons s steps ih =>
    obtain ⟨hrun, hfinish⟩ := ih (step engine n s).2
    rw [successful]
    cases hs : (step engine n s).1 with
    | ok a =>
      have hok : (Except.ok a : Except Failure Answer).isOk = true := rfl
      rw [if_pos hok, run_cons, run_cons, finish_cons, finish_cons, hs,
        List.filter_cons_of_pos hok, hrun]
      exact ⟨rfl, hfinish⟩
    | error e =>
      have hfailed : ¬ (Except.error e : Except Failure Answer).isOk = true := Bool.false_ne_true
      rw [step_of_error hs] at hrun hfinish
      rw [if_neg hfailed, run_cons, finish_cons, hs, step_of_error hs,
        List.filter_cons_of_neg hfailed]
      exact ⟨hrun, hfinish⟩

/-- Steps that edit nothing leave the tree as it was, and each is answered as if it came first. -/
theorem run_of_keeps (hkeeps : ∀ s ∈ steps, stepKeeps s = true) :
    run engine n steps = steps.map (fun s => (step engine n s).1) ∧ finish engine n steps = n := by
  induction steps with
  | nil => exact ⟨rfl, rfl⟩
  | cons s steps ih =>
    obtain ⟨hs, hsteps⟩ := List.forall_mem_cons.1 hkeeps
    obtain ⟨hrun, hfinish⟩ := ih hsteps
    rw [run_cons, finish_cons, step_of_keeps hs, List.map_cons]
    exact ⟨congrArg _ hrun, hfinish⟩

/-! ### Sessions from the start -/

section Start

variable {source : TreeSource} {answers : List (Except Failure Answer)}

theorem start_eq_ok_iff : start source steps engine = .ok (t, answers) ↔
    ∃ n, source.load = .ok n ∧ n.render = .ok t ∧ run engine n steps = answers := by
  rw [start, bind_eq_ok_iff]
  simp only [bind_eq_ok_iff, mapError_eq_ok_iff]
  constructor
  · rintro ⟨n, hload, t', ht, h⟩
    cases h
    exact ⟨n, hload, ht, rfl⟩
  · rintro ⟨n, hload, ht, rfl⟩
    exact ⟨n, hload, t, ht, rfl⟩

/-- In a session that has begun there is a tree after every number of steps; it can be printed, and
its text is the one that the answers so far have shown last. -/
theorem start_shows (h : start source steps engine = .ok (t, answers)) :
    ∃ n, source.load = .ok n ∧ answers.length = steps.length ∧
      ∀ i, (finish engine n (steps.take i)).render = .ok (shown t (answers.take i)) := by
  obtain ⟨n, hload, hn, rfl⟩ := start_eq_ok_iff.1 h
  refine ⟨n, hload, length_run engine n steps, fun i => ?_⟩
  rw [take_run]
  exact render_finish hn _

/-- In a session that has begun no step fails that has no reason to: trees are described, printed,
inspected and optimized, unless the options allow no round. -/
theorem start_answers (h : start source steps engine = .ok (t, answers)) {i : Nat} {c : Command}
    (hi : steps[i]? = some (.ok c)) (hc : c.isSafe = true) :
    ∃ a, answers[i]? = some (.ok a) := by
  obtain ⟨n, -, hn, rfl⟩ := start_eq_ok_iff.1 h
  obtain ⟨a, ha⟩ := step_isOk_of_isSafe engine (render_finish hn (steps.take i)) hc
  exact ⟨a, by rw [getElem?_run, hi, Option.map_some, ha]⟩

/-- In a session that has begun only scripts meet bounds that are out of order. -/
theorem start_bounds (h : start source steps engine = .ok (t, answers)) {i : Nat}
    {b : BoundsError} (hi : answers[i]? = some (.error (.bounds b))) :
    steps[i]? = some (.error (.bounds b)) ∨
      ∃ c, steps[i]? = some (.ok c) ∧ c.isScripted = true := by
  obtain ⟨n, -, hn, rfl⟩ := start_eq_ok_iff.1 h
  rw [getElem?_run] at hi
  obtain ⟨s, hs, hstep⟩ := Option.map_eq_some_iff.1 hi
  obtain rfl | ⟨c, rfl, hc⟩ := step_bounds (render_finish hn (steps.take i)) hstep
  · exact .inl hs
  · exact .inr ⟨c, hs, hc⟩

end Start

end Session

end RegexKit
