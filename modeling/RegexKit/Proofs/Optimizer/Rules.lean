import RegexKit.Optimizer
import RegexKit.Proofs.Walk.BottomUp

/-! The four rules as rewritings. Each rule is a walk that only leaves nodes, so it rewrites
the tree from the leaves upwards; what every replacement of every enabled rule keeps, the
rounds of the optimizer keep. -/

namespace RegexKit

namespace Optimizer

/-! ### The rules -/

namespace Degenerate

def rewrite : Rewrite := fun _ n => once? n

theorem once?_eq_some {n e : Node} (h : once? n = some e) :
    ∃ greedy, n = .repetition e 1 (some 1) greedy := by
  unfold once? at h
  split at h
  · cases h
    exact ⟨_, rfl⟩
  · cases h

theorem follows : Walk.Follows rule.handlers rewrite :=
  Walk.follows_on (fun _ _ => rfl) fun _ n h => by
    cases n <;> first | rfl | exact absurd rfl h

end Degenerate

namespace Fusion

def rewrite : Rewrite := fun _ n => fused? n

/-- A fused repetition is one of the node before it, with one more copy; the bounds still fit. -/
theorem fuse?_eq_some {previous n m : Node} (h : fuse? previous n = some m) :
    ∃ min max greedy, n = .repetition previous min max greedy ∧
      m = .repetition previous (min + 1) (max.map (· + 1)) greedy ∧
      previous.hasCapture = false ∧ canRaise min = true ∧ max.all canRaise = true := by
  unfold fuse? at h
  split at h
  · split at h
    · rename_i hc
      simp only [Bool.and_eq_true, beq_iff_eq, Bool.not_eq_true'] at hc
      obtain ⟨⟨⟨⟨-, rfl⟩, hcapture⟩, hmin⟩, hmax⟩ := hc
      cases h
      exact ⟨_, _, _, rfl, rfl, hcapture, hmin, hmax⟩
    · cases h
  · cases h

/-- What the nodes of a sequence have and fusing two of them keeps, the fused sequence has. -/
theorem forall_mem_fuseOnto {P : Node → Prop} {done ns : List Node}
    (hfuse : ∀ previous n m, fuse? previous n = some m → P previous → P n → P m)
    (hdone : ∀ n ∈ done, P n) (hns : ∀ n ∈ ns, P n) : ∀ n ∈ fuseOnto done ns, P n := by
  induction ns generalizing done with
  | nil => simpa [fuseOnto] using hdone
  | cons n ns ih =>
    have hn := hns n List.mem_cons_self
    have htail : ∀ m ∈ ns, P m := fun m hm => hns m (List.mem_cons_of_mem _ hm)
    cases done with
    | nil => exact ih (by simpa using hn) htail
    | cons previous rest =>
      have hprevious := hdone previous List.mem_cons_self
      have hrest : ∀ k ∈ rest, P k := fun k hk => hdone k (List.mem_cons_of_mem _ hk)
      rw [fuseOnto]
      split
      · rename_i m hm
        refine ih (fun k hk => ?_) htail
        rcases List.mem_cons.1 hk with rfl | hk
        · exact hfuse previous n k hm hprevious hn
        · exact hrest k hk
      · refine ih (fun k hk => ?_) htail
        rcases List.mem_cons.1 hk with rfl | hk
        · exact hn
        · exact hdone k hk

/-- A fused sequence is the sequence of what fusing leaves, or that one node alone. -/
theorem fused?_eq_some {n m : Node} (h : fused? n = some m) :
    ∃ es, n = .alternative es ∧ (m = .alternative (fuseOnto [] es) ∨ fuseOnto [] es = [m]) := by
  unfold fused? at h
  split at h
  · rename_i es
    refine ⟨es, rfl, ?_⟩
    split at h
    · split at h
      · rename_i e he
        cases h
        exact .inr he
      · cases h
        exact .inl rfl
    · cases h
  · cases h

theorem follows : Walk.Follows rule.handlers rewrite :=
  Walk.follows_on (fun _ _ => rfl) fun _ n h => by
    cases n <;> first | rfl | exact absurd rfl h

end Fusion

namespace ClassRanges

def rewrite (flags : Flags) : Rewrite := fun _ n =>
  if flags.unicode && hasSurrogate n then none else normalized? n

theorem rewrite_eq_some {flags : Flags} {parent : Option NodeType} {n m : Node}
    (h : rewrite flags parent n = some m) :
    ∃ negated ms, n = .charClass negated ms ∧ m = .charClass negated (normalForm ms) := by
  unfold rewrite at h
  split at h
  · cases h
  · unfold normalized? at h
    split at h
    · split at h
      · cases h
      · cases h
        exact ⟨_, _, rfl, rfl⟩
    · cases h

theorem follows (flags : Flags) : Walk.Follows (rule flags).handlers (rewrite flags) :=
  Walk.follows_on
    (fun p s => by
      simp only [rewrite]
      split
      · rfl
      · rfl)
    fun _ n h => by
      cases n <;> first | exact absurd rfl h | simp [rewrite, normalized?]

end ClassRanges

namespace Ungroup

/-- Groups within a sequence are spliced by the sequence, other groups unwrapped. -/
def rewrite : Rewrite := fun parent n =>
  match n with
  | .alternative _ => spliced? n
  | .group _ _ => unwrapped? parent n
  | _ => none

/-- A group adds the items of a sequence within it to the sequence around it, or else what it
holds, which is no choice. -/
theorem items?_eq_some {n : Node} {es : List Node} (h : items? n = some es) :
    ∃ e, n = .group .nonCapturing e ∧
      (e = .alternative es ∨ es = [e] ∧ ∀ fs, e ≠ .alternative fs ∧ e ≠ .disjunction fs) := by
  unfold items? at h
  split at h
  · cases h
  · cases h
    exact ⟨_, rfl, .inl rfl⟩
  · rename_i e hchoice hsequence
    cases h
    refine ⟨e, rfl, .inr ⟨rfl, fun fs => ⟨?_, ?_⟩⟩⟩
    · rintro rfl
      exact hsequence fs rfl
    · rintro rfl
      exact hchoice fs rfl
  · cases h

/-- A node of a spliced sequence was there before or comes from a group that was. -/
theorem mem_spliced {es : List Node} {k : Node}
    (hk : k ∈ es.flatMap fun e => (items? e).getD [e]) :
    k ∈ es ∨ ∃ e, .group .nonCapturing e ∈ es ∧
      ((∃ fs, e = .alternative fs ∧ k ∈ fs) ∨
        k = e ∧ ∀ fs, e ≠ .alternative fs ∧ e ≠ .disjunction fs) := by
  obtain ⟨e, he, hk⟩ := List.mem_flatMap.1 hk
  cases hitems : items? e with
  | none =>
    rw [hitems] at hk
    obtain rfl := List.mem_singleton.1 hk
    exact .inl he
  | some fs =>
    rw [hitems] at hk
    obtain ⟨e', rfl, rfl | ⟨rfl, hplain⟩⟩ := items?_eq_some hitems
    · exact .inr ⟨_, he, .inl ⟨fs, rfl, hk⟩⟩
    · obtain rfl := List.mem_singleton.1 hk
      exact .inr ⟨_, he, .inr ⟨rfl, hplain⟩⟩

/-- What the rule does: it splices the groups of a sequence, or takes away a group around a body
that is not empty and reads the same without it. -/
theorem rewrite_eq_some {parent : Option NodeType} {n m : Node} (h : rewrite parent n = some m) :
    (∃ es, n = .alternative es ∧
      m = .alternative (es.flatMap fun e => (items? e).getD [e])) ∨
    (n = .group .nonCapturing m ∧ m.isEmptyAlternative = false ∧ readsBare parent m = true) := by
  unfold rewrite at h
  split at h
  · simp only [spliced?] at h
    split at h
    · cases h
      exact .inl ⟨_, rfl, rfl⟩
    · cases h
  · unfold unwrapped? at h
    split at h
    · rename_i hgroup
      split at h
      · rename_i hc
        cases h
        refine .inr ⟨hgroup, ?_⟩
        simpa using hc
      · cases h
    · cases h
  · cases h

theorem follows : Walk.Follows rule.handlers rewrite where
  enter k := by
    cases k <;> rfl
  exit ancestors slot n p := by
    cases n with
    | alternative es =>
      exact Walk.dispatch_typed (f := fun _ n => spliced? n) rfl rfl (fun _ _ => rfl) ancestors
        slot p
    | group kind e =>
      exact Walk.dispatch_typed (f := unwrapped?) rfl rfl (fun _ _ => rfl) ancestors slot p
    | _ => exact Walk.dispatch_untyped rfl rfl ancestors slot p

end Ungroup

/-! ### Rounds -/

/-- The replacements of the enabled rules, in order. -/
def rewrites (o : Options) (flags : Flags) : List Rewrite :=
  (if o.removeDegenerateQuantifiers then [Degenerate.rewrite] else []) ++
  (if o.quantifierFusion then [Fusion.rewrite] else []) ++
  (if o.ungroup then [Ungroup.rewrite] else []) ++
  (if o.normalizeClassRanges then [ClassRanges.rewrite flags] else [])

/-- The rules and the rewritings go together. -/
theorem rules_follow (o : Options) (flags : Flags) :
    List.Forall₂ (fun r f => Walk.Follows r.handlers f) (rules o flags) (rewrites o flags) := by
  have hif {b : Bool} {r : Rule} {f : Rewrite} (h : Walk.Follows r.handlers f) :
      List.Forall₂ (fun r f => Walk.Follows r.handlers f) (if b then [r] else [])
        (if b then [f] else []) := by
    cases b
    · exact .nil
    · exact .cons h .nil
  exact List.rel_append (List.rel_append (List.rel_append (hif Degenerate.follows)
    (hif Fusion.follows)) (hif Ungroup.follows)) (hif (ClassRanges.follows flags))

variable {R : Option NodeType → Node → Node → Prop}

/-- What every replacement keeps, rules in a row keep. -/
theorem runAll_keeps (hR : Rewrite.Congruence R) {rs : List Rule} {fs : List Rewrite}
    (hfollow : List.Forall₂ (fun r f => Walk.Follows r.handlers f) rs fs)
    (hf : ∀ f ∈ fs, ∀ parent n m, f parent n = some m → R parent n m) (n : Node) :
    R none n (Rule.runAll rs n).1 := by
  suffices h : ∀ (done : Node × PipelineStats), R none n done.1 →
      R none n (rs.foldl (fun done r =>
        let now := r.run done.1
        (now.1, done.2.add now.2)) done).1 from h _ (hR.refl none n)
  induction hfollow with
  | nil => exact fun done h => h
  | cons hr _ ih =>
    intro done h
    rw [List.foldl_cons]
    apply ih (fun f hf' => hf f (List.mem_cons_of_mem _ hf'))
    simp only [Rule.run_eq_up hr]
    exact hR.trans h (hR.up (hf _ List.mem_cons_self) none done.1)

theorem runRounds_keeps (hR : Rewrite.Congruence R) {rs : List Rule}
    (hround : ∀ n, R none n (Rule.runAll rs n).1) (cap : Nat) (n : Node) :
    R none n (runRounds rs cap n).1 := by
  induction cap generalizing n with
  | zero => exact hR.refl none n
  | succ cap ih =>
    simp only [runRounds]
    split
    · exact hround n
    · exact hR.trans (hround n) (ih _)

/-- What every replacement of an enabled rule keeps, the optimizer keeps. -/
theorem optimizeTree_keeps (hR : Rewrite.Congruence R) (o : Options) (n : Node)
    (hf : ∀ f ∈ rewrites o n.flags, ∀ parent a b, f parent a = some b → R parent a b) :
    R none n (optimizeTree o n).1 := by
  rw [optimizeTree]
  split
  · exact hR.refl none n
  · exact runRounds_keeps hR (runAll_keeps hR (rules_follow o n.flags) hf) _ n

/-- The same for a property of replacements that each of the four rules has. -/
theorem optimizeTree_keeps_of_rules (hR : Rewrite.Congruence R) (o : Options) (n : Node)
    (hd : ∀ parent a b, Degenerate.rewrite parent a = some b → R parent a b)
    (hq : ∀ parent a b, Fusion.rewrite parent a = some b → R parent a b)
    (hu : ∀ parent a b, Ungroup.rewrite parent a = some b → R parent a b)
    (hc : ∀ flags parent a b, ClassRanges.rewrite flags parent a = some b → R parent a b) :
    R none n (optimizeTree o n).1 := by
  refine optimizeTree_keeps hR o n fun f hf => ?_
  simp only [rewrites, List.mem_append] at hf
  rcases hf with ((hf | hf) | hf) | hf <;> split at hf <;>
    simp only [List.mem_singleton, List.not_mem_nil] at hf <;> subst hf
  · exact hd
  · exact hq
  · exact hu
  · exact hc _

end Optimizer

end RegexKit
