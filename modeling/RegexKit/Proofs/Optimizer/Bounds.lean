import RegexKit.Session
import RegexKit.Proofs.Host.Support
import RegexKit.Proofs.Optimizer.Readable

/-! The bounds of repetitions. A rule moves, copies or takes away repetitions, and fusion demands
one more copy of one; so every repetition that the optimizer leaves is one of the tree before with
some number of copies more, on both bounds alike. Bounds in order stay in order and words stay
words, and the printer finds nothing to refuse. -/

namespace RegexKit

/-- How often a repetition repeats. -/
structure Quantifier where
  min : Nat
  /-- Without upper bound when it is `none`. -/
  max : Option Nat
  greedy : Bool
  deriving DecidableEq, Repr

namespace Quantifier

/-- The repetition of a node. -/
def of (q : Quantifier) (e : Node) : Node := .repetition e q.min q.max q.greedy

/-- So many copies more. -/
def raise (q : Quantifier) (k : Nat) : Quantifier := ⟨q.min + k, q.max.map (· + k), q.greedy⟩

/-- One copy more, in the arithmetic of 32-bit words. -/
def raiseWord (q : Quantifier) : Quantifier :=
  ⟨(UInt32.ofNat q.min + 1).toNat, q.max.map fun m => (UInt32.ofNat m + 1).toNat, q.greedy⟩

/-- The lower bound is not above the upper one. -/
def InOrder (q : Quantifier) : Prop := ∀ m ∈ q.max, q.min ≤ m

/-- Both bounds are 32-bit words. -/
def IsWord (q : Quantifier) : Prop := q.min ≤ Numeral.max32 ∧ ∀ m ∈ q.max, m ≤ Numeral.max32

@[simp] theorem raise_zero (q : Quantifier) : q.raise 0 = q := by
  cases q with
  | mk min max greedy => simp [raise]

theorem raise_raise (q : Quantifier) (j k : Nat) : (q.raise j).raise k = q.raise (j + k) := by
  cases q with
  | mk min max greedy =>
    simp only [raise, Nat.add_assoc, Option.map_map]
    congr 2
    funext m
    exact Nat.add_assoc m j k

/-- As many copies more on both bounds leave them in order. -/
theorem InOrder.raise {q : Quantifier} (h : q.InOrder) (k : Nat) : (q.raise k).InOrder := by
  intro m hm
  obtain ⟨m, hmax, rfl⟩ := Option.map_eq_some_iff.1 hm
  exact Nat.add_le_add_right (h m hmax) k

/-- Below the largest word one more is the next word. -/
theorem toNat_word_succ {n : Nat} (h : n < Numeral.max32) : (UInt32.ofNat n + 1).toNat = n + 1 := by
  rw [Numeral.max32] at h
  rw [UInt32.toNat_add, UInt32.toNat_ofNat', UInt32.toNat_one]
  omega

/-- Bounds below the largest word are raised without leaving the words. -/
theorem raiseWord_eq {q : Quantifier} (hmin : q.min < Numeral.max32)
    (hmax : ∀ m ∈ q.max, m < Numeral.max32) :
    q.raiseWord = q.raise 1 ∧ (q.raise 1).IsWord := by
  refine ⟨?_, hmin, fun m hm => ?_⟩
  · have hword : q.max.map (fun m => (UInt32.ofNat m + 1).toNat) = q.max.map (· + 1) :=
      Option.map_congr fun m hm => toNat_word_succ (hmax m hm)
    rw [raiseWord, raise, hword, toNat_word_succ hmin]
  · obtain ⟨x, hx, rfl⟩ := Option.map_eq_some_iff.1 hm
    exact hmax x hx

end Quantifier

namespace Node

def quantifier? : Node → Option Quantifier
  | repetition _ min max greedy => some ⟨min, max, greedy⟩
  | _ => none

/-- The quantifiers of all repetitions in the tree. -/
def quantifiers (n : Node) : List Quantifier := n.preorder.filterMap quantifier?

variable {n m : Node} {ns ms : List Node} {q : Quantifier}

theorem mem_quantifiers : q ∈ n.quantifiers ↔ ∃ e, q.of e ∈ n.preorder := by
  rw [quantifiers, List.mem_filterMap]
  constructor
  · rintro ⟨m, hm, hq⟩
    cases m with
    | repetition e min max greedy =>
      cases hq
      exact ⟨e, hm⟩
    | _ => cases hq
  · rintro ⟨e, he⟩
    exact ⟨_, he, rfl⟩

/-- A quantifier of a tree is that of its root or one of a child. -/
theorem mem_quantifiers_iff :
    q ∈ n.quantifiers ↔ n.quantifier? = some q ∨ ∃ c ∈ n.children, q ∈ c.quantifiers := by
  rw [quantifiers, preorder_eq, List.mem_filterMap]
  simp only [List.mem_cons, List.mem_flatMap, quantifiers, List.mem_filterMap]
  constructor
  · rintro ⟨m, rfl | ⟨c, hc, hm⟩, hq⟩
    · exact .inl hq
    · exact .inr ⟨c, hc, m, hm, hq⟩
  · rintro (hq | ⟨c, hc, m, hm, hq⟩)
    · exact ⟨n, .inl rfl, hq⟩
    · exact ⟨m, .inr ⟨c, hc, hm⟩, hq⟩

theorem mem_quantifiers_of_mem_children {c : Node} (hc : c ∈ n.children)
    (hq : q ∈ c.quantifiers) : q ∈ n.quantifiers :=
  mem_quantifiers_iff.2 (.inr ⟨c, hc, hq⟩)

/-! ### Bounds that are printed -/

theorem inOrder_of_badBounds? (h : n.badBounds? = none) : ∀ q ∈ n.quantifiers, q.InOrder := by
  have hlist : ∀ ns : List Node, badBoundsList? ns = none → ∀ m ∈ ns, m.badBounds? = none := by
    intro ns hns
    induction ns with
    | nil => exact List.forall_mem_nil _
    | cons m ns ih =>
      rw [badBoundsList?, Option.or_eq_none_iff] at hns
      exact List.forall_mem_cons.2 ⟨hns.1, ih hns.2⟩
  intro q hq
  induction n with
  | regExp b _ ih | group _ b ih =>
    obtain hq | ⟨c, hc, hq⟩ := mem_quantifiers_iff.1 hq
    · cases hq
    · obtain rfl := List.mem_singleton.1 hc
      exact ih h hq
  | alternative ns ih | disjunction ns ih | charClass _ ns ih =>
    obtain hq | ⟨c, hc, hq⟩ := mem_quantifiers_iff.1 hq
    · cases hq
    · exact ih c hc (hlist ns h c hc) hq
  | repetition e min max greedy ih =>
    have hord : (∀ m ∈ max, min ≤ m) ∧ e.badBounds? = none := by
      cases max with
      | none => exact ⟨fun _ hm => (by cases hm), h⟩
      | some max =>
        rw [badBounds?] at h
        split at h
        · cases h
        · rename_i hle
          refine ⟨fun m hm => ?_, h⟩
          cases hm
          exact Nat.le_of_not_lt hle
    obtain hq | ⟨c, hc, hq'⟩ := mem_quantifiers_iff.1 hq
    · cases hq
      exact hord.1
    · obtain rfl := List.mem_singleton.1 hc
      exact ih hord.2 hq'
  | backreference _ _ | assertion _ | char _ | classRange _ _ => cases hq

/-- The printer refuses no tree in which all bounds are in order, and any other. -/
theorem badBounds?_eq_none_iff : n.badBounds? = none ↔ ∀ q ∈ n.quantifiers, q.InOrder :=
  ⟨inOrder_of_badBounds?, fun h => Host.badBounds?_of_le fun e min max greedy he =>
    h ⟨min, some max, greedy⟩ (mem_quantifiers.2 ⟨e, he⟩) max rfl⟩

theorem render_eq_ok (h : ∀ q ∈ n.quantifiers, q.InOrder) : n.render = .ok n.fullText := by
  rw [render, badBounds?_eq_none_iff.2 h]

end Node

namespace Optimizer

open Node (quantifiers mem_quantifiers_iff mem_quantifiers_of_mem_children)

/-! ### Repetitions with more copies -/

/-- Every repetition of the second tree is one of the first with some copies more, and it has words
for bounds when that one has. -/
def Raised (n m : Node) : Prop :=
  ∀ q ∈ m.quantifiers, ∃ p ∈ n.quantifiers, ∃ k, q = p.raise k ∧ (p.IsWord → q.IsWord)

variable {parent : Option NodeType} {a b c n m : Node} {ns ms : List Node}

theorem Raised.of_subset (h : m.quantifiers ⊆ n.quantifiers) : Raised n m :=
  fun q hq => ⟨q, h hq, 0, q.raise_zero.symm, id⟩

theorem Raised.trans (hab : Raised a b) (hbc : Raised b c) : Raised a c := by
  intro q hq
  obtain ⟨p, hp, k, rfl, hword⟩ := hbc q hq
  obtain ⟨r, hr, j, rfl, hword'⟩ := hab p hp
  exact ⟨r, hr, j + k, r.raise_raise j k, hword ∘ hword'⟩

theorem Raised.exists_of_mem (h : List.Forall₂ Raised ns ms) (hm : m ∈ ms) :
    ∃ n ∈ ns, Raised n m := by
  induction h with
  | nil => cases hm
  | cons hn _ ih =>
    rcases List.mem_cons.1 hm with rfl | hm
    · exact ⟨_, List.mem_cons_self, hn⟩
    · obtain ⟨n, hmem, hraised⟩ := ih hm
      exact ⟨n, List.mem_cons_of_mem _ hmem, hraised⟩

/-- A node takes its quantifiers over from its children. -/
theorem Raised.node (htype : m.quantifier? = n.quantifier?)
    (h : List.Forall₂ Raised n.children m.children) : Raised n m := by
  intro q hq
  obtain hq | ⟨c, hc, hq⟩ := mem_quantifiers_iff.1 hq
  · exact ⟨q, mem_quantifiers_iff.2 (.inl (htype ▸ hq)), 0, q.raise_zero.symm, id⟩
  · obtain ⟨d, hd, hraised⟩ := Raised.exists_of_mem h hc
    obtain ⟨p, hp, k, hqp, hword⟩ := hraised q hq
    exact ⟨p, mem_quantifiers_of_mem_children hd hp, k, hqp, hword⟩

theorem congruence_raised : Rewrite.Congruence fun _ n m => Raised n m where
  refl _ _ := .of_subset (List.Subset.refl _)
  trans := Raised.trans
  regExp _ h := .node rfl (.cons h .nil)
  alternative h := .node rfl h
  disjunction h := .node rfl h
  group _ h := .node rfl (.cons h .nil)
  charClass _ h := .node rfl h
  repetition _ _ _ h := .node rfl (.cons h .nil)

/-! ### The rules -/

theorem raised_degenerate (h : Degenerate.rewrite parent a = some b) : Raised a b := by
  obtain ⟨greedy, rfl⟩ := Degenerate.once?_eq_some h
  exact .of_subset fun q hq => mem_quantifiers_of_mem_children List.mem_cons_self hq

/-- Fusing demands one copy more, on both bounds, and in words as in numbers. -/
theorem fuse?_raises {previous : Node} (h : Fusion.fuse? previous n = some m) :
    ∃ q : Quantifier, n = q.of previous ∧ m = (q.raise 1).of previous ∧
      q.raiseWord = q.raise 1 ∧ (q.raise 1).IsWord := by
  obtain ⟨min, max, greedy, rfl, rfl, -, hmin, hmax⟩ := Fusion.fuse?_eq_some h
  have hmin : min < Numeral.max32 := of_decide_eq_true hmin
  have hmax : ∀ m ∈ max, m < Numeral.max32 := by
    intro m hm
    cases hm
    exact of_decide_eq_true hmax
  exact ⟨⟨min, max, greedy⟩, rfl, rfl, Quantifier.raiseWord_eq hmin hmax⟩

/-- What the parts of a sequence may have for quantifiers, a fused part may have. -/
theorem raised_fuse? {es : List Node} {previous : Node}
    (h : Fusion.fuse? previous n = some m) (hn : Raised (.alternative es) n) :
    Raised (.alternative es) m := by
  obtain ⟨q, rfl, rfl, -, hword⟩ := fuse?_raises h
  intro r hr
  obtain hr | ⟨c, hc, hr⟩ := mem_quantifiers_iff.1 hr
  · cases hr
    obtain ⟨p, hp, k, rfl, -⟩ := hn q (mem_quantifiers_iff.2 (.inl rfl))
    exact ⟨p, hp, k + 1, p.raise_raise k 1, fun _ => hword⟩
  · exact hn r (mem_quantifiers_of_mem_children (n := q.of previous) hc hr)

theorem raised_fusion (h : Fusion.rewrite parent a = some b) : Raised a b := by
  obtain ⟨es, rfl, hb⟩ := Fusion.fused?_eq_some h
  have hparts : ∀ e ∈ Fusion.fuseOnto [] es, Raised (.alternative es) e :=
    Fusion.forall_mem_fuseOnto (fun _ _ _ hm _ hn => raised_fuse? hm hn) nofun fun e he =>
      .of_subset fun q hq => mem_quantifiers_of_mem_children (n := .alternative es) he hq
  rcases hb with rfl | hb
  · intro q hq
    obtain hq | ⟨c, hc, hq⟩ := mem_quantifiers_iff.1 hq
    · cases hq
    · exact hparts c hc q hq
  · rw [hb] at hparts
    exact hparts b List.mem_cons_self

theorem raised_ungroup (h : Ungroup.rewrite parent a = some b) : Raised a b := by
  rcases Ungroup.rewrite_eq_some h with ⟨es, rfl, rfl⟩ | ⟨rfl, -⟩
  · refine .of_subset fun q hq => ?_
    obtain hq | ⟨k, hk, hq⟩ := mem_quantifiers_iff.1 hq
    · cases hq
    rcases Ungroup.mem_spliced hk with hk | ⟨e, he, ⟨fs, rfl, hk⟩ | ⟨rfl, -⟩⟩
    · exact mem_quantifiers_of_mem_children (n := .alternative es) hk hq
    · have hgroup : q ∈ (Node.group .nonCapturing (.alternative fs)).quantifiers :=
        mem_quantifiers_of_mem_children List.mem_cons_self
          (mem_quantifiers_of_mem_children (n := .alternative fs) hk hq)
      exact mem_quantifiers_of_mem_children (n := .alternative es) he hgroup
    · have hgroup : q ∈ (Node.group .nonCapturing k).quantifiers :=
        mem_quantifiers_of_mem_children List.mem_cons_self hq
      exact mem_quantifiers_of_mem_children (n := .alternative es) he hgroup
  · exact .of_subset fun q hq => mem_quantifiers_of_mem_children List.mem_cons_self hq

theorem raised_classRanges {flags : Flags} (h : ClassRanges.rewrite flags parent a = some b) :
    Raised a b := by
  obtain ⟨negated, ms, rfl, rfl⟩ := ClassRanges.rewrite_eq_some h
  refine .of_subset fun q hq => ?_
  obtain hq | ⟨m, hm, hq⟩ := mem_quantifiers_iff.1 hq
  · cases hq
  rcases ClassRanges.mem_normalForm hm with hm | ⟨low, high, -, rfl | rfl | rfl⟩
  · exact mem_quantifiers_of_mem_children (n := .charClass negated ms) hm hq
  · cases hq
  · cases hq
  · cases hq

theorem raised_optimizeTree (o : Options) (n : Node) : Raised n (optimizeTree o n).1 :=
  optimizeTree_keeps_of_rules congruence_raised o n (fun _ _ _ => raised_degenerate)
    (fun _ _ _ => raised_fusion) (fun _ _ _ => raised_ungroup) fun _ _ _ _ => raised_classRanges

/-! ### Optimized trees -/

theorem inOrder_optimizeTree (o : Options) (h : ∀ q ∈ n.quantifiers, q.InOrder) :
    ∀ q ∈ (optimizeTree o n).1.quantifiers, q.InOrder := by
  intro q hq
  obtain ⟨p, hp, k, rfl, -⟩ := raised_optimizeTree o n q hq
  exact (h p hp).raise k

theorem inOrder_of_parse {source : Text} (h : Source.parse source = .ok n) :
    ∀ q ∈ n.quantifiers, q.InOrder := by
  obtain ⟨body, flags, rfl, hwell, -⟩ := Source.exists_of_parse h
  have hbounds : body.badBounds? = none := Node.badBounds?_of_grammatical hwell.shape
  exact Node.inOrder_of_badBounds? (show (Node.regExp body flags).badBounds? = none from hbounds)

/-- The optimizer run over a tree again and again, each time with options of its own. -/
def optimizeAll (os : List Options) (n : Node) : Node :=
  os.foldl (fun t o => (optimizeTree o t).1) n

theorem inOrder_optimizeAll (os : List Options) (h : ∀ q ∈ n.quantifiers, q.InOrder) :
    ∀ q ∈ (optimizeAll os n).quantifiers, q.InOrder := by
  induction os generalizing n with
  | nil => exact h
  | cons o os ih => exact ih (inOrder_optimizeTree o h)

/-- Optimizing a source is not refused for its bounds when what is left can be printed. -/
theorem optimizeSource_ne_bounds {o : Options} {source : Text} {e : BoundsError}
    (h : ∀ n, Source.parse source = .ok n →
      (optimizeTree o n).1.render = .ok (optimizeTree o n).1.fullText) :
    optimizeSource o source ≠ .error (.bounds e) := by
  unfold optimizeSource
  cases hinvalid : o.isInvalid with
  | true =>
    intro h
    cases h
  | false =>
    cases hparse : Source.parse source with
    | error e' =>
      intro h
      cases h
    | ok n =>
      have hoptimize : optimize o n = .ok (optimizeTree o n).1 := by rw [optimize, hinvalid]; rfl
      have hof : Printed.of (optimizeTree o n).1 = .ok ⟨(optimizeTree o n).1,
          (optimizeTree o n).1.fullText, (optimizeTree o n).1.pattern,
          (optimizeTree o n).1.flags.text⟩ := by rw [Printed.of, h n hparse]; rfl
      change (optimize o n >>= Printed.of) ≠ _
      rw [hoptimize]
      change Printed.of (optimizeTree o n).1 ≠ _
      rw [hof]
      intro h
      cases h

/-- Bounds that are in order are left in order, and bounds that are words are left words: every
repetition that is left is one of the tree before with as many copies more on both bounds, and each
fusing adds exactly one, in 32-bit words as in numbers. So a source that is read is printed, as it
is and after any runs of the optimizer. -/
theorem optimizeTree_bounds :
    (∀ (o : Options) (n : Node),
      ((∀ q ∈ n.quantifiers, q.InOrder) → ∀ q ∈ (optimizeTree o n).1.quantifiers, q.InOrder) ∧
      ((∀ q ∈ n.quantifiers, q.IsWord) → ∀ q ∈ (optimizeTree o n).1.quantifiers, q.IsWord) ∧
      ∀ q ∈ (optimizeTree o n).1.quantifiers, ∃ p ∈ n.quantifiers, ∃ k, q = p.raise k) ∧
    (∀ previous n m, Fusion.fuse? previous n = some m →
      ∃ q : Quantifier, n = q.of previous ∧ m = (q.raise 1).of previous ∧
        q.raiseWord = q.raise 1 ∧ (q.raise 1).IsWord) ∧
    (∀ source n, Source.parse source = .ok n → ∀ os : List Options,
      (optimizeAll os n).render = .ok (optimizeAll os n).fullText) ∧
    ∀ (o : Options) (source : Text) (e : BoundsError),
      optimizeSource o source ≠ .error (.bounds e) := by
  have hprinted : ∀ source n, Source.parse source = .ok n → ∀ os : List Options,
      (optimizeAll os n).render = .ok (optimizeAll os n).fullText :=
    fun source n h os => Node.render_eq_ok (inOrder_optimizeAll os (inOrder_of_parse h))
  refine ⟨fun o n => ⟨inOrder_optimizeTree o, fun h q hq => ?_, fun q hq => ?_⟩,
    fun previous n m => fuse?_raises, hprinted, fun o source e => ?_⟩
  · obtain ⟨p, hp, -, -, hword⟩ := raised_optimizeTree o n q hq
    exact hword (h p hp)
  · obtain ⟨p, hp, k, hq, -⟩ := raised_optimizeTree o n q hq
    exact ⟨p, hp, k, hq⟩
  · exact optimizeSource_ne_bounds fun n h => hprinted source n h [o]

/-- Of `/aaa{0,4294967294}/` the optimizer leaves `/aa{1,4294967295}/`: the bounds have reached the
largest word, and the other copy stays before them. -/
theorem optimizeTree_bounds_at_limit :
    ∃ n, Source.parse ['/', 'a', 'a', 'a', '\x7b', '0', ',', '4', '2', '9', '4', '9', '6', '7', '2',
        '9', '4', '\x7d', '/'] = .ok n ∧
      (optimizeTree {} n).1.quantifiers = [⟨1, some 4294967295, true⟩] ∧
      Quantifier.IsWord ⟨1, some 4294967295, true⟩ ∧
      (optimizeAll [{}] n).render = .ok (optimizeAll [{}] n).fullText := by
  have hparse : Source.parse ['/', 'a', 'a', 'a', '\x7b', '0', ',', '4', '2', '9', '4', '9', '6',
      '7', '2', '9', '4', '\x7d', '/'] = .ok (.regExp (.alternative [.char (.simple 'a'),
        .char (.simple 'a'), .repetition (.char (.simple 'a')) 0 (some 4294967294) true]) {}) := by
    decide +kernel
  have hleft : (optimizeTree {} (.regExp (.alternative [.char (.simple 'a'), .char (.simple 'a'),
      .repetition (.char (.simple 'a')) 0 (some 4294967294) true]) {})).1.quantifiers =
      [⟨1, some 4294967295, true⟩] := by decide +kernel
  have hbefore : ∀ q ∈ (Node.regExp (.alternative [.char (.simple 'a'), .char (.simple 'a'),
      .repetition (.char (.simple 'a')) 0 (some 4294967294) true]) {}).quantifiers, q.IsWord := by
    intro q hq
    obtain rfl : q = ⟨0, some 4294967294, true⟩ := List.mem_singleton.1 hq
    exact ⟨by decide, fun m hm => by cases hm; decide⟩
  obtain ⟨hbounds, -, hprinted, -⟩ := optimizeTree_bounds
  refine ⟨_, hparse, hleft, (hbounds {} _).2.1 hbefore _ ?_, hprinted _ _ hparse [{}]⟩
  rw [hleft]
  exact List.mem_cons_self

end Optimizer

end RegexKit
