import Mathlib.Algebra.Ring.Nat
import RegexKit.Proofs.Node.Members
import RegexKit.Proofs.Optimizer.Rules
import RegexKit.Proofs.Walk.Places

/-! The measure that ends the rounds: the number of nodes that are not characters or ranges of a
class. Every replacement of a quantifier or of a group lowers it, and putting a class in order
leaves it as it is, since it touches nothing but such members. A class that is not in order has
such a member, so its tree has more nodes than its weight. -/

namespace RegexKit

namespace Node

/-! ### Sums over lists -/

section Total

variable {f : Node → Nat} {ns ms : List Node}

/-- The sum of the sizes of nodes. -/
def total (f : Node → Nat) (ns : List Node) : Nat := (ns.map f).sum

@[simp] theorem total_nil (f : Node → Nat) : total f [] = 0 := rfl

@[simp] theorem total_cons (f : Node → Nat) (n : Node) (ns : List Node) :
    total f (n :: ns) = f n + total f ns := rfl

@[simp] theorem total_append (f : Node → Nat) (ns ms : List Node) :
    total f (ns ++ ms) = total f ns + total f ms := by
  simp [total]

theorem total_mono (h : List.Forall₂ (fun n m => f m ≤ f n) ns ms) : total f ms ≤ total f ns := by
  induction h with
  | nil => exact Nat.le_refl _
  | cons hn _ ih =>
    rw [total_cons, total_cons]
    omega

end Total

/-! ### Weight -/

/-- The place of a character or a range of a class. -/
def isClassMember (p : Option NodeType × Node) : Bool :=
  p.1 == some .charClass && p.2.isMember

/-- The number of places that are not those of a character or a range of a class. -/
def weight (parent : Option NodeType) (n : Node) : Nat :=
  (n.places parent).countP fun p => !isClassMember p

def weightList (parent : Option NodeType) (ns : List Node) : Nat :=
  (placesList parent ns).countP fun p => !isClassMember p

variable {parent other : Option NodeType} {n m : Node} {ns ms : List Node}

@[simp] theorem weightList_nil (parent : Option NodeType) : weightList parent [] = 0 := rfl

@[simp] theorem weightList_cons (parent : Option NodeType) (n : Node) (ns : List Node) :
    weightList parent (n :: ns) = n.weight parent + weightList parent ns := by
  rw [weightList, placesList, List.countP_append, weight, weightList]

theorem weightList_eq_total (parent : Option NodeType) (ns : List Node) :
    weightList parent ns = total (weight parent) ns := by
  induction ns with
  | nil => rfl
  | cons n ns ih => rw [weightList_cons, total_cons, ih]

@[simp] theorem weightList_append (parent : Option NodeType) (ns ms : List Node) :
    weightList parent (ns ++ ms) = weightList parent ns + weightList parent ms := by
  simp only [weightList_eq_total, total_append]

/-- A node weighs one more than its children, unless it is a character or a range of a class. -/
theorem weight_eq (parent : Option NodeType) (n : Node) :
    n.weight parent =
      weightList (some n.type) n.children + if isClassMember (parent, n) then 0 else 1 := by
  rw [weight, places_eq, List.countP_cons, ← placesList_eq, weightList]
  cases isClassMember (parent, n) <;> rfl

/-- A node that is neither a character nor a range weighs one more than its children. -/
theorem weight_of_isMember_eq_false (h : n.isMember = false) :
    n.weight parent = weightList (some n.type) n.children + 1 := by
  rw [weight_eq, isClassMember, h, Bool.and_false]
  rfl

/-- Outside a class a node weighs at least as much as anywhere. -/
theorem weight_le (h : other ≠ some .charClass) : n.weight parent ≤ n.weight other := by
  have hother : isClassMember (other, n) = false := by simp [isClassMember, h]
  rw [weight_eq parent, weight_eq other, hother]
  split <;> simp

theorem weight_pos (h : parent ≠ some .charClass) : 0 < n.weight parent := by
  have hparent : isClassMember (parent, n) = false := by simp [isClassMember, h]
  rw [weight_eq, hparent]
  exact Nat.succ_pos _

/-- Characters and ranges of a class weigh nothing. -/
theorem weightList_eq_zero (h : ∀ m ∈ ms, m.isMember = true) :
    weightList (some .charClass) ms = 0 := by
  induction ms with
  | nil => rfl
  | cons m ms ih =>
    have hm := h m List.mem_cons_self
    have hweight : m.weight (some .charClass) = 0 := by
      cases m <;> first | rfl | cases hm
    rw [weightList_cons, hweight, ih fun k hk => h k (List.mem_cons_of_mem _ hk)]

/-- Leaving nodes out makes a list no heavier. -/
theorem weightList_sublist (h : ns.Sublist ms) (parent : Option NodeType) :
    weightList parent ns ≤ weightList parent ms := by
  induction h with
  | slnil => exact Nat.le_refl _
  | cons m _ ih =>
    rw [weightList_cons]
    omega
  | cons_cons m _ ih =>
    rw [weightList_cons, weightList_cons]
    omega

/-- Each place is one node. -/
theorem length_places (parent : Option NodeType) (n : Node) :
    (n.places parent).length = n.count := by
  rw [← length_preorder, ← map_snd_places parent, List.length_map]

theorem count_pos (n : Node) : 0 < n.count := by
  rw [count_eq]
  exact Nat.add_pos_left Nat.one_pos _

theorem weight_le_count (parent : Option NodeType) (n : Node) : n.weight parent ≤ n.count := by
  rw [← length_places parent]
  exact List.countP_le_length

/-- A tree with a character or a range in a class has more nodes than its weight. -/
theorem weight_lt_count {p : Option NodeType × Node} (hp : p ∈ n.places parent)
    (h : isClassMember p = true) : n.weight parent < n.count := by
  rw [← length_places parent]
  refine Nat.lt_of_le_of_ne List.countP_le_length fun heq => ?_
  have := List.countP_eq_length.1 heq p hp
  simp [h] at this

/-- Lighter children make a lighter node. -/
theorem congruence_weight_le :
    Rewrite.Congruence fun parent n m => m.weight parent ≤ n.weight parent := by
  have hlist : ∀ {parent : Option NodeType} {ns ms : List Node},
      List.Forall₂ (fun n m => m.weight parent ≤ n.weight parent) ns ms →
        weightList parent ms ≤ weightList parent ns := fun h => by
    simpa only [weightList_eq_total] using total_mono h
  have hnode : ∀ {parent : Option NodeType} {n m : Node}, n.isMember = false →
      m.isMember = false → m.type = n.type →
      weightList (some n.type) m.children ≤ weightList (some n.type) n.children →
        m.weight parent ≤ n.weight parent := by
    intro parent n m hn hm htype h
    rw [weight_of_isMember_eq_false hn, weight_of_isMember_eq_false hm, htype]
    exact Nat.succ_le_succ h
  exact {
    refl := fun _ _ => Nat.le_refl _
    trans := fun hab hbc => Nat.le_trans hbc hab
    regExp := fun _ h => hnode rfl rfl rfl (by simpa [children, Node.type] using h)
    alternative := fun h => hnode rfl rfl rfl (hlist h)
    disjunction := fun h => hnode rfl rfl rfl (hlist h)
    group := fun _ h => hnode rfl rfl rfl (by simpa [children, Node.type] using h)
    charClass := fun _ h => hnode rfl rfl rfl (hlist h)
    repetition := fun _ _ _ h => hnode rfl rfl rfl (by simpa [children, Node.type] using h) }

end Node

open Node

namespace Rewrite

/-! ### Replacements that lower the weight -/

variable {f : Rewrite} {parent : Option NodeType} {n : Node} {ns : List Node}

/-- Every replacement weighs less than the node it replaces. -/
def Lowers (f : Rewrite) : Prop :=
  ∀ parent n m, f parent n = some m → m.weight parent < n.weight parent

theorem Lowers.apply (hf : f.Lowers) (parent : Option NodeType) (n : Node) :
    (f.apply parent n).weight parent + f.hit parent n ≤ n.weight parent := by
  cases h : f parent n with
  | none => simp [Rewrite.apply, hit, h]
  | some m =>
    have := hf parent n m h
    simpa [Rewrite.apply, hit, h] using Nat.succ_le_of_lt this

theorem Lowers.upList (h : ∀ m ∈ ns, (f.up parent m).weight parent + f.hits parent m ≤
      m.weight parent) :
    weightList parent (f.upList parent ns) + f.hitsList parent ns ≤ weightList parent ns := by
  induction ns with
  | nil => exact Nat.le_refl _
  | cons m ns ih =>
    have hm := h m List.mem_cons_self
    have hns := ih fun k hk => h k (List.mem_cons_of_mem _ hk)
    rw [Rewrite.upList, hitsList, weightList_cons, weightList_cons]
    omega

/-- A node whose children were rewritten is rewritten itself and loses weight as they do. -/
theorem Lowers.node {n m : Node} {hits : Nat} (hf : f.Lowers) (hn : n.isMember = false)
    (hm : m.isMember = false) (htype : m.type = n.type)
    (h : weightList (some n.type) m.children + hits ≤ weightList (some n.type) n.children) :
    (f.apply parent m).weight parent + (hits + f.hit parent m) ≤ n.weight parent := by
  have happly := hf.apply parent m
  rw [weight_of_isMember_eq_false hm, htype] at happly
  rw [weight_of_isMember_eq_false hn]
  omega

/-- The whole rewriting lowers the weight by one for each replacement at least. -/
theorem Lowers.up (hf : f.Lowers) (parent : Option NodeType) (n : Node) :
    (f.up parent n).weight parent + f.hits parent n ≤ n.weight parent := by
  induction n generalizing parent with
  | regExp b _ ih | group _ b ih | repetition b _ _ _ ih =>
    rw [Rewrite.up, Rewrite.hits]
    refine hf.node rfl rfl rfl ?_
    simpa [children, Node.type] using ih _
  | alternative ns ih | disjunction ns ih | charClass _ ns ih =>
    rw [Rewrite.up, Rewrite.hits]
    exact hf.node rfl rfl rfl (Lowers.upList fun m hm => ih m hm _)
  | backreference _ _ | assertion _ | char _ | classRange _ _ => exact hf.apply parent _

end Rewrite

namespace Optimizer

/-! ### The rules -/

variable {parent : Option NodeType} {n m : Node}

theorem lowers_degenerate : Degenerate.rewrite.Lowers := by
  intro parent n m h
  obtain ⟨greedy, rfl⟩ := Degenerate.once?_eq_some h
  rw [weight_of_isMember_eq_false (n := .repetition m 1 (some 1) greedy) rfl]
  have hle : m.weight parent ≤ m.weight (some .repetition) := weight_le (by decide)
  simpa [children, Node.type] using Nat.lt_succ_of_le hle

/-- A fused repetition weighs as much as the one before. -/
theorem weight_fuse? {previous : Node} (h : Fusion.fuse? previous n = some m) :
    m.weight parent = n.weight parent := by
  obtain ⟨min, max, greedy, rfl, rfl, -⟩ := Fusion.fuse?_eq_some h
  rw [weight_of_isMember_eq_false rfl, weight_of_isMember_eq_false rfl]
  rfl

/-- Fusing never makes a sequence larger where a fused repetition is as large as the one before. -/
theorem total_fuseOnto_le {f : Node → Nat}
    (hf : ∀ {previous n m : Node}, Fusion.fuse? previous n = some m → f m = f n)
    (done ns : List Node) :
    total f (Fusion.fuseOnto done ns) ≤ total f done.reverse + total f ns := by
  induction ns generalizing done with
  | nil => simp [Fusion.fuseOnto]
  | cons n ns ih =>
    cases done with
    | nil => simpa [Fusion.fuseOnto] using ih [n]
    | cons previous rest =>
      rw [Fusion.fuseOnto]
      split
      · rename_i m hm
        have hfused := ih (m :: rest)
        simp only [List.reverse_cons, total_append, total_cons, total_nil, hf hm] at hfused ⊢
        omega
      · have hkept := ih (n :: previous :: rest)
        simp only [List.reverse_cons, total_append, total_cons, total_nil] at hkept ⊢
        omega

theorem weightList_fuseOnto_le (done ns : List Node) :
    weightList (some .alternative) (Fusion.fuseOnto done ns) ≤
      weightList (some .alternative) done.reverse + weightList (some .alternative) ns := by
  simpa only [weightList_eq_total] using total_fuseOnto_le weight_fuse? done ns

/-- A sequence with something to fuse gets lighter, by the copy that is taken up. -/
theorem weightList_fuseOnto_lt {previous : Node} {rest ns : List Node}
    (h : Fusion.canFuse (previous :: ns) = true) :
    weightList (some .alternative) (Fusion.fuseOnto (previous :: rest) ns) <
      weightList (some .alternative) (previous :: rest).reverse +
        weightList (some .alternative) ns := by
  induction ns generalizing previous rest with
  | nil => simp [Fusion.canFuse] at h
  | cons n ns ih =>
    rw [Fusion.fuseOnto]
    split
    · rename_i m hm
      have hfused := weightList_fuseOnto_le (m :: rest) ns
      have hcopy : 0 < previous.weight (some .alternative) := weight_pos (by decide)
      simp only [List.reverse_cons, weightList_append, weightList_cons, weightList_nil,
        weight_fuse? hm] at hfused ⊢
      omega
    · rename_i hnone
      have hlater : Fusion.canFuse (n :: ns) = true := by simpa [Fusion.canFuse, hnone] using h
      have hkept := @ih n (previous :: rest) hlater
      simp only [List.reverse_cons, weightList_append, weightList_cons, weightList_nil] at hkept ⊢
      omega

/-- The sequence has two neighbours to fuse when the rule replaces it. -/
theorem canFuse_of_fused? {es : List Node} (h : Fusion.fused? (.alternative es) = some m) :
    Fusion.canFuse es = true := by
  by_contra hnone
  simp [Fusion.fused?, hnone] at h

theorem weightList_fused {es : List Node} (h : Fusion.canFuse es = true) :
    weightList (some .alternative) (Fusion.fuseOnto [] es) <
      weightList (some .alternative) es := by
  cases es with
  | nil => cases h
  | cons e es => simpa [Fusion.fuseOnto] using @weightList_fuseOnto_lt e [] es h

theorem lowers_fusion : Fusion.rewrite.Lowers := by
  intro parent n m h
  obtain ⟨es, rfl, hm⟩ := Fusion.fused?_eq_some h
  have hlt := weightList_fused (canFuse_of_fused? h)
  rw [weight_of_isMember_eq_false (n := .alternative es) rfl]
  rcases hm with rfl | hm
  · rw [weight_of_isMember_eq_false rfl]
    exact Nat.succ_lt_succ hlt
  · have hle : m.weight parent ≤ m.weight (some .alternative) := weight_le (by decide)
    rw [hm, weightList_cons, weightList_nil] at hlt
    exact Nat.lt_succ_of_lt (Nat.lt_of_le_of_lt hle hlt)

/-- The items of a group weigh less than the group. -/
theorem weightList_items? {es : List Node} (h : Ungroup.items? n = some es) :
    weightList (some .alternative) es < n.weight (some .alternative) := by
  obtain ⟨e, rfl, rfl | ⟨rfl, -⟩⟩ := Ungroup.items?_eq_some h
  · rw [weight_of_isMember_eq_false rfl]
    simp only [children, Node.type, weightList_cons, weightList_nil]
    rw [weight_of_isMember_eq_false rfl]
    simp only [children, Node.type]
    omega
  · have hle : e.weight (some .alternative) ≤ e.weight (some .group) := weight_le (by decide)
    rw [weight_of_isMember_eq_false (n := .group .nonCapturing e) rfl]
    simpa [children, Node.type] using Nat.lt_succ_of_le hle

/-- Splicing groups into a sequence makes it smaller, by one for each group at least, where a group
is larger than its items. -/
theorem total_spliced_le {f : Node → Nat}
    (hf : ∀ {n : Node} {es : List Node}, Ungroup.items? n = some es → total f es < f n)
    (es : List Node) :
    total f (es.flatMap fun e => (Ungroup.items? e).getD [e]) +
      (es.filter fun e => (Ungroup.items? e).isSome).length ≤ total f es := by
  induction es with
  | nil => exact Nat.le_refl _
  | cons e es ih =>
    rw [List.flatMap_cons, total_append, total_cons]
    cases hitems : Ungroup.items? e with
    | none =>
      rw [List.filter_cons_of_neg (by simp [hitems])]
      simp only [Option.getD_none, total_cons, total_nil]
      omega
    | some fs =>
      have hlt := hf hitems
      rw [List.filter_cons_of_pos (by simp [hitems]), List.length_cons, Option.getD_some]
      omega

theorem lowers_ungroup : Ungroup.rewrite.Lowers := by
  intro parent n m h
  rcases Ungroup.rewrite_eq_some h with ⟨es, rfl, rfl⟩ | ⟨rfl, -, -⟩
  · have hany : (es.any fun e => (Ungroup.items? e).isSome) = true := by
      by_contra hnone
      simp [Ungroup.rewrite, Ungroup.spliced?, hnone] at h
    have hpos : 0 < (es.filter fun e => (Ungroup.items? e).isSome).length := by
      obtain ⟨e, he, hitems⟩ := List.any_eq_true.1 hany
      exact List.length_pos_of_mem (List.mem_filter.2 ⟨he, hitems⟩)
    have hle := total_spliced_le (f := weight (some .alternative))
      (fun hitems => by simpa only [weightList_eq_total] using weightList_items? hitems) es
    rw [← weightList_eq_total, ← weightList_eq_total] at hle
    rw [weight_of_isMember_eq_false rfl, weight_of_isMember_eq_false rfl]
    simp only [children, Node.type]
    omega
  · have hle : m.weight parent ≤ m.weight (some .group) := weight_le (by decide)
    rw [weight_of_isMember_eq_false (n := .group .nonCapturing m) rfl]
    simpa [children, Node.type] using Nat.lt_succ_of_le hle

end Optimizer

end RegexKit
