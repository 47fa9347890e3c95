import RegexKit.Proofs.Node.Induction
import RegexKit.Proofs.Walk.BottomUp

/-! Trees that a rewriting leaves as they are. A place is a node with the kind of its parent; a
rewriting that replaces the node of no place makes no replacements and gives the tree back, and
the other way round. -/

namespace RegexKit

namespace Node

mutual

/-- All nodes with the kinds of their parents, each before its children. -/
def places (parent : Option NodeType) : Node → List (Option NodeType × Node)
  | n@(regExp b _) => (parent, n) :: places (some .regExp) b
  | n@(alternative es) => (parent, n) :: placesList (some .alternative) es
  | n@(disjunction bs) => (parent, n) :: placesList (some .disjunction) bs
  | n@(group _ e) => (parent, n) :: places (some .group) e
  | n@(charClass _ ms) => (parent, n) :: placesList (some .charClass) ms
  | n@(repetition e _ _ _) => (parent, n) :: places (some .repetition) e
  | n@(backreference _ _) | n@(assertion _) | n@(char _) | n@(classRange _ _) => [(parent, n)]

def placesList (parent : Option NodeType) : List Node → List (Option NodeType × Node)
  | [] => []
  | n :: ns => places parent n ++ placesList parent ns

end

theorem placesList_eq (parent : Option NodeType) (ns : List Node) :
    placesList parent ns = ns.flatMap (places parent) := by
  induction ns with
  | nil => rfl
  | cons n ns ih => rw [placesList, List.flatMap_cons, ih]

/-- The places of a tree are its root and the places of its children. -/
theorem places_eq (parent : Option NodeType) (n : Node) :
    n.places parent = (parent, n) :: n.children.flatMap (places (some n.type)) := by
  cases n <;> simp [places, placesList_eq, children, type]

theorem self_mem_places (parent : Option NodeType) (n : Node) : (parent, n) ∈ n.places parent := by
  rw [places_eq]
  exact List.mem_cons_self

/-- The children of a place have places of their own. -/
theorem mem_places_of_mem_children {parent : Option NodeType} {n c : Node}
    {p : Option NodeType × Node} (hp : p ∈ n.places parent) (hc : c ∈ p.2.children) :
    (some p.2.type, c) ∈ n.places parent := by
  have hstep (n : Node) (parent : Option NodeType)
      (ih : ∀ d ∈ n.children, ∀ q, p ∈ d.places q → (some p.2.type, c) ∈ d.places q)
      (hp : p ∈ n.places parent) : (some p.2.type, c) ∈ n.places parent := by
    rw [places_eq] at hp ⊢
    refine List.mem_cons_of_mem _ (List.mem_flatMap.2 ?_)
    rcases List.mem_cons.1 hp with rfl | hp
    · exact ⟨c, hc, self_mem_places _ _⟩
    · obtain ⟨d, hd, hp⟩ := List.mem_flatMap.1 hp
      exact ⟨d, hd, ih d hd _ hp⟩
  induction n generalizing parent with
  | regExp b _ ih | group _ b ih | repetition b _ _ _ ih =>
    refine hstep _ parent (fun d hd q => ?_) hp
    obtain rfl := List.mem_singleton.1 hd
    exact ih
  | alternative ns ih | disjunction ns ih | charClass _ ns ih =>
    exact hstep _ parent (fun d hd q => ih d hd) hp
  | backreference _ _ | assertion _ | char _ | classRange _ _ =>
    exact hstep _ parent (fun _ hd => nomatch hd) hp

/-- The nodes of the places are the nodes of the tree. -/
theorem map_snd_places (parent : Option NodeType) (n : Node) :
    (n.places parent).map Prod.snd = n.preorder := by
  have hlist : ∀ (p : Option NodeType) (ns : List Node),
      (∀ m ∈ ns, ∀ q, (m.places q).map Prod.snd = m.preorder) →
      (placesList p ns).map Prod.snd = preorderList ns := by
    intro p ns h
    induction ns with
    | nil => rfl
    | cons m ns ih =>
      rw [placesList, List.map_append, h m List.mem_cons_self,
        ih fun k hk => h k (List.mem_cons_of_mem _ hk), preorderList]
  induction n generalizing parent with
  | regExp b _ ih | group _ b ih | repetition b _ _ _ ih => simp [places, preorder, ih]
  | alternative ns ih | disjunction ns ih | charClass _ ns ih =>
    simp [places, preorder, hlist _ ns fun m hm q => ih m hm q]
  | backreference _ _ | assertion _ | char _ | classRange _ _ => rfl

end Node

namespace Rewrite

variable {f : Rewrite} {parent : Option NodeType} {n : Node} {ns : List Node}

theorem hit_eq_zero_iff : f.hit parent n = 0 ↔ f parent n = none := by
  cases h : f parent n <;> simp [hit, h]

theorem apply_of_eq_none (h : f parent n = none) : f.apply parent n = n := by
  rw [apply, h, Option.getD_none]

theorem hitsList_eq_zero_iff : f.hitsList parent ns = 0 ↔ ∀ m ∈ ns, f.hits parent m = 0 := by
  induction ns with
  | nil => simp [hitsList]
  | cons m ns ih => simp [hitsList, ih]

theorem upList_eq (parent : Option NodeType) (ns : List Node) :
    f.upList parent ns = ns.map (f.up parent) := by
  induction ns with
  | nil => rfl
  | cons m ns ih => rw [upList, List.map_cons, ih]

theorem upList_eq_self (h : ∀ m ∈ ns, f.up parent m = m) : f.upList parent ns = ns := by
  rw [upList_eq, List.map_congr_left h, List.map_id']

/-- A rewriting that replaces nothing gives the tree back. -/
theorem up_of_hits_eq_zero (h : f.hits parent n = 0) : f.up parent n = n := by
  induction n generalizing parent with
  | regExp b _ ih | group _ b ih | repetition b _ _ _ ih =>
    simp only [hits, Nat.add_eq_zero_iff, hit_eq_zero_iff] at h
    rw [up, apply_of_eq_none h.2, ih h.1]
  | alternative ns ih | disjunction ns ih | charClass _ ns ih =>
    simp only [hits, Nat.add_eq_zero_iff, hit_eq_zero_iff, hitsList_eq_zero_iff] at h
    rw [up, apply_of_eq_none h.2, upList_eq_self fun m hm => ih m hm (h.1 m hm)]
  | backreference _ _ | assertion _ | char _ | classRange _ _ =>
    rw [up, apply_of_eq_none (hit_eq_zero_iff.1 h)]

/-- A rewriting replaces nothing when it replaces neither anything below the node nor the node. -/
theorem hits_eq_zero_iff_children :
    f.hits parent n = 0 ↔ (∀ c ∈ n.children, f.hits (some n.type) c = 0) ∧ f parent n = none := by
  cases n with
  | regExp b _ | group _ b | repetition b _ _ _ =>
    simp only [hits, Nat.add_eq_zero_iff, hit_eq_zero_iff, Node.children, Node.type,
      List.forall_mem_singleton]
    exact and_congr_right fun h => by rw [up_of_hits_eq_zero h]
  | alternative ns | disjunction ns | charClass _ ns =>
    simp only [hits, Nat.add_eq_zero_iff, hit_eq_zero_iff, Node.children, Node.type,
      hitsList_eq_zero_iff]
    exact and_congr_right fun h => by rw [upList_eq_self fun m hm => up_of_hits_eq_zero (h m hm)]
  | backreference _ _ | assertion _ | char _ | classRange _ _ =>
    simp [hits, hit_eq_zero_iff, Node.children]

/-- A rewriting replaces nothing exactly when it replaces the node of no place. -/
theorem hits_eq_zero_iff : f.hits parent n = 0 ↔ ∀ p ∈ n.places parent, f p.1 p.2 = none := by
  have hchildren (n : Node) (parent : Option NodeType)
      (ih : ∀ c ∈ n.children, ∀ q, f.hits q c = 0 ↔ ∀ p ∈ c.places q, f p.1 p.2 = none) :
      f.hits parent n = 0 ↔ ∀ p ∈ n.places parent, f p.1 p.2 = none := by
    rw [hits_eq_zero_iff_children, Node.places_eq, List.forall_mem_cons, List.forall_mem_flatMap,
      and_comm]
    exact and_congr_right fun _ => forall₂_congr fun c hc => ih c hc _
  induction n generalizing parent with
  | regExp b _ ih | group _ b ih | repetition b _ _ _ ih =>
    refine hchildren _ parent fun c hc q => ?_
    obtain rfl := List.mem_singleton.1 hc
    exact ih
  | alternative ns ih | disjunction ns ih | charClass _ ns ih =>
    exact hchildren _ parent fun c hc q => ih c hc
  | backreference _ _ | assertion _ | char _ | classRange _ _ =>
    exact hchildren _ parent fun c hc => nomatch hc

/-- A rewriting that leaves a settled node above settled children settles the whole tree. -/
theorem hits_up_eq_zero
    (h : ∀ parent n, (∀ c ∈ n.children, f.hits (some n.type) c = 0) →
      f.hits parent (f.apply parent n) = 0)
    (parent : Option NodeType) (n : Node) : f.hits parent (f.up parent n) = 0 := by
  have hlist : ∀ (q : Option NodeType) (ns : List Node),
      (∀ m ∈ ns, f.hits q (f.up q m) = 0) → ∀ c ∈ f.upList q ns, f.hits q c = 0 := by
    intro q ns hns
    rw [upList_eq]
    exact List.forall_mem_map.2 hns
  induction n generalizing parent with
  | regExp b _ ih | group _ b ih | repetition b _ _ _ ih =>
    exact h parent _ (List.forall_mem_singleton.2 (ih _))
  | alternative ns ih | disjunction ns ih | charClass _ ns ih =>
    exact h parent _ (hlist _ ns fun m hm => ih m hm _)
  | backreference _ _ | assertion _ | char _ | classRange _ _ =>
    exact h parent _ fun _ hc => nomatch hc

end Rewrite

end RegexKit
