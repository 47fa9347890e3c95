import RegexKit.Node

/-! Measures of a tree: the number of its nodes, its height, the nodes in preorder, and the
capturing groups in it. -/

namespace RegexKit.Node

mutual

/-- The number of nodes, the node itself included. -/
def count : Node → Nat
  | regExp b _ => 1 + count b
  | alternative es => 1 + countList es
  | disjunction bs => 1 + countList bs
  | group _ e => 1 + count e
  | charClass _ ms => 1 + countList ms
  | repetition e _ _ _ => 1 + count e
  | backreference _ _ | assertion _ | char _ | classRange _ _ => 1

def countList : List Node → Nat
  | [] => 0
  | n :: ns => count n + countList ns

end

mutual

/-- The length of the longest path of nodes downwards. -/
def height : Node → Nat
  | regExp b _ => height b + 1
  | alternative es => heightList es + 1
  | disjunction bs => heightList bs + 1
  | group _ e => height e + 1
  | charClass _ ms => heightList ms + 1
  | repetition e _ _ _ => height e + 1
  | backreference _ _ | assertion _ | char _ | classRange _ _ => 1

def heightList : List Node → Nat
  | [] => 0
  | n :: ns => max (height n) (heightList ns)

end

mutual

/-- All nodes, each before its children. -/
def preorder : Node → List Node
  | n@(regExp b _) => n :: preorder b
  | n@(alternative es) => n :: preorderList es
  | n@(disjunction bs) => n :: preorderList bs
  | n@(group _ e) => n :: preorder e
  | n@(charClass _ ms) => n :: preorderList ms
  | n@(repetition e _ _ _) => n :: preorder e
  | n@(backreference _ _) | n@(assertion _) | n@(char _) | n@(classRange _ _) => [n]

def preorderList : List Node → List Node
  | [] => []
  | n :: ns => preorder n ++ preorderList ns

end

mutual

/-- The number and name of each capturing group, in preorder. -/
def captures : Node → List (Nat × Option Text)
  | regExp b _ => captures b
  | alternative es => capturesList es
  | disjunction bs => capturesList bs
  | group (.capturing number name) e => (number, name) :: captures e
  | group _ e => captures e
  | charClass _ ms => capturesList ms
  | repetition e _ _ _ => captures e
  | backreference _ _ | assertion _ | char _ | classRange _ _ => []

def capturesList : List Node → List (Nat × Option Text)
  | [] => []
  | n :: ns => captures n ++ capturesList ns

end

/-- A capturing group occurs in the tree. -/
def hasCapture (n : Node) : Bool := !n.captures.isEmpty

/-- The capturing groups of a root by their numbers; groups of one number keep their
order. -/
def captureGroups? : Node → Option (List (Nat × Option Text))
  | regExp b _ => some (b.captures.mergeSort fun x y => x.1 ≤ y.1)
  | _ => none

/-! ### Lists of nodes -/

theorem count_eq (n : Node) : n.count = 1 + countList n.children := by
  cases n <;> simp [count, children, countList]

theorem preorderList_eq (ns : List Node) : preorderList ns = ns.flatMap preorder := by
  induction ns with
  | nil => rfl
  | cons n ns ih => simp [preorderList, ih]

theorem preorder_eq (n : Node) : n.preorder = n :: n.children.flatMap preorder := by
  cases n <;> simp [preorder, children, preorderList_eq]

theorem capturesList_eq (ns : List Node) : capturesList ns = ns.flatMap captures := by
  induction ns with
  | nil => rfl
  | cons n ns ih => simp [capturesList, ih]

theorem height_pos (n : Node) : 0 < n.height := by cases n <;> simp [height]

theorem height_le_heightList {n : Node} {ns : List Node} (h : n ∈ ns) :
    n.height ≤ heightList ns := by
  induction ns with
  | nil => simp at h
  | cons m ms ih =>
    rcases List.mem_cons.1 h with rfl | h
    · exact Nat.le_max_left _ _
    · exact Nat.le_trans (ih h) (Nat.le_max_right _ _)

theorem height_lt_of_mem_children {n c : Node} (h : c ∈ n.children) : c.height < n.height := by
  cases n with
  | alternative es | disjunction es | charClass _ es =>
    exact Nat.lt_succ_of_le (height_le_heightList h)
  | regExp b _ | group _ b | repetition b _ _ _ =>
    obtain rfl := List.mem_singleton.1 h
    exact Nat.lt_succ_self _
  | backreference _ _ | assertion _ | char _ | classRange _ _ => cases h

mutual

theorem length_preorder : ∀ n : Node, n.preorder.length = n.count
  | regExp b _ => by simp [preorder, count, length_preorder b, Nat.add_comm]
  | alternative es => by simp [preorder, count, length_preorderList es, Nat.add_comm]
  | disjunction bs => by simp [preorder, count, length_preorderList bs, Nat.add_comm]
  | group _ e => by simp [preorder, count, length_preorder e, Nat.add_comm]
  | charClass _ ms => by simp [preorder, count, length_preorderList ms, Nat.add_comm]
  | repetition e _ _ _ => by simp [preorder, count, length_preorder e, Nat.add_comm]
  | backreference _ _ => by simp [preorder, count]
  | assertion _ => by simp [preorder, count]
  | char _ => by simp [preorder, count]
  | classRange _ _ => by simp [preorder, count]

theorem length_preorderList : ∀ ns : List Node, (preorderList ns).length = countList ns
  | [] => rfl
  | n :: ns => by simp [preorderList, countList, length_preorder n, length_preorderList ns]

end

end RegexKit.Node
