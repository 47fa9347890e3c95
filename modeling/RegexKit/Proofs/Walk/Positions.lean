import RegexKit.Walk

/-! Positions in a tree, as the slots on the way down from the root, and the frames around a node
on that way. A frame is a parent with the children before and after the node; stacking frames
gives the whole tree. What is found at a position, the kinds on the way to it and an edit at it
are read off the frames. -/

namespace RegexKit

namespace Node

/-! ### Children and their slots -/

/-- The slot of the child with so many children before it. -/
def slotAt (n : Node) (i : Nat) : Slot :=
  match n with
  | regExp _ _ => .body
  | group _ _ | repetition _ _ _ _ => .expression
  | _ => .index i

/-- The child in a slot. -/
def child? (n : Node) (slot : Slot) : Option Node :=
  match n, slot with
  | regExp b _, .body => some b
  | group _ e, .expression | repetition e _ _ _, .expression => some e
  | alternative ns, .index i | disjunction ns, .index i | charClass _ ns, .index i => ns[i]?
  | _, _ => none

/-- The list with an item replaced, or left out. -/
def putItem (ns : List Node) (i : Nat) (m : Option Node) : List Node :=
  ns.take i ++ m.toList ++ ns.drop (i + 1)

/-- The node with another child in a slot, or without the child: a list closes the gap, and an
only child gives way to the empty alternative. -/
def putChild (n : Node) (slot : Slot) (m : Option Node) : Node :=
  match n, slot with
  | regExp _ flags, .body => regExp (m.getD empty) flags
  | group kind _, .expression => group kind (m.getD empty)
  | repetition _ min max greedy, .expression => repetition (m.getD empty) min max greedy
  | alternative ns, .index i => alternative (putItem ns i m)
  | disjunction ns, .index i => disjunction (putItem ns i m)
  | charClass negated ns, .index i => charClass negated (putItem ns i m)
  | _, _ => n

/-- The node with other children; an only child that is missing is the empty alternative. -/
def withChildren (n : Node) (cs : List Node) : Node :=
  match n with
  | regExp _ flags => regExp (cs.headD empty) flags
  | group kind _ => group kind (cs.headD empty)
  | repetition _ min max greedy => repetition (cs.headD empty) min max greedy
  | alternative _ => alternative cs
  | disjunction _ => disjunction cs
  | charClass negated _ => charClass negated cs
  | _ => n

@[simp] theorem withChildren_children (n : Node) : n.withChildren n.children = n := by
  cases n <;> rfl

@[simp] theorem type_withChildren (n : Node) (cs : List Node) :
    (n.withChildren cs).type = n.type := by
  cases n <;> rfl

/-! ### Positions -/

/-- The node at a position. -/
def at? : List Slot → Node → Option Node
  | [], n => some n
  | s :: ss, n => (n.child? s).bind (at? ss)

/-- The kinds of the nodes above a position, from the root down. -/
def typesTo : List Slot → Node → List NodeType
  | [], _ => []
  | s :: ss, n => n.type :: ((n.child? s).map (typesTo ss)).getD []

/-- The tree with another node at a position, or without the node there. The root cannot be
left out. -/
def putAt (m : Option Node) : List Slot → Node → Option Node
  | [], _ => m
  | s :: ss, n => (n.child? s).map fun c => n.putChild s (putAt m ss c)

variable {n c d : Node} {ss : List Slot} {s : Slot}

theorem at?_concat (h : at? ss n = some c) : at? (ss ++ [s]) n = c.child? s := by
  induction ss generalizing n with
  | nil =>
    cases h
    cases hd : c.child? s <;> simp [at?, hd]
  | cons s' ss ih =>
    obtain ⟨d, hd, hc⟩ := Option.bind_eq_some_iff.1 h
    simp only [List.cons_append, at?, hd, Option.bind_some, ih hc]

theorem typesTo_concat (h : at? ss n = some c) :
    typesTo (ss ++ [s]) n = typesTo ss n ++ [c.type] := by
  induction ss generalizing n with
  | nil =>
    cases h
    cases hd : c.child? s <;> simp [typesTo, hd]
  | cons s' ss ih =>
    obtain ⟨d, hd, hc⟩ := Option.bind_eq_some_iff.1 h
    simp only [List.cons_append, typesTo, hd, Option.map_some, Option.getD_some, ih hc]

/-- An edit of a child is an edit of the node that holds it. -/
theorem putAt_concat (h : at? ss n = some c) (hd : c.child? s = some d) (m : Option Node) :
    putAt m (ss ++ [s]) n = putAt (some (c.putChild s m)) ss n := by
  induction ss generalizing n with
  | nil =>
    cases h
    simp [putAt, hd]
  | cons s' ss ih =>
    obtain ⟨e, he, hc⟩ := Option.bind_eq_some_iff.1 h
    simp only [List.cons_append, putAt, he, Option.map_some, ih hc]

end Node

namespace Walk

open Node

/-! ### Frames -/

/-- The surroundings of a node: its parent, and the children before and after it. -/
structure Frame where
  parent : Node
  before : List Node
  after : List Node

namespace Frame

variable {f : Frame} {n m : Node}

def slot (f : Frame) : Slot := f.parent.slotAt f.before.length

/-- The parent with the node among its children. -/
def fill (f : Frame) (n : Node) : Node := f.parent.withChildren (f.before ++ n :: f.after)

/-- The parent without the node. -/
def close (f : Frame) : Node := f.parent.withChildren (f.before ++ f.after)

/-- The parent has room for the node. -/
def Fits (f : Frame) : Prop := f.before.length + f.after.length < f.parent.children.length

/-- An only child has no other children beside it. -/
theorem Fits.alone (h : f.Fits) {c : Node} (hc : f.parent.children = [c]) :
    f.before = [] ∧ f.after = [] := by
  rw [Fits, hc, List.length_singleton] at h
  exact ⟨List.length_eq_zero_iff.1 (by omega), List.length_eq_zero_iff.1 (by omega)⟩

theorem putItem_append (before after : List Node) (n : Node) (m : Option Node) :
    putItem (before ++ n :: after) before.length m = before ++ m.toList ++ after := by
  simp [putItem, List.drop_append]

theorem type_fill (f : Frame) (n : Node) : (f.fill n).type = f.parent.type :=
  type_withChildren _ _

theorem child?_fill (h : f.Fits) (n : Node) : (f.fill n).child? f.slot = some n := by
  obtain ⟨parent, before, after⟩ := f
  cases parent with
  | regExp _ _ | group _ _ | repetition _ _ _ _ =>
    obtain ⟨rfl, rfl⟩ := h.alone rfl
    rfl
  | alternative ns | disjunction ns | charClass _ ns =>
    simp [fill, slot, withChildren, slotAt, child?]
  | backreference _ _ | assertion _ | char _ | classRange _ _ => cases h

/-- Editing the node in its frame: another node takes its place, or the frame closes. -/
theorem putChild_fill (h : f.Fits) (n : Node) (m : Option Node) :
    (f.fill n).putChild f.slot m = (m.map f.fill).getD f.close := by
  obtain ⟨parent, before, after⟩ := f
  cases parent with
  | regExp _ _ | group _ _ | repetition _ _ _ _ =>
    obtain ⟨rfl, rfl⟩ := h.alone rfl
    cases m <;> rfl
  | alternative ns | disjunction ns | charClass _ ns =>
    cases m <;> simp [fill, close, slot, withChildren, slotAt, putChild, putItem_append]
  | backreference _ _ | assertion _ | char _ | classRange _ _ => cases h

end Frame

/-! ### Stacked frames -/

/-- The tree around a node, from its frames, the nearest first. -/
def plug : List Frame → Node → Node
  | [], n => n
  | f :: fs, n => plug fs (f.fill n)

/-- The tree after an edit of the node in the frames, unless the root is left out. -/
def plugOr : List Frame → Option Node → Option Node
  | fs, some m => some (plug fs m)
  | f :: fs, none => some (plug fs f.close)
  | [], none => none

theorem plugOr_cons (f : Frame) (fs : List Frame) (m : Option Node) :
    plugOr (f :: fs) m =
      some (plug fs (f.parent.withChildren (f.before ++ m.toList ++ f.after))) := by
  cases m with
  | none => rw [Option.toList_none, List.append_nil, plugOr, Frame.close]
  | some m => rw [Option.toList_some, List.append_assoc, List.singleton_append, plugOr, plug,
      Frame.fill]

/-- The slots from the root to the node. -/
def position (fs : List Frame) : List Slot := (fs.map Frame.slot).reverse

/-- The kinds of the nodes above, from the root down. -/
def kinds (fs : List Frame) : List NodeType := (fs.map fun f => f.parent.type).reverse

/-- The slot of the node. -/
def slotOf : List Frame → Slot
  | [] => .root
  | f :: _ => f.slot

variable {fs : List Frame}

theorem at?_plug (h : ∀ f ∈ fs, f.Fits) (n : Node) : at? (position fs) (plug fs n) = some n := by
  induction fs generalizing n with
  | nil => rfl
  | cons f fs ih =>
    obtain ⟨hf, hfs⟩ := List.forall_mem_cons.1 h
    rw [position, List.map_cons, List.reverse_cons, ← position, plug,
      at?_concat (ih hfs (f.fill n)), f.child?_fill hf]

theorem typesTo_plug (h : ∀ f ∈ fs, f.Fits) (n : Node) :
    typesTo (position fs) (plug fs n) = kinds fs := by
  induction fs generalizing n with
  | nil => rfl
  | cons f fs ih =>
    obtain ⟨hf, hfs⟩ := List.forall_mem_cons.1 h
    rw [position, List.map_cons, List.reverse_cons, ← position, plug,
      typesTo_concat (at?_plug hfs (f.fill n)), ih hfs, f.type_fill, kinds, kinds, List.map_cons,
      List.reverse_cons]

theorem getLast?_position (fs : List Frame) :
    (position fs).getLast?.getD .root = slotOf fs := by
  cases fs <;> simp [position, slotOf]

/-- Editing the tree at the position of a node is editing the node in its frames. -/
theorem putAt_plug (h : ∀ f ∈ fs, f.Fits) (n : Node) (m : Option Node) :
    putAt m (position fs) (plug fs n) = plugOr fs m := by
  induction fs generalizing n m with
  | nil => cases m <;> rfl
  | cons f fs ih =>
    obtain ⟨hf, hfs⟩ := List.forall_mem_cons.1 h
    rw [position, List.map_cons, List.reverse_cons, ← position, plug,
      putAt_concat (at?_plug hfs (f.fill n)) (f.child?_fill hf n), f.putChild_fill hf, ih hfs]
    cases m <;> rfl

end Walk

end RegexKit
