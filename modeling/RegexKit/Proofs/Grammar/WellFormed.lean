import RegexKit.Node.Parser
import RegexKit.Node.Printer

/-! The grammar of patterns. A tree yields a list of tokens, read off from left to right, and
a tree is well formed when no list is collapsible, every quantifier stands behind an atom,
every class reads as written, groups are numbered in the order in which they open and
every reference carries the number of a group. Well-formed trees are what the reader of token
lists makes; nothing here mentions how it does so. -/

namespace RegexKit

/-- The token that opens a group of a kind. -/
def GroupKind.opener : GroupKind → GroupOpen
  | capturing _ none => .capturing
  | capturing _ (some name) => .named name
  | nonCapturing => .nonCapturing
  | lookahead => .lookahead
  | negativeLookahead => .negativeLookahead
  | lookbehind => .lookbehind
  | negativeLookbehind => .negativeLookbehind

namespace Node

/-! ### Yield -/

/-- The token of the dash between the ends of a range. -/
def dash : TokenKind := .char (.simple '-')

mutual

/-- The tokens of a tree in order. -/
def yield : Node → List TokenKind
  | regExp b _ => yield b
  | alternative es => yieldList es
  | disjunction bs => yieldBranches bs
  | group kind e => .groupOpen kind.opener :: yield e ++ [.groupClose]
  | backreference target _ => [.backreference target]
  | assertion kind => [.assertion kind]
  | char c => [.char c]
  | charClass negated ms => .classOpen negated :: yieldList ms ++ [.classClose]
  | classRange low high => [.char low, dash, .char high]
  | repetition e min max greedy => yield e ++ [.quantifier min max greedy]

/-- The tokens of nodes one after the other. -/
def yieldList : List Node → List TokenKind
  | [] => []
  | n :: ns => yield n ++ yieldList ns

/-- The tokens of branches, each but the first after a bar. -/
def yieldBranches : List Node → List TokenKind
  | [] => []
  | n :: ns => yield n ++ yieldMore ns

/-- The tokens of further branches, each after a bar. -/
def yieldMore : List Node → List TokenKind
  | [] => []
  | n :: ns => .bar :: yield n ++ yieldMore ns

end

theorem yieldList_append (ns ms : List Node) :
    yieldList (ns ++ ms) = yieldList ns ++ yieldList ms := by
  induction ns with
  | nil => rfl
  | cons n ns ih => simp [yieldList, ih]

theorem yieldMore_append (ns ms : List Node) :
    yieldMore (ns ++ ms) = yieldMore ns ++ yieldMore ms := by
  induction ns with
  | nil => rfl
  | cons n ns ih => simp [yieldMore, ih]

/-! ### What a tree refers to and how deep its groups nest -/

mutual

/-- The targets of all references with their numbers, in preorder. -/
def references : Node → List (RefTarget × Nat)
  | regExp b _ => references b
  | alternative es => referencesList es
  | disjunction bs => referencesList bs
  | group _ e => references e
  | backreference target number => [(target, number)]
  | charClass _ ms => referencesList ms
  | repetition e _ _ _ => references e
  | assertion _ | char _ | classRange _ _ => []

def referencesList : List Node → List (RefTarget × Nat)
  | [] => []
  | n :: ns => references n ++ referencesList ns

end

mutual

/-- The largest number of groups around any place of the tree. -/
def groupDepth : Node → Nat
  | regExp b _ => groupDepth b
  | alternative es => groupDepthList es
  | disjunction bs => groupDepthList bs
  | group _ e => groupDepth e + 1
  | charClass _ ms => groupDepthList ms
  | repetition e _ _ _ => groupDepth e
  | backreference _ _ | assertion _ | char _ | classRange _ _ => 0

def groupDepthList : List Node → Nat
  | [] => 0
  | n :: ns => max (groupDepth n) (groupDepthList ns)

end

theorem groupDepthList_le {ns : List Node} {k : Nat} :
    groupDepthList ns ≤ k ↔ ∀ n ∈ ns, n.groupDepth ≤ k := by
  induction ns with
  | nil => simp [groupDepthList]
  | cons n ns ih => rw [groupDepthList, Nat.max_le, ih, List.forall_mem_cons]

/-! ### Classes -/

/-- An unescaped dash and a character with a code point come next. -/
def dashThenPoint : List TokenKind → Bool
  | .char d :: .char e :: _ => d.isDash && e.codePoint?.isSome
  | _ => false

/-- The members of a class read as written: the ends of a range have code points in order,
and no other character with a code point stands before a dash and a further one. -/
def classReads : List Node → Bool
  | [] => true
  | char c :: ms => !(c.codePoint?.isSome && dashThenPoint (yieldList ms)) && classReads ms
  | classRange low high :: ms =>
    (match low.codePoint?, high.codePoint? with
      | some x, some y => decide (x ≤ y)
      | _, _ => false) && classReads ms
  | _ :: _ => false

/-! ### Shape -/

/-- What a quantifier may stand behind. -/
def isRepeatable : Node → Bool
  | char _ | backreference _ _ | charClass _ _ => true
  | group kind _ => !kind.isLookbehind
  | _ => false

def isSequence : Node → Bool
  | alternative _ => true
  | _ => false

/-- The bounds of a repetition are in order. -/
def inOrder (min : Nat) (max : Option Nat) : Bool := max.all (min ≤ ·)

mutual

/-- Sequences of no or at least two parts, choices of at least two branches, neither directly
within its own kind nor a choice within a sequence; repetitions of atoms with bounds in
order; classes that read as written. -/
def grammatical : Node → Bool
  | regExp _ _ => false
  | alternative es => es.length != 1 && grammaticalParts es
  | disjunction bs => decide (2 ≤ bs.length) && grammaticalBranches bs
  | group _ e => grammatical e
  | backreference _ _ | assertion _ | char _ => true
  | charClass _ ms => classReads ms
  | classRange _ _ => false
  | repetition e min max _ => grammatical e && e.isRepeatable && inOrder min max

/-- Each is grammatical, and neither a sequence nor a choice. -/
def grammaticalParts : List Node → Bool
  | [] => true
  | n :: ns => (grammatical n && !n.isSequence && !n.isChoice) && grammaticalParts ns

/-- Each is grammatical and no choice. -/
def grammaticalBranches : List Node → Bool
  | [] => true
  | n :: ns => (grammatical n && !n.isChoice) && grammaticalBranches ns

end

/-- A part of a sequence. -/
def isPart (n : Node) : Bool := n.grammatical && !n.isSequence && !n.isChoice

/-- A branch of a choice. -/
def isBranch (n : Node) : Bool := n.grammatical && !n.isChoice

theorem grammaticalParts_eq (ns : List Node) : grammaticalParts ns = ns.all isPart := by
  induction ns with
  | nil => rfl
  | cons n ns ih => simp [grammaticalParts, ih, isPart]

theorem grammaticalBranches_eq (ns : List Node) : grammaticalBranches ns = ns.all isBranch := by
  induction ns with
  | nil => rfl
  | cons n ns ih => simp [grammaticalBranches, ih, isBranch]

theorem grammatical_of_isPart {n : Node} (h : n.isPart = true) : n.grammatical = true := by
  simp only [isPart, Bool.and_eq_true] at h
  exact h.1.1

theorem grammatical_of_isBranch {n : Node} (h : n.isBranch = true) : n.grammatical = true := by
  simp only [isBranch, Bool.and_eq_true] at h
  exact h.1

@[simp] theorem isPart_regExp (b : Node) (flags : Flags) : (regExp b flags).isPart = false := rfl

@[simp] theorem isPart_alternative (es : List Node) : (alternative es).isPart = false := by
  simp [isPart, isSequence]

@[simp] theorem isPart_disjunction (bs : List Node) : (disjunction bs).isPart = false := by
  simp [isPart, isChoice]

theorem isBranch_of_isPart {n : Node} (h : n.isPart = true) : n.isBranch = true := by
  simp only [isPart, isBranch, Bool.and_eq_true] at h ⊢
  exact ⟨h.1.1, h.2⟩

/-! ### Well-formed trees -/

/-- The names among capturing groups, with the numbers of their groups. -/
def groupNames (groups : List (Nat × Option Text)) : List (Text × Nat) :=
  groups.filterMap fun g => g.2.map fun name => (name, g.1)

/-- A target names the group of a number. -/
def targets (groups : List (Nat × Option Text)) : RefTarget → Nat → Prop
  | .number m, number => number = m ∧ 1 ≤ m ∧ m ≤ groups.length
  | .name t, number => (number, some t) ∈ groups

/-- A body tree that the grammar allows. -/
structure WellFormed (t : Node) : Prop where
  shape : t.grammatical = true
  /-- Groups nest at most as deep as the reader goes. -/
  depth : t.groupDepth ≤ Parser.maxDepth
  /-- The capturing groups are numbered from 1 in the order in which they open. -/
  numbers : t.captures.map Prod.fst = List.range' 1 t.captures.length
  /-- No two groups have the same name. -/
  names : ((groupNames t.captures).map Prod.fst).Nodup
  /-- Every reference carries the number of the group that it names. -/
  resolved : ∀ r ∈ t.references, targets t.captures r.1 r.2

end Node

end RegexKit
