import RegexKit.Flags
import RegexKit.PatternChar

/-! The pattern tree. Ten kinds of nodes; sequences, choices and classes hold lists of
nodes, the others at most one. Equality of trees is decided by `same`, which follows the
two trees side by side. -/

namespace RegexKit

/-- The kinds of nodes. -/
inductive NodeType
  | regExp
  | alternative
  | disjunction
  | group
  | backreference
  | assertion
  | char
  | charClass
  | classRange
  | repetition
  deriving DecidableEq, Repr

namespace NodeType

def all : List NodeType :=
  [regExp, alternative, disjunction, group, backreference, assertion, char, charClass,
    classRange, repetition]

/-- The name of a kind in answers and in JSON. -/
def name : NodeType → String
  | regExp => "RegExp"
  | alternative => "Alternative"
  | disjunction => "Disjunction"
  | group => "Group"
  | backreference => "Backreference"
  | assertion => "Assertion"
  | char => "Char"
  | charClass => "CharacterClass"
  | classRange => "ClassRange"
  | repetition => "Repetition"

/-- The kind of a name. -/
def ofName? (s : String) : Option NodeType := all.find? fun k => k.name == s

@[simp] theorem ofName?_name (k : NodeType) : ofName? k.name = some k := by cases k <;> decide

end NodeType

/-- The kinds of groups. A capturing group has a number and perhaps a name. -/
inductive GroupKind
  | capturing (number : Nat) (name : Option Text)
  | nonCapturing
  | lookahead
  | negativeLookahead
  | lookbehind
  | negativeLookbehind
  deriving DecidableEq, Repr

namespace GroupKind

def isCapturing : GroupKind → Bool
  | capturing _ _ => true
  | _ => false

def isLookbehind : GroupKind → Bool
  | lookbehind | negativeLookbehind => true
  | _ => false

def isLookaround : GroupKind → Bool
  | lookahead | negativeLookahead | lookbehind | negativeLookbehind => true
  | _ => false

end GroupKind

/-- What a backreference names. -/
inductive RefTarget
  | number (n : Nat)
  | name (t : Text)
  deriving DecidableEq, Repr

/-- The conditions that match without consuming. -/
inductive AssertionKind
  | start
  | finish
  | wordBoundary
  | nonWordBoundary
  deriving DecidableEq, Repr

/-- A node of the pattern tree. -/
inductive Node
  /-- The root: a body and its flags. -/
  | regExp (body : Node) (flags : Flags)
  /-- A concatenation in order; the empty one matches the empty text. -/
  | alternative (expressions : List Node)
  /-- A choice; the order of the branches is their priority. -/
  | disjunction (branches : List Node)
  | group (kind : GroupKind) (expression : Node)
  /-- A reference with the number of the capturing group that it resolves to. -/
  | backreference (target : RefTarget) (number : Nat)
  | assertion (kind : AssertionKind)
  | char (c : PatternChar)
  | charClass (negated : Bool) (members : List Node)
  /-- All code points from one end to the other, both included. -/
  | classRange (low high : PatternChar)
  /-- Between `min` and `max` copies, without upper bound when `max` is `none`. -/
  | repetition (expression : Node) (min : Nat) (max : Option Nat) (greedy : Bool)
  deriving Repr

namespace Node

/-- The empty alternative. -/
def empty : Node := .alternative []

def type : Node → NodeType
  | regExp _ _ => .regExp
  | alternative _ => .alternative
  | disjunction _ => .disjunction
  | group _ _ => .group
  | backreference _ _ => .backreference
  | assertion _ => .assertion
  | char _ => .char
  | charClass _ _ => .charClass
  | classRange _ _ => .classRange
  | repetition _ _ _ _ => .repetition

def isEmptyAlternative : Node → Bool
  | alternative [] => true
  | _ => false

/-- The flags of a root; other nodes have none. -/
def flags : Node → Flags
  | regExp _ flags => flags
  | _ => .none

def isRoot : Node → Bool
  | regExp _ _ => true
  | _ => false

/-! ### Equality -/

mutual

/-- Both trees have the same shape and the same data at every node. -/
def same : Node → Node → Bool
  | regExp b f, regExp b' f' => same b b' && f == f'
  | alternative es, alternative es' => sameList es es'
  | disjunction bs, disjunction bs' => sameList bs bs'
  | group k e, group k' e' => k == k' && same e e'
  | backreference t n, backreference t' n' => t == t' && n == n'
  | assertion k, assertion k' => k == k'
  | char c, char c' => c == c'
  | charClass n ms, charClass n' ms' => n == n' && sameList ms ms'
  | classRange l h, classRange l' h' => l == l' && h == h'
  | repetition e m x g, repetition e' m' x' g' =>
    same e e' && (m == m' && (x == x' && g == g'))
  | _, _ => false

def sameList : List Node → List Node → Bool
  | [], [] => true
  | n :: ns, n' :: ns' => same n n' && sameList ns ns'
  | _, _ => false

end

mutual

theorem same_iff : ∀ a b : Node, same a b = true ↔ a = b
  | regExp b f, c => by
    cases c <;> simp [same, same_iff b]
  | alternative es, c => by
    cases c <;> simp [same, sameList_iff es]
  | disjunction bs, c => by
    cases c <;> simp [same, sameList_iff bs]
  | group k e, c => by
    cases c <;> simp [same, same_iff e]
  | backreference t n, c => by
    cases c <;> simp [same]
  | assertion k, c => by
    cases c <;> simp [same]
  | char k, c => by
    cases c <;> simp [same]
  | charClass n ms, c => by
    cases c <;> simp [same, sameList_iff ms]
  | classRange l h, c => by
    cases c <;> simp [same]
  | repetition e m x g, c => by
    cases c <;> simp [same, same_iff e]

theorem sameList_iff : ∀ as bs : List Node, sameList as bs = true ↔ as = bs
  | [], bs => by cases bs <;> simp [sameList]
  | a :: as, bs => by cases bs <;> simp [sameList, same_iff a, sameList_iff as]

end

instance : DecidableEq Node := fun a b => decidable_of_iff (same a b = true) (same_iff a b)

/-! ### Children -/

/-- The nodes directly below, in order. The ends of a range are not children. -/
def children : Node → List Node
  | regExp b _ => [b]
  | alternative es => es
  | disjunction bs => bs
  | group _ e => [e]
  | charClass _ ms => ms
  | repetition e _ _ _ => [e]
  | backreference _ _ | assertion _ | char _ | classRange _ _ => []

end Node

end RegexKit
