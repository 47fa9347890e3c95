import RegexKit.Node

/-! Trees whose classes hold nothing but characters and ranges, as the reader of patterns
makes them. -/

namespace RegexKit.Node

/-- What a class is made of: characters and ranges. -/
def isMember : Node → Bool
  | char _ | classRange _ _ => true
  | _ => false

mutual

/-- Every class in the tree holds characters and ranges only. -/
def plainClasses : Node → Bool
  | regExp b _ => b.plainClasses
  | alternative es => plainClassesList es
  | disjunction bs => plainClassesList bs
  | group _ e => e.plainClasses
  | charClass _ ms => ms.all isMember
  | repetition e _ _ _ => e.plainClasses
  | backreference _ _ | assertion _ | char _ | classRange _ _ => true

def plainClassesList : List Node → Bool
  | [] => true
  | n :: ns => n.plainClasses && plainClassesList ns

end

theorem plainClassesList_iff {ns : List Node} :
    plainClassesList ns = true ↔ ∀ n ∈ ns, n.plainClasses = true := by
  induction ns with
  | nil => simp [plainClassesList]
  | cons n ns ih => simp [plainClassesList, ih]

end RegexKit.Node
