import RegexKit.Node.Measure

/-! Induction over trees: what holds of a node whenever it holds of all its children holds of
every tree, and what holds of a node and everywhere below its children holds everywhere. -/

namespace RegexKit.Node

/-- Induction over a tree, one case for each kind of node; the hypothesis of a list is about
each of its nodes. -/
@[elab_as_elim, induction_eliminator]
theorem induct {motive : Node → Prop}
    (regExp : ∀ b flags, motive b → motive (.regExp b flags))
    (alternative : ∀ es, (∀ e ∈ es, motive e) → motive (.alternative es))
    (disjunction : ∀ bs, (∀ b ∈ bs, motive b) → motive (.disjunction bs))
    (group : ∀ kind e, motive e → motive (.group kind e))
    (backreference : ∀ target number, motive (.backreference target number))
    (assertion : ∀ kind, motive (.assertion kind))
    (char : ∀ c, motive (.char c))
    (charClass : ∀ negated ms, (∀ m ∈ ms, motive m) → motive (.charClass negated ms))
    (classRange : ∀ low high, motive (.classRange low high))
    (repetition : ∀ e min max greedy, motive e → motive (.repetition e min max greedy))
    (n : Node) : motive n :=
  @Node.rec motive (fun ns => ∀ n ∈ ns, motive n) regExp alternative disjunction group
    backreference assertion char charClass classRange repetition nofun
    (fun _ _ hm hms k hk => (List.mem_cons.1 hk).elim (fun h => h ▸ hm) (hms k)) n

/-- What holds at every node of a tree. -/
theorem forall_preorder_iff {P : Node → Prop} {n : Node} :
    (∀ m ∈ n.preorder, P m) ↔ P n ∧ ∀ c ∈ n.children, ∀ m ∈ c.preorder, P m := by
  rw [preorder_eq, List.forall_mem_cons, List.forall_mem_flatMap]

end RegexKit.Node
