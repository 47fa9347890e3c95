import RegexKit.Proofs.Optimizer.Readable

/-! What the optimizer leaves of groups and references. No rule drops, adds, renumbers or reorders
a capturing group, and none makes a reference, so whatever the references of a tree resolve to,
those that are left still resolve to. -/

namespace RegexKit

namespace Node

/-- The number and the name of a capturing group. -/
def capture? : Node → Option (Nat × Option Text)
  | group (.capturing number name) _ => some (number, name)
  | _ => none

/-- What is collected from a node and from all below it is collected along the preorder. -/
theorem filterMap_preorder {α : Type} (f : Node → Option α) (n : Node) :
    n.preorder.filterMap f = (f n).toList ++ n.children.flatMap fun c => c.preorder.filterMap f := by
  rw [preorder_eq, List.filterMap_cons, List.filterMap_flatMap]
  cases f n <;> rfl

/-- The capturing groups of a tree are listed in preorder. -/
theorem filterMap_capture? (n : Node) : n.preorder.filterMap capture? = n.captures := by
  induction n with
  | regExp b _ ih | repetition b _ _ _ ih =>
    rw [filterMap_preorder]
    simp [capture?, children, captures, ih]
  | group kind b ih =>
    rw [filterMap_preorder]
    cases kind <;> simp [capture?, children, captures, ih]
  | alternative ns ih | disjunction ns ih | charClass _ ns ih =>
    rw [filterMap_preorder, captures, capturesList_eq]
    exact List.flatMap_congr ih
  | backreference _ _ | assertion _ | char _ | classRange _ _ => rfl

/-- The references of a tree are its backreferences. -/
theorem mem_references_iff {n : Node} {target : RefTarget} {number : Nat} :
    (target, number) ∈ n.references ↔ backreference target number ∈ n.preorder := by
  induction n with
  | regExp b _ ih | group _ b ih | repetition b _ _ _ ih =>
    simp [references, preorder, ih]
  | alternative ns ih | disjunction ns ih | charClass _ ns ih =>
    rw [references, Parser.referencesList_eq, preorder_eq, List.mem_cons, List.mem_flatMap,
      List.mem_flatMap]
    simp only [reduceCtorEq, false_or, children]
    exact exists_congr fun m => and_congr_right fun hm => ih m hm
  | backreference t k => simp [references, preorder]
  | assertion _ | char _ | classRange _ _ => simp [references, preorder]

/-- A target that names a group names one with its number. -/
theorem exists_capture_of_targets {groups : List (Nat × Option Text)} {target : RefTarget}
    {number : Nat} (hnumbers : groups.map Prod.fst = List.range' 1 groups.length)
    (h : targets groups target number) : ∃ name, (number, name) ∈ groups := by
  cases target with
  | name t => exact ⟨some t, h⟩
  | number m =>
    obtain ⟨rfl, hpos, hle⟩ := h
    have hmem : number ∈ groups.map Prod.fst := by
      rw [hnumbers, List.mem_range'_1]
      omega
    obtain ⟨⟨_, name⟩, hgroup, rfl⟩ := List.mem_map.1 hmem
    exact ⟨name, hgroup⟩

end Node

namespace Optimizer

open Node (capture? targets)

/-- The groups that a root has by their numbers are those of its body. -/
theorem captureGroups?_optimizeTree (o : Options) {n : Node} (h : n.isRoot = true) :
    (optimizeTree o n).1.captureGroups? = n.captureGroups? := by
  have hkept := kept_optimizeTree o n
  cases n with
  | regExp body flags =>
    obtain ⟨body', hroot, -⟩ := hkept.root body flags rfl
    rw [hroot] at hkept ⊢
    have hcaptures : body'.captures = body.captures := hkept.captures
    rw [Node.captureGroups?, Node.captureGroups?, hcaptures]
  | _ => cases h

/-- The optimizer keeps the capturing groups of a tree in their order, with their numbers and
names, and every reference that it leaves was there before. So the references that are left of a
source that is read name groups that are there, with the numbers that they carry. -/
theorem optimizeTree_captures (o : Options) (n : Node) :
    (optimizeTree o n).1.preorder.filterMap capture? = n.preorder.filterMap capture? ∧
    (n.isRoot = true → (optimizeTree o n).1.captureGroups? = n.captureGroups?) ∧
    (∀ target number, .backreference target number ∈ (optimizeTree o n).1.preorder →
      .backreference target number ∈ n.preorder) ∧
    ∀ source, Source.parse source = .ok n →
      ∀ target number, .backreference target number ∈ (optimizeTree o n).1.preorder →
        targets (optimizeTree o n).1.captures target number ∧
          ∃ name e, .group (.capturing number name) e ∈ (optimizeTree o n).1.preorder := by
  have hkept := kept_optimizeTree o n
  have hreferences : ∀ target number,
      .backreference target number ∈ (optimizeTree o n).1.preorder →
        .backreference target number ∈ n.preorder := by
    intro target number h
    rw [← Node.mem_references_iff] at h ⊢
    exact hkept.references h
  refine ⟨?_, captureGroups?_optimizeTree o, hreferences, ?_⟩
  · rw [Node.filterMap_capture?, Node.filterMap_capture?, hkept.captures]
  · intro source hparse target number h
    obtain ⟨body, flags, rfl, hwell, -⟩ := Source.exists_of_parse hparse
    have hbefore : (target, number) ∈ (Node.regExp body flags).references :=
      Node.mem_references_iff.2 (hreferences target number h)
    have htargets : targets (Node.regExp body flags).captures target number :=
      hwell.resolved _ hbefore
    refine ⟨hkept.captures ▸ htargets, ?_⟩
    obtain ⟨name, hname⟩ := Node.exists_capture_of_targets hwell.numbers htargets
    have hleft : (number, name) ∈ (optimizeTree o (.regExp body flags)).1.preorder.filterMap
        capture? := by
      rw [Node.filterMap_capture?, hkept.captures]
      exact hname
    obtain ⟨m, hm, hcapture⟩ := List.mem_filterMap.1 hleft
    unfold capture? at hcapture
    split at hcapture
    · cases hcapture
      exact ⟨_, _, hm⟩
    · cases hcapture

/-- `/(a)\1\1*(?:b)/` is left as `/(a)\1+b/`, and `\1` still names the group. -/
theorem optimizeTree_captures_fused :
    ∃ n, Source.parse ['/', '(', 'a', ')', '\\', '1', '\\', '1', '*', '(', '?', ':', 'b', ')', '/'] =
        .ok n ∧
      (optimizeTree {} n).1 = .regExp (.alternative
        [.group (.capturing 1 none) (.char (.simple 'a')),
          .repetition (.backreference (.number 1) 1) 1 none true, .char (.simple 'b')]) {} ∧
      targets (optimizeTree {} n).1.captures (.number 1) 1 := by
  have hparse : Source.parse
      ['/', '(', 'a', ')', '\\', '1', '\\', '1', '*', '(', '?', ':', 'b', ')', '/'] =
      .ok (.regExp (.alternative [.group (.capturing 1 none) (.char (.simple 'a')),
        .backreference (.number 1) 1, .repetition (.backreference (.number 1) 1) 0 none true,
        .group .nonCapturing (.char (.simple 'b'))]) {}) := by decide +kernel
  have hleft : (optimizeTree {} (.regExp (.alternative
      [.group (.capturing 1 none) (.char (.simple 'a')), .backreference (.number 1) 1,
        .repetition (.backreference (.number 1) 1) 0 none true,
        .group .nonCapturing (.char (.simple 'b'))]) {})).1 = .regExp (.alternative
      [.group (.capturing 1 none) (.char (.simple 'a')),
        .repetition (.backreference (.number 1) 1) 1 none true, .char (.simple 'b')]) {} := by
    decide +kernel
  obtain ⟨-, -, -, hresolve⟩ := optimizeTree_captures {} (.regExp (.alternative
    [.group (.capturing 1 none) (.char (.simple 'a')), .backreference (.number 1) 1,
      .repetition (.backreference (.number 1) 1) 0 none true,
      .group .nonCapturing (.char (.simple 'b'))]) {})
  refine ⟨_, hparse, hleft, (hresolve _ hparse _ _ ?_).1⟩
  rw [hleft]
  simp [Node.preorder, Node.preorderList]

end Optimizer

end RegexKit
