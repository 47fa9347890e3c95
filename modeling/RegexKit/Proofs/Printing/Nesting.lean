import RegexKit.Proofs.Printing.Reparse

/-! How much deeper the text of a tree nests than the tree. In a tidy tree choices and
sequences are not elements of sequences and quantifiers stand behind atoms, so the printer
adds parentheses around single escapes only, and never more than one level of them. -/

namespace RegexKit.Node

open RegexKit.Token (reread)

/-! ### Tidy trees -/

/-- What may stand below a node of a kind: parts in a sequence, anything but a choice in a
choice, and what a quantifier may stand behind in a repetition. -/
def mayStand (parent : Option NodeType) (n : Node) : Bool :=
  match parent with
  | some .alternative => !n.isSequence && !n.isChoice
  | some .disjunction => !n.isChoice
  | some .repetition => n.isRepeatable
  | _ => true

mutual

/-- Every node below stands where it may; lists may have any length. -/
def tidy : Node → Bool
  | regExp b _ => tidy b
  | alternative es => tidyAll (some .alternative) es
  | disjunction bs => tidyAll (some .disjunction) bs
  | group _ e => tidy e
  | repetition e _ _ _ => mayStand (some .repetition) e && tidy e
  | backreference _ _ | assertion _ | char _ | charClass _ _ | classRange _ _ => true

def tidyAll (parent : Option NodeType) : List Node → Bool
  | [] => true
  | n :: ns => (mayStand parent n && tidy n) && tidyAll parent ns

end

theorem tidyAll_iff {parent : Option NodeType} {ns : List Node} :
    tidyAll parent ns = true ↔ ∀ n ∈ ns, mayStand parent n = true ∧ n.tidy = true := by
  induction ns with
  | nil => simp [tidyAll]
  | cons n ns ih => simp [tidyAll, ih]

theorem mayStand_of_isPart {e : Node} (he : e.isPart = true) :
    mayStand (some .alternative) e = true := by
  simp only [isPart, Bool.and_eq_true] at he
  rw [mayStand, he.1.2, he.2]
  rfl

/-- A grammatical tree is tidy. -/
theorem tidy_of_grammatical {n : Node} (hn : n.grammatical = true) : n.tidy = true := by
  induction n with
  | alternative es ih =>
    simp only [grammatical, Bool.and_eq_true, grammaticalParts_eq, List.all_eq_true] at hn
    exact tidyAll_iff.2 fun e he =>
      ⟨mayStand_of_isPart (hn.2 e he), ih e he (grammatical_of_isPart (hn.2 e he))⟩
  | disjunction bs ih =>
    simp only [grammatical, Bool.and_eq_true, grammaticalBranches_eq, List.all_eq_true] at hn
    refine tidyAll_iff.2 fun b hb => ⟨?_, ih b hb (grammatical_of_isBranch (hn.2 b hb))⟩
    have hb := hn.2 b hb
    simp only [isBranch, Bool.and_eq_true] at hb
    exact hb.2
  | group kind e ih => exact ih hn
  | repetition e min max greedy ih =>
    simp only [grammatical, Bool.and_eq_true] at hn
    rw [tidy, ih hn.1.1, mayStand, hn.1.2]
    rfl
  | regExp _ _ _ => cases hn
  | backreference _ _ | assertion _ | char _ | charClass _ _ _ | classRange _ _ => rfl

/-! ### Depth -/

theorem isAtom_of_isRepeatable {e : Node} (he : e.isRepeatable = true) : e.isAtom = true := by
  cases e <;> first | rfl | cases he

theorem groupDepthList_append (ns ms : List Node) :
    groupDepthList (ns ++ ms) = max (groupDepthList ns) (groupDepthList ms) := by
  induction ns with
  | nil => simp [groupDepthList]
  | cons n ns ih => rw [List.cons_append, groupDepthList, groupDepthList, ih, Nat.max_assoc]

/-- Nodes that are replaced by nodes that nest as deep nest as deep as before. -/
theorem groupDepthList_map {f : Node → Node} {ns : List Node}
    (h : ∀ n ∈ ns, (f n).groupDepth = n.groupDepth) :
    groupDepthList (ns.map f) = groupDepthList ns := by
  induction ns with
  | nil => rfl
  | cons n ns ih =>
    rw [List.map_cons, groupDepthList, groupDepthList, h n List.mem_cons_self,
      ih fun k hk => h k (List.mem_cons_of_mem _ hk)]

theorem groupDepth_rereadMember (m : Node) : (rereadMember m).groupDepth = m.groupDepth := by
  cases m <;> rfl

/-- Something in a sequence that ends in an open escape is that escape. -/
theorem groupDepth_asRead_of_endsOpen {e : Node} (hpart : mayStand (some .alternative) e = true)
    (h : e.endsOpen = true) : e.asRead.groupDepth = 0 := by
  cases e with
  | alternative _ => cases hpart
  | backreference _ _ | char _ => rfl
  | _ => cases h

theorem readBranches_of_mayStand {e : Node} (he : mayStand (some .alternative) e = true) :
    readBranches e = [[e.asRead]] := by
  cases e with
  | alternative _ | disjunction _ => cases he
  | _ => rfl

/-- The parts of a sequence nest at most one level deeper when they are read back, when each does
by itself. -/
theorem groupDepthList_readParts {es : List Node}
    (hes : ∀ e ∈ es, mayStand (some .alternative) e = true)
    (hdepth : ∀ e ∈ es, e.asRead.groupDepth ≤ e.groupDepth + 1) :
    groupDepthList (readParts es) ≤ groupDepthList es + 1 := by
  induction es with
  | nil => exact Nat.zero_le _
  | cons e es ih =>
    have he := hes e List.mem_cons_self
    have hfirst : groupDepthList (if isWrapped e es then [group .nonCapturing e.asRead]
        else (readBranches e).flatten) ≤ e.groupDepth + 1 := by
      split
      · -- the parenthesis is around an escape
        rename_i hwrap
        have hchoice : e.isChoice = false := by
          simp only [mayStand, Bool.and_eq_true, Bool.not_eq_true'] at he
          exact he.2
        simp only [isWrapped, hchoice, Bool.false_or, Bool.and_eq_true] at hwrap
        have hzero := groupDepth_asRead_of_endsOpen he hwrap.1
        simp only [groupDepthList, groupDepth]
        omega
      · rw [readBranches_of_mayStand he]
        simpa [groupDepthList] using hdepth e List.mem_cons_self
    have hrest := ih (fun k hk => hes k (List.mem_cons_of_mem _ hk))
      fun k hk => hdepth k (List.mem_cons_of_mem _ hk)
    have hcons : readParts (e :: es) = (if isWrapped e es then [group .nonCapturing e.asRead]
        else (readBranches e).flatten) ++ readParts es := rfl
    rw [hcons, groupDepthList_append, groupDepthList]
    omega

/-- The text of a tidy tree nests at most one level deeper than the tree. -/
theorem groupDepth_asRead {n : Node} (hn : n.tidy = true) :
    n.asRead.groupDepth ≤ n.groupDepth + 1 := by
  induction n with
  | regExp b _ ih => exact ih hn
  | alternative es ih =>
    rw [tidy, tidyAll_iff] at hn
    rw [asRead_of_not_choice rfl, Parser.groupDepth_collapse fun _ => rfl, readBranches,
      List.flatten_singleton]
    exact groupDepthList_readParts (fun e he => (hn e he).1) fun e he => ih e he (hn e he).2
  | disjunction bs ih =>
    rw [tidy, tidyAll_iff] at hn
    rw [asRead, assemble, Parser.groupDepth_collapse fun _ => rfl, groupDepthList_le]
    intro c hc
    obtain ⟨es, hes, rfl⟩ := List.mem_map.1 hc
    rw [readBranches, readChoices_eq] at hes
    obtain ⟨b, hb, hes⟩ := List.mem_flatMap.1 hes
    have hbranch : b.asRead.groupDepth ≤ b.groupDepth + 1 := ih b hb (hn b hb).2
    have hle : b.groupDepth ≤ groupDepthList bs := groupDepthList_le.1 (Nat.le_refl _) b hb
    rw [asRead, assemble, Parser.groupDepth_collapse fun _ => rfl, groupDepthList_le] at hbranch
    have hbelow := hbranch _ (List.mem_map.2 ⟨es, hes, rfl⟩)
    rw [groupDepth]
    omega
  | group kind e ih => exact Nat.succ_le_succ (ih hn)
  | repetition e min max greedy ih =>
    simp only [tidy, Bool.and_eq_true, mayStand] at hn
    rw [asRead_repetition, if_pos (isAtom_of_isRepeatable hn.1)]
    exact ih hn.2
  | charClass negated ms _ =>
    rw [asRead_charClass, groupDepth, groupDepth,
      groupDepthList_map fun m _ => groupDepth_rereadMember m]
    omega
  | backreference _ _ | assertion _ | char _ | classRange _ _ => exact Nat.zero_le _

/-- The body read back of a tidy tree nests at most one level deeper than the tree. -/
theorem groupDepth_bodyAsRead {body : Node} (h : body.tidy = true) :
    (bodyAsRead body).groupDepth ≤ body.groupDepth + 1 := by
  rw [bodyAsRead]
  split
  · exact Nat.succ_le_succ (Nat.zero_le _)
  · exact groupDepth_asRead h

end RegexKit.Node
