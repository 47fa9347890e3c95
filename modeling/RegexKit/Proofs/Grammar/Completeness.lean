import RegexKit.Proofs.Grammar.Classes
import RegexKit.Proofs.Grammar.References
import Mathlib.Data.List.Nodup

/-! The reader accepts what the grammar allows. On the tokens of a grammatical tree, in a state
in which its groups have the next numbers and new names and are not too deep, the reader
runs without an error and ends up with the tree as the next item, branch or body; the
references are entered without numbers until all groups are known. -/

namespace RegexKit.Parser

open Node (yield yieldList yieldBranches yieldMore groupNames)

/-! ### Between two states -/

/-- The state can take groups with these numbers and names, nested this deep. -/
structure State.Ready (s : State) (groups : List (Nat × Option Text)) (depth : Nat) : Prop where
  noClass : s.openClass = none
  numbers : groups.map Prod.fst = List.range' (s.captures + 1) groups.length
  names : (((groupNames groups).reverse ++ s.names).map Prod.fst).Nodup
  depth : s.frames.length + depth ≤ maxDepth

/-- The second state is the first after tokens that opened these groups and referred to these
targets, apart from what was read at its level. -/
structure State.Moved (s s' : State) (groups : List (Nat × Option Text))
    (targets : List RefTarget) : Prop where
  frames : s'.frames = s.frames
  noClass : s'.openClass = none
  captures : s'.captures = s.captures + groups.length
  names : s'.names = (groupNames groups).reverse ++ s.names
  references : s'.references.map Prod.fst = targets.reverse ++ s.references.map Prod.fst

theorem groupNames_append (gs hs : List (Nat × Option Text)) :
    groupNames (gs ++ hs) = groupNames gs ++ groupNames hs := List.filterMap_append

variable {s s' s'' : State} {gs hs : List (Nat × Option Text)} {ts us : List RefTarget}
  {depth : Nat}

theorem State.Moved.trans (h : s.Moved s' gs ts) (h' : s'.Moved s'' hs us) :
    s.Moved s'' (gs ++ hs) (ts ++ us) where
  frames := h'.frames.trans h.frames
  noClass := h'.noClass
  captures := by rw [h'.captures, h.captures, List.length_append, Nat.add_assoc]
  names := by rw [h'.names, h.names, groupNames_append, List.reverse_append, List.append_assoc]
  references := by
    rw [h'.references, h.references, List.reverse_append, List.append_assoc]

/-- A state ready for two lists of groups is ready for the first one. -/
theorem State.Ready.left (h : s.Ready (gs ++ hs) depth) {d : Nat} (hd : d ≤ depth) :
    s.Ready gs d where
  noClass := h.noClass
  numbers := by
    have hn := h.numbers
    rw [List.map_append, List.length_append, ← List.range'_append_1] at hn
    exact (List.append_inj hn (by simp)).1
  names := by
    have hn := h.names
    rw [groupNames_append, List.reverse_append, List.append_assoc, List.map_append] at hn
    exact (List.nodup_append.1 hn).2.1
  depth := Nat.le_trans (Nat.add_le_add_left hd _) h.depth

/-- After the groups of the first list it is ready for those of the second. -/
theorem State.Ready.right (h : s.Ready (gs ++ hs) depth) (hm : s.Moved s' gs ts) {d : Nat}
    (hd : d ≤ depth) : s'.Ready hs d where
  noClass := hm.noClass
  numbers := by
    have hn := h.numbers
    rw [List.map_append, List.length_append, ← List.range'_append_1] at hn
    rw [(List.append_inj hn (by simp)).2, hm.captures, Nat.add_right_comm]
  names := by
    have hn := h.names
    rwa [groupNames_append, List.reverse_append, List.append_assoc, ← hm.names] at hn
  depth := by rw [hm.frames]; exact Nat.le_trans (Nat.add_le_add_left hd _) h.depth

/-! ### What reading a tree comes to -/

/-- The branches of a level, the current one included, in order. -/
def Level.all (l : Level) : List Node :=
  (collapse .alternative l.items.reverse :: l.branches).reverse

theorem Level.close_eq (l : Level) : l.close = collapse .disjunction l.all := rfl

/-- The tokens of the node add it to the items of the level. -/
def ReadsAsPart (n : Node) : Prop :=
  ∀ (s : State) (ts : List Token), ts.map Token.kind = n.yield → s.Ready n.captures n.groupDepth →
    ∃ s', run s ts = .ok s' ∧ s.Moved s' n.captures (n.references.map Prod.fst) ∧
      s'.level = s.level.push (unresolved n) n.isRepeatable

/-- The tokens of the node, where a branch begins, make it the branch. -/
def ReadsAsBranch (n : Node) : Prop :=
  ∀ (s : State) (ts : List Token), ts.map Token.kind = n.yield → s.Ready n.captures n.groupDepth →
    s.level.items = [] →
    ∃ s', run s ts = .ok s' ∧ s.Moved s' n.captures (n.references.map Prod.fst) ∧
      s'.level.branches = s.level.branches ∧
        collapse .alternative s'.level.items.reverse = unresolved n

/-- The tokens of the node at a new level make it what the level holds. -/
def ReadsAsBody (n : Node) : Prop :=
  ∀ (s : State) (ts : List Token), ts.map Token.kind = n.yield → s.Ready n.captures n.groupDepth →
    s.level = {} →
    ∃ s', run s ts = .ok s' ∧ s.Moved s' n.captures (n.references.map Prod.fst) ∧
      s'.level.close = unresolved n

/-- The node is read in every place where the grammar allows it. -/
structure Reads (n : Node) : Prop where
  part : n.isPart = true → ReadsAsPart n
  branch : n.isBranch = true → ReadsAsBranch n
  body : n.grammatical = true → ReadsAsBody n

theorem run_append_ok {ts us : List Token} (h : run s ts = .ok s') (h' : run s' us = .ok s'') :
    run s (ts ++ us) = .ok s'' := by
  rw [run_append, h]
  exact h'

theorem run_singleton {t : Token} (h : step s t = .ok s') : run s [t] = .ok s' := by
  simp only [run, h]

/-! ### Parts, branches and bodies -/

theorem ReadsAsPart.branch {n : Node} (h : ReadsAsPart n) : ReadsAsBranch n := by
  intro s ts hts hs hitems
  obtain ⟨s', hrun, hmoved, hlevel⟩ := h s ts hts hs
  refine ⟨s', hrun, hmoved, by rw [hlevel, Level.push], ?_⟩
  rw [hlevel, Level.push, hitems]
  rfl

theorem ReadsAsBranch.body {n : Node} (h : ReadsAsBranch n) : ReadsAsBody n := by
  intro s ts hts hs hlevel
  obtain ⟨s', hrun, hmoved, hbranches, hitems⟩ := h s ts hts hs (by rw [hlevel])
  refine ⟨s', hrun, hmoved, ?_⟩
  rw [Level.close_eq, Level.all, hitems, hbranches, hlevel]
  rfl

/-- What is read as a part is read in every place. -/
theorem Reads.of_part {n : Node} (h : n.grammatical = true → ReadsAsPart n) : Reads n where
  part hn := h (by simp_all [Node.isPart])
  branch hn := (h (by simp_all [Node.isBranch])).branch
  body hn := (h hn).branch.body

/-- Parts one after the other add themselves to the items. -/
theorem run_parts {ns : List Node} (hns : ∀ n ∈ ns, ReadsAsPart n) (s : State) (ts : List Token)
    (hts : ts.map Token.kind = yieldList ns)
    (hs : s.Ready (Node.capturesList ns) (Node.groupDepthList ns)) :
    ∃ s', run s ts = .ok s' ∧
      s.Moved s' (Node.capturesList ns) ((Node.referencesList ns).map Prod.fst) ∧
      s'.level.branches = s.level.branches ∧
      s'.level.items = (ns.map unresolved).reverse ++ s.level.items := by
  induction ns generalizing s ts with
  | nil =>
    obtain rfl := List.map_eq_nil_iff.1 hts
    exact ⟨s, rfl, ⟨rfl, hs.noClass, rfl, rfl, rfl⟩, rfl, rfl⟩
  | cons n ns ih =>
    obtain ⟨ts₁, ts₂, rfl, h₁, h₂⟩ := List.map_eq_append_iff.1 hts
    obtain ⟨s₁, hrun₁, hmoved₁, hlevel⟩ := hns n List.mem_cons_self s ts₁ h₁
      (hs.left (Nat.le_max_left _ _))
    obtain ⟨s₂, hrun₂, hmoved₂, hbranches, hitems⟩ :=
      ih (fun k hk => hns k (List.mem_cons_of_mem _ hk)) s₁ ts₂ h₂
        (hs.right hmoved₁ (Nat.le_max_right _ _))
    refine ⟨s₂, run_append_ok hrun₁ hrun₂, ?_, by rw [hbranches, hlevel, Level.push], ?_⟩
    · simpa [Node.capturesList, Node.referencesList] using hmoved₁.trans hmoved₂
    · rw [hitems, hlevel, Level.push]
      simp

/-- Further branches, each after a bar, add themselves to the branches. -/
theorem run_more {bs : List Node} (hbs : ∀ b ∈ bs, ReadsAsBranch b) (s : State) (ts : List Token)
    (hts : ts.map Token.kind = yieldMore bs)
    (hs : s.Ready (Node.capturesList bs) (Node.groupDepthList bs)) :
    ∃ s', run s ts = .ok s' ∧
      s.Moved s' (Node.capturesList bs) ((Node.referencesList bs).map Prod.fst) ∧
      s'.level.all = s.level.all ++ bs.map unresolved := by
  induction bs generalizing s ts with
  | nil =>
    obtain rfl := List.map_eq_nil_iff.1 hts
    exact ⟨s, rfl, ⟨rfl, hs.noClass, rfl, rfl, rfl⟩, by simp⟩
  | cons b bs ih =>
    obtain ⟨t, rest, rfl, ht, hrest⟩ := List.map_eq_cons_iff.1 hts
    obtain ⟨ts₁, ts₂, rfl, h₁, h₂⟩ := List.map_eq_append_iff.1 hrest
    have hbar : step s t = .ok { s with level := s.level.bar } := by
      simp only [step, hs.noClass, ht]
    have hready : ({ s with level := s.level.bar } : State).Ready
        (Node.capturesList (b :: bs)) (Node.groupDepthList (b :: bs)) :=
      ⟨hs.noClass, hs.numbers, hs.names, hs.depth⟩
    obtain ⟨s₁, hrun₁, hmoved₁, hbranches, hitems⟩ := hbs b List.mem_cons_self _ ts₁ h₁
      (hready.left (Nat.le_max_left _ _)) rfl
    obtain ⟨s₂, hrun₂, hmoved₂, hall⟩ :=
      ih (fun k hk => hbs k (List.mem_cons_of_mem _ hk)) s₁ ts₂ h₂
        (hready.right hmoved₁ (Nat.le_max_right _ _))
    refine ⟨s₂, ?_, ?_, ?_⟩
    · exact run_append_ok (run_singleton hbar) (run_append_ok hrun₁ hrun₂)
    · have hmoved := hmoved₁.trans hmoved₂
      refine ⟨hmoved.frames, hmoved.noClass, hmoved.captures, hmoved.names, ?_⟩
      simpa [Node.referencesList] using hmoved.references
    · rw [hall, Level.all, hitems, hbranches, Level.bar]
      simp [Level.all]

/-! ### Sequences and choices -/

theorem collapse_of_length_ne_one {make : List Node → Node} {ns : List Node}
    (h : ns.length ≠ 1) : collapse make ns = make ns := by
  match ns with
  | [] | _ :: _ :: _ => rfl
  | [_] => exact absurd rfl h

/-- What a function makes of a list, it makes of the collapsed list, when it makes of a single
node what it makes of the list of it. -/
theorem apply_collapse {β : Type} {f : Node → β} {g : List Node → β} {make : List Node → Node}
    (hmake : ∀ ns, f (make ns) = g ns) (hone : ∀ n, g [n] = f n) (ns : List Node) :
    f (collapse make ns) = g ns := by
  by_cases h : ns.length = 1
  · obtain ⟨n, rfl⟩ := List.length_eq_one_iff.1 h
    exact (hone n).symm
  · rw [collapse_of_length_ne_one h, hmake]

theorem reads_alternative {es : List Node} (ih : ∀ e ∈ es, Reads e) :
    Reads (.alternative es) := by
  have hbranch : (Node.alternative es).grammatical = true → ReadsAsBranch (.alternative es) := by
    intro hg s ts hts hs hitems
    simp only [Node.grammatical, Bool.and_eq_true, bne_iff_ne, Node.grammaticalParts_eq,
      List.all_eq_true] at hg
    obtain ⟨s', hrun, hmoved, hbranches, hitems'⟩ :=
      run_parts (fun e he => (ih e he).part (hg.2 e he)) s ts hts hs
    refine ⟨s', hrun, hmoved, hbranches, ?_⟩
    rw [hitems', hitems, List.append_nil, List.reverse_reverse,
      collapse_of_length_ne_one (by simpa using hg.1), unresolved, fillNumbers,
      fillNumbersList_eq_map]
    rfl
  exact ⟨by simp [Node.isPart, Node.isSequence],
    fun h => hbranch (by simp_all [Node.isBranch]), fun h => (hbranch h).body⟩

theorem reads_disjunction {bs : List Node} (ih : ∀ b ∈ bs, Reads b) :
    Reads (.disjunction bs) := by
  refine ⟨by simp [Node.isPart, Node.isChoice], by simp [Node.isBranch, Node.isChoice], ?_⟩
  intro hg s ts hts hs hlevel
  simp only [Node.grammatical, Bool.and_eq_true, decide_eq_true_eq, Node.grammaticalBranches_eq,
    List.all_eq_true] at hg
  obtain ⟨hlen, hbranch⟩ := hg
  cases bs with
  | nil => exact absurd hlen (by decide)
  | cons b bs =>
    obtain ⟨ts₁, ts₂, rfl, h₁, h₂⟩ := List.map_eq_append_iff.1 hts
    obtain ⟨s₁, hrun₁, hmoved₁, hbranches, hitems⟩ :=
      (ih b List.mem_cons_self).branch (hbranch b List.mem_cons_self) s ts₁ h₁
        (hs.left (Nat.le_max_left _ _)) (by rw [hlevel])
    obtain ⟨s₂, hrun₂, hmoved₂, hall⟩ :=
      run_more (fun k hk => (ih k (List.mem_cons_of_mem _ hk)).branch
        (hbranch k (List.mem_cons_of_mem _ hk))) s₁ ts₂ h₂
        (hs.right hmoved₁ (Nat.le_max_right _ _))
    refine ⟨s₂, run_append_ok hrun₁ hrun₂, ?_, ?_⟩
    · simpa [Node.captures, Node.capturesList, Node.references, Node.referencesList]
        using hmoved₁.trans hmoved₂
    · have hfirst : s₁.level.all = [unresolved b] := by
        rw [Level.all, hitems, hbranches, hlevel]
        rfl
      rw [Level.close_eq, hall, hfirst, collapse_of_length_ne_one]
      · simp only [unresolved, fillNumbers, fillNumbersList_eq_map]
        rfl
      · simp only [List.length_append, List.length_map, List.length_cons, List.length_nil] at hlen ⊢
        omega

/-! ### Atoms -/

theorem reads_char (c : PatternChar) : Reads (.char c) := by
  refine .of_part fun _ s ts hts hs => ?_
  obtain ⟨t, rfl, ht⟩ := List.map_eq_singleton_iff.1 hts
  have hstep : step s t = .ok (s.push (.char c) true) := by simp only [step, hs.noClass, ht]
  exact ⟨_, run_singleton hstep, ⟨rfl, hs.noClass, rfl, rfl, rfl⟩, rfl⟩

theorem reads_assertion (kind : AssertionKind) : Reads (.assertion kind) := by
  refine .of_part fun _ s ts hts hs => ?_
  obtain ⟨t, rfl, ht⟩ := List.map_eq_singleton_iff.1 hts
  have hstep : step s t = .ok (s.push (.assertion kind) false) := by
    simp only [step, hs.noClass, ht]
  exact ⟨_, run_singleton hstep, ⟨rfl, hs.noClass, rfl, rfl, rfl⟩, rfl⟩

theorem reads_backreference (target : RefTarget) (number : Nat) :
    Reads (.backreference target number) := by
  refine .of_part fun _ s ts hts hs => ?_
  obtain ⟨t, rfl, ht⟩ := List.map_eq_singleton_iff.1 hts
  have hstep : step s t =
      .ok (({ s with references := (target, t.offset) :: s.references } : State).push
        (.backreference target 0) true) := by
    simp only [step, hs.noClass, ht]
  exact ⟨_, run_singleton hstep, ⟨rfl, hs.noClass, rfl, rfl, rfl⟩, rfl⟩

/-- The characters of a class are taken one by one. -/
theorem run_members {cs : List PatternChar} {ts : List Token} {k : OpenClass} {ms : List Node}
    (hts : ts.map Token.kind = cs.map .char) (hk : k.pending.isSound = true)
    (hread : k.reading cs = some ms) (hs : s.openClass = some k) :
    ∃ k', run s ts = .ok { s with openClass := some k' } ∧ k'.negated = k.negated ∧
      k'.reading [] = some ms := by
  induction cs generalizing ts k s with
  | nil =>
    obtain rfl := List.map_eq_nil_iff.1 hts
    exact ⟨k, by rw [run, ← hs], rfl, hread⟩
  | cons c cs ih =>
    obtain ⟨t, ts, rfl, ht, hts⟩ := List.map_eq_cons_iff.1 hts
    rcases OpenClass.add_spec hk c t.offset with ⟨k', hadd, htakes⟩ | ⟨-, hnone⟩
    · have hstep : step s t = .ok { s with openClass := some k' } := by
        simp only [step, hs, ht, hadd, Except.map]
      obtain ⟨k'', hrun, hneg, hread'⟩ :=
        ih hts htakes.sound (by rw [htakes.reading, hread])
          (show ({ s with openClass := some k' } : State).openClass = some k' from rfl)
      exact ⟨k'', by rw [run, hstep]; exact hrun, hneg.trans htakes.negated, hread'⟩
    · rw [hnone] at hread
      cases hread

theorem exists_chars_of_classReads {ms : List Node} (h : Node.classReads ms = true) :
    ∃ cs : List PatternChar, yieldList ms = cs.map .char := by
  induction ms with
  | nil => exact ⟨[], rfl⟩
  | cons m ms ih =>
    cases m with
    | char c =>
      obtain ⟨cs, hcs⟩ := ih (by simp_all [Node.classReads])
      exact ⟨c :: cs, by simp [yieldList, yield, hcs]⟩
    | classRange low high =>
      obtain ⟨cs, hcs⟩ := ih (by simp_all [Node.classReads])
      exact ⟨low :: .simple '-' :: high :: cs, by simp [yieldList, yield, Node.dash, hcs]⟩
    | _ => simp [Node.classReads] at h

theorem reads_charClass (negated : Bool) (ms : List Node) : Reads (.charClass negated ms) := by
  refine .of_part fun hg s ts hts hs => ?_
  simp only [Node.grammatical] at hg
  obtain ⟨cs, hcs⟩ := exists_chars_of_classReads hg
  obtain ⟨hcaps, hrefs, -⟩ := flat_of_classReads hg
  have hfill := fillNumbersList_of_classReads (fun _ => 0) hg
  obtain ⟨t, rest, rfl, ht, hrest⟩ := List.map_eq_cons_iff.1 hts
  obtain ⟨ts₁, ts₂, rfl, h₁, h₂⟩ := List.map_eq_append_iff.1 hrest
  obtain ⟨u, rfl, hu⟩ := List.map_eq_singleton_iff.1 h₂
  have hopen : step s t = .ok { s with openClass := some { negated, offset := t.offset } } := by
    simp only [step, hs.noClass, ht]
  have hread : ({ negated, offset := t.offset } : OpenClass).reading cs = some ms := by
    simp [OpenClass.reading, Pending.chars, readMembers_of_classReads hg hcs]
  obtain ⟨k, hrun, hneg, hend⟩ := run_members (h₁.trans hcs) rfl hread
    (show ({ s with openClass := some { negated, offset := t.offset } } : State).openClass = _
      from rfl)
  have hclose : step { s with openClass := some k } u =
      .ok (({ s with openClass := none } : State).push (.charClass negated ms) true) := by
    simp only [step, hu, OpenClass.close_eq hend, hneg]
  refine ⟨_, run_append_ok (run_singleton hopen) (run_append_ok hrun (run_singleton hclose)),
    ?_, ?_⟩
  · rw [Node.captures, Node.references, hcaps, hrefs]
    exact ⟨rfl, rfl, rfl, rfl, rfl⟩
  · simp [State.push, unresolved, fillNumbers, hfill, Node.isRepeatable]

/-! ### Repetitions -/

theorem isPart_of_isRepeatable {n : Node} (hg : n.grammatical = true)
    (hr : n.isRepeatable = true) : n.isPart = true := by
  cases n <;> simp_all [Node.isRepeatable, Node.isPart, Node.isSequence, Node.isChoice]

theorem quantify_push {n : Node} {level : Level} {min : Nat} {max : Option Nat} {greedy : Bool}
    (hs : s.level = level.push n true) (hord : Node.inOrder min max = true) (offset : Nat) :
    s.quantify min max greedy offset =
      .ok { s with level := level.push (.repetition n min max greedy) false } := by
  unfold State.quantify
  rw [hs]
  cases max with
  | none => rfl
  | some x =>
    have hle : ¬ x < min := by simpa [Node.inOrder] using hord
    simp [Level.push, hle]

theorem reads_repetition {e : Node} (min : Nat) (max : Option Nat) (greedy : Bool)
    (ih : Reads e) : Reads (.repetition e min max greedy) := by
  refine .of_part fun hg s ts hts hs => ?_
  simp only [Node.grammatical, Bool.and_eq_true] at hg
  obtain ⟨⟨hge, hr⟩, hord⟩ := hg
  obtain ⟨ts₁, ts₂, rfl, h₁, h₂⟩ := List.map_eq_append_iff.1 hts
  obtain ⟨u, rfl, hu⟩ := List.map_eq_singleton_iff.1 h₂
  obtain ⟨s₁, hrun, hmoved, hlevel⟩ := ih.part (isPart_of_isRepeatable hge hr) s ts₁ h₁ hs
  rw [hr] at hlevel
  have hstep : step s₁ u =
      .ok { s₁ with level := s.level.push (.repetition (unresolved e) min max greedy) false } := by
    simp only [step, hmoved.noClass, hu, quantify_push hlevel hord]
  exact ⟨_, run_append_ok hrun (run_singleton hstep),
    ⟨hmoved.frames, hmoved.noClass, hmoved.captures, hmoved.names, hmoved.references⟩, rfl⟩

/-! ### Groups -/

/-- The number and name that a group of the kind has, if it captures. -/
def kindCaptures : GroupKind → List (Nat × Option Text)
  | .capturing number name => [(number, name)]
  | _ => []

theorem captures_group (kind : GroupKind) (e : Node) :
    (Node.group kind e).captures = kindCaptures kind ++ e.captures := by
  cases kind <;> rfl

/-- The state in which the body of a group is read. -/
def State.inside (s : State) (kind : GroupKind) (offset : Nat) : State :=
  { s with
    frames := ⟨kind, offset, s.level⟩ :: s.frames
    level := {}
    captures := s.captures + (kindCaptures kind).length
    names := (groupNames (kindCaptures kind)).reverse ++ s.names }

theorem lookup_eq_none_of_nodup {name : Text} {n : Nat} {names : List (Text × Nat)}
    (h : (((name, n) :: names).map Prod.fst).Nodup) : names.lookup name = none := by
  rw [List.lookup_eq_none_iff]
  intro p hp
  have hnew : name ∉ names.map Prod.fst := (List.nodup_cons.1 h).1
  rw [bne_iff_ne]
  exact fun heq => hnew (List.mem_map.2 ⟨p, hp, heq.symm⟩)

/-- A group with the next number and a new name opens where there is room for it. -/
theorem openGroup_eq {kind : GroupKind} (hs : s.Ready (kindCaptures kind ++ gs) (depth + 1))
    (offset : Nat) : s.openGroup kind.opener offset = .ok (s.inside kind offset) := by
  have hdepth : ¬ maxDepth ≤ s.frames.length := by
    have := hs.depth
    omega
  have hnumbers := hs.numbers
  have hnames := hs.names
  unfold State.openGroup
  rw [if_neg hdepth]
  cases kind with
  | capturing number name =>
    simp only [kindCaptures, List.cons_append, List.nil_append, List.map_cons, List.length_cons,
      List.range'_succ, List.cons.injEq] at hnumbers
    cases name with
    | none => simp [GroupKind.opener, State.inside, kindCaptures, groupNames, hnumbers.1]
    | some name =>
      have hnew : s.names.lookup name = none := by
        rw [groupNames_append, List.reverse_append, List.append_assoc, List.map_append] at hnames
        exact lookup_eq_none_of_nodup (List.nodup_append.1 hnames).2.1
      simp [GroupKind.opener, State.inside, kindCaptures, groupNames, hnumbers.1, hnew]
  | _ => rfl

theorem State.Ready.inside {kind : GroupKind}
    (hs : s.Ready (kindCaptures kind ++ gs) (depth + 1)) (offset : Nat) :
    (s.inside kind offset).Ready gs depth where
  noClass := hs.noClass
  numbers := by
    have hn := hs.numbers
    rw [List.map_append, List.length_append, ← List.range'_append_1] at hn
    rw [(List.append_inj hn (by simp)).2, State.inside, Nat.add_right_comm]
  names := by
    have hn := hs.names
    rwa [groupNames_append, List.reverse_append, List.append_assoc] at hn
  depth := by
    have := hs.depth
    simp only [State.inside, List.length_cons]
    omega

theorem reads_group {e : Node} (kind : GroupKind) (ih : Reads e) : Reads (.group kind e) := by
  refine .of_part fun hg s ts hts hs => ?_
  simp only [Node.grammatical] at hg
  rw [captures_group] at hs
  obtain ⟨t, rest, rfl, ht, hrest⟩ := List.map_eq_cons_iff.1 hts
  obtain ⟨ts₁, ts₂, rfl, h₁, h₂⟩ := List.map_eq_append_iff.1 hrest
  obtain ⟨u, rfl, hu⟩ := List.map_eq_singleton_iff.1 h₂
  have hopen : step s t = .ok (s.inside kind t.offset) := by
    simp only [step, hs.noClass, ht, openGroup_eq hs]
  obtain ⟨s₁, hrun, hmoved, hclose⟩ := ih.body hg _ ts₁ h₁ (hs.inside t.offset) rfl
  have hstep : step s₁ u = .ok { s₁ with
      frames := s.frames
      level := s.level.push (.group kind (unresolved e)) (!kind.isLookbehind) } := by
    simp only [step, hmoved.noClass, hu, State.closeGroup, hmoved.frames, State.inside, hclose]
  refine ⟨_, run_append_ok (run_singleton hopen) (run_append_ok hrun (run_singleton hstep)),
    ⟨rfl, hmoved.noClass, ?_, ?_, hmoved.references⟩, rfl⟩
  · rw [captures_group, List.length_append, ← Nat.add_assoc]
    exact hmoved.captures
  · rw [captures_group, groupNames_append, List.reverse_append, List.append_assoc]
    exact hmoved.names

/-! ### Bodies -/

/-- Every grammatical tree is read from its tokens. -/
theorem reads (n : Node) : Reads n := by
  induction n with
  | regExp _ _ _ =>
    refine .of_part fun hg => ?_
    simp [Node.grammatical] at hg
  | alternative _ ih => exact reads_alternative ih
  | disjunction _ ih => exact reads_disjunction ih
  | group kind _ ih => exact reads_group kind ih
  | backreference target number => exact reads_backreference target number
  | assertion kind => exact reads_assertion kind
  | char c => exact reads_char c
  | charClass negated ms _ => exact reads_charClass negated ms
  | classRange _ _ =>
    refine .of_part fun hg => ?_
    simp [Node.grammatical] at hg
  | repetition _ min max greedy ih => exact reads_repetition min max greedy ih

/-- A name that occurs once is found with its number. -/
theorem lookup_eq_some_of_nodup {name : Text} {n : Nat} {names : List (Text × Nat)}
    (hnodup : (names.map Prod.fst).Nodup) (hmem : (name, n) ∈ names) :
    names.lookup name = some n := by
  induction names with
  | nil => cases hmem
  | cons p names ih =>
    obtain ⟨m, k⟩ := p
    obtain ⟨hm, hrest⟩ := List.nodup_cons.1 hnodup
    rw [List.lookup_cons]
    rcases List.mem_cons.1 hmem with heq | hmem
    · obtain ⟨rfl, rfl⟩ := Prod.mk.inj heq
      simp
    · have hne : (name == m) = false :=
        beq_false_of_ne fun heq => hm (List.mem_map.2 ⟨(name, n), hmem, heq⟩)
      simp only [hne, ih hrest hmem]

/-- The reader accepts the tokens of a well-formed tree and makes that tree of them. -/
theorem parseTokens_of_wellFormed {t : Node} (ht : t.WellFormed) {ts : List Token}
    (hts : ts.map Token.kind = t.yield) : parseTokens ts = .ok t := by
  have hready : ({} : State).Ready t.captures t.groupDepth := by
    refine ⟨rfl, ht.numbers, ?_, by simpa using ht.depth⟩
    rw [List.append_nil, List.map_reverse]
    exact List.nodup_reverse.2 ht.names
  obtain ⟨s, hrun, hmoved, hclose⟩ := (reads t).body ht.shape {} ts hts hready rfl
  have hresolve : ∀ r ∈ t.references, s.resolve? r.1 = some r.2 := by
    intro ⟨target, number⟩ hr
    have := ht.resolved _ hr
    cases target with
    | number m =>
      obtain ⟨hnumber, h1, hm⟩ := this
      simp only at hnumber
      simp only [State.resolve?, hmoved.captures, hnumber]
      exact if_pos ⟨h1, by simpa using hm⟩
    | name name =>
      simp only [State.resolve?, hmoved.names, List.append_nil]
      refine lookup_eq_some_of_nodup ?_ (List.mem_reverse.2 ?_)
      · rw [List.map_reverse]
        exact List.nodup_reverse.2 ht.names
      · exact List.mem_filterMap.2 ⟨(number, some name), this, rfl⟩
  have hfind : (s.references.reverse.find? fun r => (s.resolve? r.1).isNone) = none := by
    rw [List.find?_eq_none]
    intro r hr
    have hmem : r.1 ∈ s.references.map Prod.fst := List.mem_map_of_mem (List.mem_reverse.1 hr)
    rw [hmoved.references, List.map_nil, List.append_nil, List.mem_reverse] at hmem
    obtain ⟨q, hq, hqr⟩ := List.mem_map.1 hmem
    rw [← hqr, hresolve q hq]
    simp
  rw [parseTokens, hrun]
  simp only [Except.bind, State.finish, hmoved.noClass, hmoved.frames, hfind, hclose,
    fillNumbers_unresolved]
  rw [fillNumbers_eq_self fun r hr => by rw [hresolve r hr]; rfl]

end RegexKit.Parser
