import RegexKit.Proofs.Grammar.Completeness
import RegexKit.Proofs.Token.Produced
import RegexKit.Source

/-! The reader accepts only what the grammar allows. What it holds between two tokens is the
beginning of a well-formed tree: the open groups, the level and the open class yield
the tokens taken so far, and a token is taken exactly when it extends that beginning. A list
that is accepted is therefore the yield of the tree made of it, and together with completeness
the reader accepts exactly the yields of well-formed trees. -/

namespace RegexKit.Parser

open Node (yield yieldList yieldBranches yieldMore captures capturesList references referencesList
  groupNames groupDepth groupDepthList)

/-! ### Levels -/

/-- The tokens of branches, each before a bar. -/
def yieldBefore : List Node → List TokenKind
  | [] => []
  | b :: bs => b.yield ++ .bar :: yieldBefore bs

theorem yieldBefore_append (bs cs : List Node) :
    yieldBefore (bs ++ cs) = yieldBefore bs ++ yieldBefore cs := by
  induction bs with
  | nil => rfl
  | cons b bs ih => simp [yieldBefore, ih]

/-- The tokens read at a level. -/
def Level.yield (l : Level) : List TokenKind :=
  yieldBefore l.branches.reverse ++ yieldList l.items.reverse

/-- The nodes read at a level. -/
def Level.nodes (l : Level) : List Node := l.branches.reverse ++ l.items.reverse

/-- What is read at a level may stand there inside so many groups. -/
structure Level.Sound (l : Level) (around : Nat) : Prop where
  items : ∀ n ∈ l.items, n.isPart = true
  branches : ∀ b ∈ l.branches, b.isBranch = true
  depth : ∀ n ∈ l.nodes, n.groupDepth + around ≤ maxDepth
  repeatable : l.repeatable = true → ∃ n ns, l.items = n :: ns ∧ n.isRepeatable = true

theorem yield_collapse_alternative (es : List Node) :
    (collapse .alternative es).yield = yieldList es :=
  apply_collapse (fun _ => rfl) (fun _ => List.append_nil _) es

theorem yield_collapse_disjunction (bs : List Node) :
    (collapse .disjunction bs).yield = yieldBranches bs :=
  apply_collapse (fun _ => rfl) (fun _ => List.append_nil _) bs

theorem yieldBranches_concat (bs : List Node) (b : Node) :
    yieldBranches (bs ++ [b]) = yieldBefore bs ++ b.yield := by
  have hmore : ∀ cs : List Node, yieldMore (cs ++ [b]) = .bar :: (yieldBefore cs ++ b.yield) := by
    intro cs
    induction cs with
    | nil => simp [yieldMore, yieldBefore]
    | cons c cs ih => simp [yieldMore, yieldBefore, ih]
  cases bs with
  | nil => simp [yieldBranches, yieldMore, yieldBefore]
  | cons c cs => simp [yieldBranches, yieldBefore, hmore]

/-- A finished level yields the tokens read at it. -/
theorem Level.yield_close (l : Level) : l.close.yield = l.yield := by
  rw [Level.close_eq, yield_collapse_disjunction, Level.all, List.reverse_cons,
    yieldBranches_concat, yield_collapse_alternative, Level.yield]

theorem capturesList_append (ns ms : List Node) :
    capturesList (ns ++ ms) = capturesList ns ++ capturesList ms := by
  simp only [Node.capturesList_eq, List.flatMap_append]

theorem referencesList_append (ns ms : List Node) :
    referencesList (ns ++ ms) = referencesList ns ++ referencesList ms := by
  simp only [referencesList_eq, List.flatMap_append]

theorem captures_collapse {make : List Node → Node}
    (hmake : ∀ ns, (make ns).captures = capturesList ns) (ns : List Node) :
    (collapse make ns).captures = capturesList ns :=
  apply_collapse hmake (fun _ => List.append_nil _) ns

theorem references_collapse {make : List Node → Node}
    (hmake : ∀ ns, (make ns).references = referencesList ns) (ns : List Node) :
    (collapse make ns).references = referencesList ns :=
  apply_collapse hmake (fun _ => List.append_nil _) ns

theorem groupDepth_collapse {make : List Node → Node}
    (hmake : ∀ ns, (make ns).groupDepth = groupDepthList ns) (ns : List Node) :
    (collapse make ns).groupDepth = groupDepthList ns :=
  apply_collapse hmake (fun _ => Nat.max_zero _) ns

theorem Level.captures_close (l : Level) : l.close.captures = capturesList l.nodes := by
  have hitems : (collapse .alternative l.items.reverse).captures = capturesList l.items.reverse :=
    captures_collapse (fun _ => rfl) _
  rw [Level.close_eq, captures_collapse fun _ => rfl, Level.all, List.reverse_cons,
    capturesList_append, Level.nodes, capturesList_append]
  simp [capturesList, hitems]

theorem Level.references_close (l : Level) : l.close.references = referencesList l.nodes := by
  have hitems : (collapse .alternative l.items.reverse).references =
      referencesList l.items.reverse := references_collapse (fun _ => rfl) _
  rw [Level.close_eq, references_collapse fun _ => rfl, Level.all, List.reverse_cons,
    referencesList_append, Level.nodes, referencesList_append]
  simp [referencesList, hitems]

/-- A sequence of parts is a branch. -/
theorem isBranch_collapse {es : List Node} (hes : ∀ e ∈ es, e.isPart = true) :
    (collapse .alternative es).isBranch = true := by
  have hlist : es.length ≠ 1 → (Node.alternative es).isBranch = true := fun hlen => by
    simp [Node.isBranch, Node.grammatical, Node.isChoice, Node.grammaticalParts_eq,
      List.all_eq_true.2 hes, hlen]
  cases es with
  | nil => exact hlist (by simp)
  | cons e es =>
    cases es with
    | nil => exact Node.isBranch_of_isPart (hes e List.mem_cons_self)
    | cons _ _ => exact hlist (by simp)

variable {l : Level} {around : Nat}

/-- The branches of a level, the current one included, are branches. -/
theorem Level.Sound.all (hl : l.Sound around) : ∀ b ∈ l.all, b.isBranch = true := by
  intro b hb
  rw [Level.all, List.mem_reverse, List.mem_cons] at hb
  rcases hb with rfl | hb
  · exact isBranch_collapse fun e he => hl.items e (List.mem_reverse.1 he)
  · exact hl.branches b hb

/-- A choice of branches is grammatical. -/
theorem grammatical_collapse {bs : List Node} (hne : bs ≠ []) (hbs : ∀ b ∈ bs, b.isBranch = true) :
    (collapse .disjunction bs).grammatical = true := by
  match bs, hne, hbs with
  | [b], _, hbs =>
    have := hbs b List.mem_cons_self
    simp_all [Node.isBranch, collapse]
  | b :: c :: bs, _, hbs =>
    rw [collapse, Node.grammatical, Node.grammaticalBranches_eq, List.all_eq_true.2 hbs]
    · simp
    · simp

theorem Level.Sound.grammatical_close (hl : l.Sound around) : l.close.grammatical = true := by
  rw [Level.close_eq]
  exact grammatical_collapse (by simp [Level.all]) hl.all

theorem Level.Sound.depth_close (hl : l.Sound around) (haround : around ≤ maxDepth) :
    l.close.groupDepth + around ≤ maxDepth := by
  have hle : groupDepthList l.all ≤ maxDepth - around := by
    rw [Node.groupDepthList_le]
    intro b hb
    rw [Level.all, List.mem_reverse, List.mem_cons] at hb
    rcases hb with rfl | hb
    · rw [groupDepth_collapse fun _ => rfl, Node.groupDepthList_le]
      intro n hn
      have := hl.depth n (by simp [Level.nodes, List.mem_reverse.1 hn])
      omega
    · have := hl.depth b (by simp [Level.nodes, hb])
      omega
  rw [Level.close_eq, groupDepth_collapse fun _ => rfl]
  omega

theorem Level.Sound.empty : ({} : Level).Sound around where
  items _ h := by cases h
  branches _ h := by cases h
  depth _ h := by cases h
  repeatable h := by cases h

theorem Level.Sound.push (hl : l.Sound around) {n : Node} {r : Bool} (hn : n.isPart = true)
    (hdepth : n.groupDepth + around ≤ maxDepth) (hr : r = true → n.isRepeatable = true) :
    (l.push n r).Sound around where
  items m hm := by
    rcases List.mem_cons.1 hm with rfl | hm
    · exact hn
    · exact hl.items m hm
  branches := hl.branches
  depth m hm := by
    simp only [Level.nodes, Level.push, List.reverse_cons, List.mem_append, List.mem_singleton]
      at hm
    rcases hm with hm | hm | rfl
    · exact hl.depth m (by simp_all [Level.nodes])
    · exact hl.depth m (by simp_all [Level.nodes])
    · exact hdepth
  repeatable h := ⟨n, l.items, rfl, hr h⟩

theorem Level.Sound.bar (hl : l.Sound around) (haround : around ≤ maxDepth) :
    l.bar.Sound around where
  items _ h := by cases h
  branches b hb := hl.all b (List.mem_reverse.2 hb)
  depth b hb := by
    simp only [Level.nodes, Level.bar, List.reverse_nil, List.append_nil, List.mem_reverse,
      List.mem_cons] at hb
    rcases hb with rfl | hb
    · have hle : groupDepthList l.items.reverse ≤ maxDepth - around := by
        rw [Node.groupDepthList_le]
        intro n hn
        have := hl.depth n (by simp [Level.nodes, List.mem_reverse.1 hn])
        omega
      rw [groupDepth_collapse fun _ => rfl]
      omega
    · exact hl.depth b (by simp [Level.nodes, hb])
  repeatable h := by cases h

@[simp] theorem Level.yield_push (l : Level) (n : Node) (r : Bool) :
    (l.push n r).yield = l.yield ++ n.yield := by
  simp [Level.yield, Level.push, Node.yieldList_append, yieldList]

theorem Level.yield_bar (l : Level) : l.bar.yield = l.yield ++ [.bar] := by
  simp [Level.yield, Level.bar, yieldBefore_append, yieldBefore, yield_collapse_alternative,
    yieldList]

/-! ### States -/

/-- The tokens that opened the groups, each after what was read around it. -/
def yieldOpen : List Frame → List TokenKind
  | [] => []
  | f :: fs => yieldOpen fs ++ f.outer.yield ++ [.groupOpen f.kind.opener]

/-- The capturing groups begun before the current level, in order. -/
def capturesOpen : List Frame → List (Nat × Option Text)
  | [] => []
  | f :: fs => capturesOpen fs ++ capturesList f.outer.nodes ++ kindCaptures f.kind

/-- The references before the current level, in order. -/
def referencesOpen : List Frame → List (RefTarget × Nat)
  | [] => []
  | f :: fs => referencesOpen fs ++ referencesList f.outer.nodes

/-- Every open group stands where it may. -/
def soundOpen : List Frame → Prop
  | [] => True
  | f :: fs => f.outer.Sound fs.length ∧ soundOpen fs

namespace State

/-- The tokens taken before the open class, if there is one. -/
def yield (s : State) : List TokenKind := yieldOpen s.frames ++ s.level.yield

/-- The capturing groups begun. -/
def captured (s : State) : List (Nat × Option Text) :=
  capturesOpen s.frames ++ capturesList s.level.nodes

/-- The references met. -/
def mentioned (s : State) : List (RefTarget × Nat) :=
  referencesOpen s.frames ++ referencesList s.level.nodes

/-- What has been read may stand where it was read. -/
structure Shaped (s : State) : Prop where
  frames : soundOpen s.frames
  level : s.level.Sound s.frames.length
  depth : s.frames.length ≤ maxDepth

/-- The counters of the state describe what has been read. -/
structure Counted (s : State) : Prop where
  numbers : s.captured.map Prod.fst = List.range' 1 s.captures
  names : s.names = (groupNames s.captured).reverse
  distinct : (s.names.map Prod.fst).Nodup
  references : s.mentioned = s.references.reverse.map fun r => (r.1, 0)

/-- The tokens are those that the state has taken. -/
def Took (s : State) (ks : List TokenKind) : Prop :=
  match s.openClass with
  | none => ks = s.yield
  | some k => ∃ cs : List PatternChar, ks = s.yield ++ .classOpen k.negated :: cs.map .char ∧
      k.pending.isSound = true ∧ ∀ rest, k.reading rest = readMembers (cs ++ rest)

/-- The state is the beginning of a well-formed tree that yields the tokens so far. -/
structure Sound (s : State) (ks : List TokenKind) : Prop where
  shaped : s.Shaped
  counted : s.Counted
  took : s.Took ks

end State

theorem sound_init : ({} : State).Sound [] where
  shaped := ⟨trivial, .empty, Nat.zero_le _⟩
  counted := ⟨rfl, rfl, List.nodup_nil, rfl⟩
  took := rfl

/-! ### One token -/

variable {s s' : State} {ks : List TokenKind}

/-- A further item changes the record by its own groups and references. -/
theorem captured_push (s : State) (n : Node) (r : Bool) :
    (s.push n r).captured = s.captured ++ n.captures := by
  simp [State.captured, State.push, Level.nodes, Level.push, capturesList_append, capturesList]

theorem mentioned_push (s : State) (n : Node) (r : Bool) :
    (s.push n r).mentioned = s.mentioned ++ n.references := by
  simp [State.mentioned, State.push, Level.nodes, Level.push, referencesList_append,
    referencesList]

theorem yield_push (s : State) (n : Node) (r : Bool) :
    (s.push n r).yield = s.yield ++ n.yield := by
  simp [State.yield, State.push]

theorem State.Shaped.push (hs : s.Shaped) {n : Node} {r : Bool} (hn : n.isPart = true)
    (hdepth : n.groupDepth + s.frames.length ≤ maxDepth) (hr : r = true → n.isRepeatable = true) :
    (s.push n r).Shaped where
  frames := hs.frames
  level := hs.level.push hn hdepth hr
  depth := hs.depth

/-- A state with the same counters where the same groups and references are met. -/
theorem State.Counted.of_eq (hs : s.Counted) (hcaptured : s'.captured = s.captured)
    (hmentioned : s'.mentioned = s.mentioned) (hcaptures : s'.captures = s.captures)
    (hnames : s'.names = s.names) (hreferences : s'.references = s.references) :
    s'.Counted where
  numbers := by rw [hcaptured, hcaptures, hs.numbers]
  names := by rw [hcaptured, hnames, hs.names]
  distinct := by rw [hnames]; exact hs.distinct
  references := by rw [hmentioned, hreferences, hs.references]

/-- Outside classes a token extends what has been yielded by itself. -/
theorem State.Took.of_yield {k : TokenKind} (hs : s.Took ks) (hclass : s.openClass = none)
    (hclass' : s'.openClass = none) (hyield : s'.yield = s.yield ++ [k]) :
    s'.Took (ks ++ [k]) := by
  rw [State.Took, hclass] at hs
  rw [State.Took, hclass', hyield, hs]

/-- An item of one token, without groups and references. -/
theorem State.Sound.push_leaf (hs : s.Sound ks) (hclass : s.openClass = none) {n : Node}
    {k : TokenKind} {r : Bool} (hn : n.isPart = true) (hflat : n.groupDepth = 0)
    (hcaps : n.captures = []) (hrefs : n.references = []) (hyield : n.yield = [k])
    (hr : r = true → n.isRepeatable = true) : (s.push n r).Sound (ks ++ [k]) where
  shaped := hs.shaped.push hn (by have := hs.shaped.depth; omega) hr
  counted := hs.counted.of_eq (by rw [captured_push, hcaps, List.append_nil])
    (by rw [mentioned_push, hrefs, List.append_nil]) rfl rfl rfl
  took := hs.took.of_yield hclass hclass (by rw [yield_push, hyield])

theorem State.Sound.push_backreference (hs : s.Sound ks) (hclass : s.openClass = none)
    (target : RefTarget) (offset : Nat) :
    (({ s with references := (target, offset) :: s.references } : State).push
      (.backreference target 0) true).Sound (ks ++ [.backreference target]) where
  shaped :=
    have hshaped : ({ s with references := (target, offset) :: s.references } : State).Shaped :=
      ⟨hs.shaped.frames, hs.shaped.level, hs.shaped.depth⟩
    hshaped.push rfl (by rw [Node.groupDepth, Nat.zero_add]; exact hs.shaped.depth) fun _ => rfl
  counted := by
    have hbefore : ({ s with references := (target, offset) :: s.references } : State).mentioned =
        s.references.reverse.map fun r => (r.1, 0) := hs.counted.references
    refine ⟨?_, ?_, hs.counted.distinct, ?_⟩
    · rw [captured_push, Node.captures, List.append_nil]
      exact hs.counted.numbers
    · rw [captured_push, Node.captures, List.append_nil]
      exact hs.counted.names
    · rw [mentioned_push, Node.references, hbefore]
      simp [State.push]
  took := hs.took.of_yield hclass hclass (by rw [yield_push]; rfl)

theorem State.Sound.bar (hs : s.Sound ks) (hclass : s.openClass = none) :
    ({ s with level := s.level.bar } : State).Sound (ks ++ [.bar]) where
  shaped := ⟨hs.shaped.frames, hs.shaped.level.bar hs.shaped.depth, hs.shaped.depth⟩
  counted := by
    have hitem : (collapse .alternative s.level.items.reverse).captures =
        capturesList s.level.items.reverse := captures_collapse (fun _ => rfl) _
    have hitem' : (collapse .alternative s.level.items.reverse).references =
        referencesList s.level.items.reverse := references_collapse (fun _ => rfl) _
    refine hs.counted.of_eq ?_ ?_ rfl rfl rfl
    · simp [State.captured, Level.nodes, Level.bar, capturesList_append, capturesList, hitem]
    · simp [State.mentioned, Level.nodes, Level.bar, referencesList_append, referencesList, hitem']
  took := hs.took.of_yield hclass hclass (by simp [State.yield, Level.yield_bar])

/-- What it takes to open a group, and the state inside it. -/
theorem openGroup_eq_ok {how : GroupOpen} {offset : Nat} (hnames : (s.names.map Prod.fst).Nodup)
    (h : s.openGroup how offset = .ok s') :
    s.frames.length < maxDepth ∧ ∃ kind : GroupKind, kind.opener = how ∧
      s' = s.inside kind offset ∧
      (kindCaptures kind).map Prod.fst = List.range' (s.captures + 1) (kindCaptures kind).length ∧
      (((groupNames (kindCaptures kind)).reverse ++ s.names).map Prod.fst).Nodup := by
  unfold State.openGroup at h
  split at h
  · cases h
  · rename_i hdepth
    refine ⟨Nat.lt_of_not_le hdepth, ?_⟩
    cases how with
    | capturing =>
      cases h
      exact ⟨.capturing (s.captures + 1) none, rfl, rfl, rfl, hnames⟩
    | named name =>
      simp only at h
      split at h
      · cases h
      · rename_i hnew
        cases h
        refine ⟨.capturing (s.captures + 1) (some name), rfl, rfl, rfl, ?_⟩
        simp only [List.lookup_isSome_iff, not_exists, not_and, beq_iff_eq] at hnew
        refine List.nodup_cons.2 ⟨fun hmem => ?_, hnames⟩
        obtain ⟨p, hp, heq⟩ := List.mem_map.1 hmem
        exact hnew p hp heq.symm
    | nonCapturing => cases h; exact ⟨.nonCapturing, rfl, rfl, rfl, hnames⟩
    | lookahead => cases h; exact ⟨.lookahead, rfl, rfl, rfl, hnames⟩
    | negativeLookahead => cases h; exact ⟨.negativeLookahead, rfl, rfl, rfl, hnames⟩
    | lookbehind => cases h; exact ⟨.lookbehind, rfl, rfl, rfl, hnames⟩
    | negativeLookbehind => cases h; exact ⟨.negativeLookbehind, rfl, rfl, rfl, hnames⟩

theorem State.Sound.inside (hs : s.Sound ks) (hclass : s.openClass = none) {kind : GroupKind}
    (offset : Nat) (hdepth : s.frames.length < maxDepth)
    (hnumbers : (kindCaptures kind).map Prod.fst =
      List.range' (s.captures + 1) (kindCaptures kind).length)
    (hnames : (((groupNames (kindCaptures kind)).reverse ++ s.names).map Prod.fst).Nodup) :
    (s.inside kind offset).Sound (ks ++ [.groupOpen kind.opener]) where
  shaped := ⟨⟨hs.shaped.level, hs.shaped.frames⟩, .empty, hdepth⟩
  counted := by
    have hcaptured : (s.inside kind offset).captured = s.captured ++ kindCaptures kind := by
      simp [State.captured, State.inside, capturesOpen, Level.nodes, capturesList]
    have hmentioned : (s.inside kind offset).mentioned = s.mentioned := by
      simp [State.mentioned, State.inside, referencesOpen, Level.nodes, referencesList]
    refine ⟨?_, ?_, hnames, ?_⟩
    · rw [hcaptured, List.map_append, hs.counted.numbers, hnumbers, Nat.add_comm s.captures 1,
        List.range'_append_1]
      rfl
    · rw [hcaptured, groupNames_append, List.reverse_append, ← hs.counted.names]
      rfl
    · rw [hmentioned, hs.counted.references]
      rfl
  took := hs.took.of_yield hclass hclass
    (by simp [State.yield, State.inside, yieldOpen, Level.yield, yieldBefore, yieldList])

/-- A group that closes becomes an item of the level around it. -/
theorem closeGroup_sound {offset : Nat} (hs : s.Sound ks) (hclass : s.openClass = none)
    (h : s.closeGroup offset = .ok s') : s'.Sound (ks ++ [.groupClose]) := by
  unfold State.closeGroup at h
  split at h
  · cases h
  · rename_i f fs hframes
    cases h
    have hshaped := hs.shaped
    have hframesSound := hshaped.frames
    have hdepth := hshaped.depth
    have hlevel := hshaped.level
    rw [hframes] at hframesSound hdepth hlevel
    rw [List.length_cons] at hdepth hlevel
    have hclose := hlevel.depth_close hdepth
    refine ⟨⟨hframesSound.2, hframesSound.1.push ?_ ?_ ?_, ?_⟩, ?_, ?_⟩
    · simp [Node.isPart, Node.grammatical, hlevel.grammatical_close, Node.isSequence,
        Node.isChoice]
    · simp only [groupDepth]
      omega
    · exact id
    · exact Nat.le_of_succ_le hdepth
    · refine hs.counted.of_eq ?_ ?_ rfl rfl rfl
      · simp [State.captured, hframes, capturesOpen, Level.nodes, Level.push, capturesList_append,
          capturesList, captures_group, Level.captures_close]
      · simp [State.mentioned, hframes, referencesOpen, Level.nodes, Level.push,
          referencesList_append, referencesList, references, Level.references_close]
    · refine hs.took.of_yield hclass hclass ?_
      simp [State.yield, hframes, yieldOpen, yield, Level.yield_close]

/-- What a quantifier is applied to, and the state before that. -/
theorem quantify_eq_ok {min : Nat} {max : Option Nat} {greedy : Bool} {offset : Nat}
    (h : s.quantify min max greedy offset = .ok s') :
    ∃ (s₀ : State) (n : Node), s = s₀.push n true ∧
      s' = s₀.push (.repetition n min max greedy) false ∧ Node.inOrder min max = true ∧
      s₀.level.repeatable = false := by
  unfold State.quantify at h
  split at h
  · rename_i n rest hitems hrepeatable
    obtain ⟨⟨branches, items, repeatable⟩, frames, openClass, captures, names, references⟩ := s
    obtain rfl : items = n :: rest := hitems
    obtain rfl : repeatable = true := hrepeatable
    refine ⟨⟨⟨branches, rest, false⟩, frames, openClass, captures, names, references⟩, n, rfl, ?_⟩
    split at h
    · split at h
      · cases h
      · rename_i hord
        cases h
        exact ⟨rfl, by simpa [Node.inOrder] using hord, rfl⟩
    · cases h
      exact ⟨rfl, rfl, rfl⟩
  · cases h

theorem quantify_sound {min : Nat} {max : Option Nat} {greedy : Bool} {offset : Nat}
    (hs : s.Sound ks) (hclass : s.openClass = none)
    (h : s.quantify min max greedy offset = .ok s') :
    s'.Sound (ks ++ [.quantifier min max greedy]) := by
  obtain ⟨s₀, n, rfl, rfl, hord, hfalse⟩ := quantify_eq_ok h
  have hlevel := hs.shaped.level
  have hn := hlevel.items n List.mem_cons_self
  have hdepth := hlevel.depth n (by simp [State.push, Level.push, Level.nodes])
  obtain ⟨m, ms, hitems, hrep⟩ := hlevel.repeatable rfl
  obtain ⟨rfl, -⟩ := List.cons.inj hitems
  have hs₀ : s₀.Shaped := by
    refine ⟨hs.shaped.frames, ⟨fun e he => hlevel.items e (List.mem_cons_of_mem _ he),
      hlevel.branches, fun e he => hlevel.depth e ?_, fun h => ?_⟩, hs.shaped.depth⟩
    · simp only [Level.nodes, List.mem_append, List.mem_reverse] at he
      simp only [State.push, Level.push, Level.nodes, List.mem_append, List.mem_reverse,
        List.mem_cons]
      exact he.imp_right .inr
    · rw [hfalse] at h
      cases h
  refine ⟨hs₀.push ?_ hdepth (fun h => by cases h), ?_, ?_⟩
  · simp only [Node.isPart, Bool.and_eq_true] at hn
    simp [Node.isPart, Node.grammatical, hn.1.1, hrep, hord, Node.isSequence, Node.isChoice]
  · refine hs.counted.of_eq ?_ ?_ rfl rfl rfl
    · rw [captured_push, captured_push, captures]
    · rw [mentioned_push, mentioned_push, references]
  · refine hs.took.of_yield hclass hclass ?_
    rw [yield_push, yield_push, yield, List.append_assoc]

/-! ### Classes -/

/-- Every unescaped dash among the tokens is the plain character. -/
def PlainDashes (ks : List TokenKind) : Prop :=
  ∀ c : PatternChar, .char c ∈ ks → c.isDash = true → c = .simple '-'

theorem State.Sound.openClass (hs : s.Sound ks) (hclass : s.openClass = none) (negated : Bool)
    (offset : Nat) :
    ({ s with openClass := some { negated, offset } } : State).Sound
      (ks ++ [.classOpen negated]) where
  shaped := ⟨hs.shaped.frames, hs.shaped.level, hs.shaped.depth⟩
  counted := hs.counted.of_eq rfl rfl rfl rfl rfl
  took := by
    have htook := hs.took
    rw [State.Took, hclass] at htook
    exact ⟨[], by rw [htook]; rfl, rfl, fun rest => by simp [OpenClass.reading, Pending.chars]⟩

theorem State.Sound.addMember {k k' : OpenClass} {c : PatternChar} (hs : s.Sound ks)
    (hclass : s.openClass = some k) (hk : k.Takes c k') :
    ({ s with openClass := some k' } : State).Sound (ks ++ [.char c]) where
  shaped := ⟨hs.shaped.frames, hs.shaped.level, hs.shaped.depth⟩
  counted := hs.counted.of_eq rfl rfl rfl rfl rfl
  took := by
    have htook := hs.took
    rw [State.Took, hclass] at htook
    obtain ⟨cs, hks, -, hread⟩ := htook
    refine ⟨cs ++ [c], ?_, hk.sound, fun rest => ?_⟩
    · rw [hks, hk.negated]
      simp [State.yield]
    · rw [hk.reading, hread, List.append_assoc, List.singleton_append]

theorem State.Sound.closeClass {k : OpenClass} (hplain : PlainDashes ks) (hs : s.Sound ks)
    (hclass : s.openClass = some k) :
    (({ s with openClass := none } : State).push k.close true).Sound (ks ++ [.classClose]) := by
  have htook := hs.took
  rw [State.Took, hclass] at htook
  obtain ⟨cs, hks, -, hread⟩ := htook
  obtain ⟨ms, hms⟩ := k.exists_reading_nil
  have hmembers : readMembers cs = some ms := by
    rw [hread, List.append_nil] at hms
    exact hms
  obtain ⟨hreads, hyield⟩ := classReads_of_readMembers
    (fun c hc => hplain c (by simp [hks, hc])) hmembers
  obtain ⟨hcaps, hrefs, hflat⟩ := flat_of_classReads hreads
  have hpart : (Node.charClass k.negated ms).isPart = true := by
    simp [Node.isPart, Node.grammatical, hreads, Node.isSequence, Node.isChoice]
  rw [OpenClass.close_eq hms]
  refine ⟨⟨hs.shaped.frames, hs.shaped.level.push hpart ?_ fun _ => rfl, hs.shaped.depth⟩,
    ?_, ?_⟩
  · rw [Node.groupDepth, hflat, Nat.zero_add]
    exact hs.shaped.depth
  · refine hs.counted.of_eq ?_ ?_ rfl rfl rfl
    · rw [captured_push, Node.captures, hcaps, List.append_nil]
      rfl
    · rw [mentioned_push, Node.references, hrefs, List.append_nil]
      rfl
  · rw [State.Took]
    simp [State.push, hks, Node.yield, hyield, State.yield]

/-! ### All tokens -/

/-- Every token that is taken extends the beginning of a well-formed tree by itself. -/
theorem step_sound {t : Token} (hplain : PlainDashes ks) (hs : s.Sound ks)
    (h : step s t = .ok s') : s'.Sound (ks ++ [t.kind]) := by
  unfold step at h
  cases hclass : s.openClass with
  | some k =>
    rw [hclass] at h
    cases hk : t.kind with
    | char c =>
      simp only [hk] at h
      have hsound : k.pending.isSound = true := by
        have htook := hs.took
        rw [State.Took, hclass] at htook
        obtain ⟨-, -, hsound, -⟩ := htook
        exact hsound
      rcases OpenClass.add_spec hsound c t.offset with ⟨k', hadd, htakes⟩ | ⟨⟨e, hadd⟩, -⟩
      · rw [hadd] at h
        cases h
        exact hs.addMember hclass htakes
      · rw [hadd] at h
        cases h
    | classClose =>
      simp only [hk] at h
      cases h
      exact hs.closeClass hplain hclass
    | _ => simp [hk] at h
  | none =>
    rw [hclass] at h
    cases hk : t.kind with
    | char c =>
      simp only [hk] at h
      cases h
      exact hs.push_leaf hclass rfl rfl rfl rfl rfl fun _ => rfl
    | assertion kind =>
      simp only [hk] at h
      cases h
      exact hs.push_leaf hclass rfl rfl rfl rfl rfl fun h => by cases h
    | backreference target =>
      simp only [hk] at h
      cases h
      have hpush := hs.push_backreference hclass target t.offset
      rwa [hclass] at hpush
    | classOpen negated =>
      simp only [hk] at h
      cases h
      exact hs.openClass hclass negated t.offset
    | classClose => simp [hk] at h
    | groupOpen how =>
      simp only [hk] at h
      obtain ⟨hdepth, kind, rfl, rfl, hnumbers, hnames⟩ := openGroup_eq_ok hs.counted.distinct h
      exact hs.inside hclass t.offset hdepth hnumbers hnames
    | groupClose =>
      simp only [hk] at h
      exact closeGroup_sound hs hclass h
    | bar =>
      simp only [hk] at h
      cases h
      have hbar := hs.bar hclass
      rwa [hclass] at hbar
    | quantifier min max greedy =>
      simp only [hk] at h
      exact quantify_sound hs hclass h

theorem run_sound {ts : List Token} (hplain : PlainDashes (ks ++ ts.map Token.kind))
    (hs : s.Sound ks) (h : run s ts = .ok s') : s'.Sound (ks ++ ts.map Token.kind) := by
  induction ts generalizing s ks with
  | nil =>
    cases h
    simpa using hs
  | cons t ts ih =>
    rw [run] at h
    split at h
    · cases h
    · rename_i s₁ hstep
      have hks : PlainDashes ks := fun c hc => hplain c (by simp [hc])
      have hs₁ := step_sound hks hs hstep
      have happend : ks ++ (t :: ts).map Token.kind = ks ++ [t.kind] ++ ts.map Token.kind := by
        simp
      rw [happend] at hplain ⊢
      exact ih hplain hs₁ h

/-! ### Finished trees -/

/-- The number that a target resolves to is that of a group. -/
theorem targets_of_resolve? {target : RefTarget} {number : Nat} (hs : s.Counted)
    (h : s.resolve? target = some number) : Node.targets s.captured target number := by
  cases target with
  | number m =>
    have hlen : s.captured.length = s.captures := by
      have := congrArg List.length hs.numbers
      simpa using this
    rw [State.resolve?] at h
    split at h
    · rename_i hm
      cases h
      exact ⟨rfl, hm.1, by omega⟩
    · cases h
  | name name =>
    rw [State.resolve?] at h
    obtain ⟨before, after, hnames, -⟩ := List.lookup_eq_some_iff.1 h
    have hmem : (name, number) ∈ groupNames s.captured := by
      rw [← List.mem_reverse, ← hs.names, hnames]
      simp
    obtain ⟨g, hg, hgroup⟩ := List.mem_filterMap.1 hmem
    obtain ⟨name', hname, heq⟩ := Option.map_eq_some_iff.1 hgroup
    obtain ⟨rfl, rfl⟩ := Prod.mk.inj heq
    rw [Node.targets, ← hname]
    exact hg

/-- What the reader accepts is the yield of the well-formed tree that it makes. -/
theorem wellFormed_of_parseTokens {ts : List Token} {t : Node}
    (hplain : PlainDashes (ts.map Token.kind)) (h : parseTokens ts = .ok t) :
    t.WellFormed ∧ t.yield = ts.map Token.kind := by
  unfold parseTokens at h
  cases hrun : run {} ts with
  | error e =>
    rw [hrun] at h
    cases h
  | ok s =>
    rw [hrun] at h
    have hs : s.Sound (ts.map Token.kind) := by
      simpa using run_sound (by simpa using hplain) sound_init hrun
    change s.finish = .ok t at h
    unfold State.finish at h
    split at h
    · cases h
    · cases h
    · rename_i hclass hframes
      split at h
      · cases h
      · rename_i hfind
        cases h
        have hlevel := hs.shaped.level
        rw [hframes] at hlevel
        have hcaptures : (fillNumbers (fun target => (s.resolve? target).getD 0)
            s.level.close).captures = s.captured := by
          rw [captures_fillNumbers, Level.captures_close, State.captured, hframes]
          rfl
        have hlen : s.captured.length = s.captures := by
          have := congrArg List.length hs.counted.numbers
          simpa using this
        refine ⟨⟨grammatical_fillNumbers _ hlevel.grammatical_close, ?_, ?_, ?_, ?_⟩, ?_⟩
        · rw [groupDepth_fillNumbers]
          exact hlevel.depth_close (Nat.zero_le _)
        · rw [hcaptures, hs.counted.numbers, hlen]
        · have hdistinct := hs.counted.distinct
          rw [hs.counted.names, List.map_reverse, List.nodup_reverse] at hdistinct
          rw [hcaptures]
          exact hdistinct
        · intro r hr
          rw [references_fillNumbers, List.mem_map] at hr
          obtain ⟨q, hq, rfl⟩ := hr
          have hmentioned : q ∈ s.mentioned := by
            rw [State.mentioned, hframes]
            rwa [Level.references_close] at hq
          rw [hs.counted.references, List.mem_map] at hmentioned
          obtain ⟨p, hp, rfl⟩ := hmentioned
          have hsome := List.find?_eq_none.1 hfind p hp
          rw [Option.isNone_iff_eq_none] at hsome
          obtain ⟨number, hnumber⟩ := Option.ne_none_iff_exists'.1 hsome
          rw [hcaptures]
          simp only [hnumber, Option.getD_some]
          exact targets_of_resolve? hs.counted hnumber
        · have htook := hs.took
          rw [State.Took, hclass] at htook
          rw [yield_fillNumbers, Level.yield_close, htook, State.yield, hframes]
          rfl

/-! ### Exactness -/

/-- A token list is accepted with a tree exactly when it is the yield of that well-formed
tree. -/
theorem parseTokens_eq_ok_iff {ts : List Token} {t : Node}
    (hplain : PlainDashes (ts.map Token.kind)) :
    parseTokens ts = .ok t ↔ t.WellFormed ∧ t.yield = ts.map Token.kind :=
  ⟨wellFormed_of_parseTokens hplain, fun h => parseTokens_of_wellFormed h.1 h.2.symm⟩

/-- A body has a root exactly when it has tokens and its tokens have a tree. -/
theorem parseBody_eq_ok {body : Text} {flags : Flags} {n : Node} :
    Source.parseBody body flags = .ok n ↔
      ∃ ts t, Token.tokenize body = .ok ts ∧ parseTokens ts = .ok t ∧ n = .regExp t flags := by
  unfold Source.parseBody
  constructor
  · intro h
    cases hlex : Token.tokenize body with
    | error e =>
      rw [hlex] at h
      cases h
    | ok ts =>
      rw [hlex] at h
      cases hparse : parseTokens ts with
      | error e =>
        simp only [Except.mapError, bind, Except.bind, hparse] at h
        cases h
      | ok t =>
        simp only [Except.mapError, bind, Except.bind, hparse] at h
        cases h
        exact ⟨ts, t, rfl, hparse, rfl⟩
  · rintro ⟨ts, t, hlex, hparse, rfl⟩
    simp only [hlex, hparse, Except.mapError, bind, Except.bind]
    rfl

/-- The reader of token lists accepts exactly the yields of well-formed trees and returns the
tree; so a body is accepted exactly when its tokens are such a yield. -/
theorem reader_exact :
    (∀ (ts : List Token) (t : Node), PlainDashes (ts.map Token.kind) →
      (parseTokens ts = .ok t ↔ t.WellFormed ∧ t.yield = ts.map Token.kind)) ∧
    ∀ (body : Text) (flags : Flags) (n : Node), Source.parseBody body flags = .ok n ↔
      ∃ ts t, Token.tokenize body = .ok ts ∧ t.WellFormed ∧ t.yield = ts.map Token.kind ∧
        n = .regExp t flags := by
  refine ⟨fun ts t hplain => parseTokens_eq_ok_iff hplain, fun body flags n => ?_⟩
  rw [parseBody_eq_ok]
  constructor
  · rintro ⟨ts, t, hlex, hparse, rfl⟩
    have hplain := (Token.produced_of_tokenize hlex).plainDashes
    obtain ⟨hwell, hyield⟩ := (parseTokens_eq_ok_iff hplain).1 hparse
    exact ⟨ts, t, hlex, hwell, hyield, rfl⟩
  · rintro ⟨ts, t, hlex, hwell, hyield, rfl⟩
    exact ⟨ts, t, hlex, parseTokens_of_wellFormed hwell hyield.symm, rfl⟩

/-- The tokens of `[a-c]` are read as the class of a range. -/
theorem reader_exact_range :
    ∃ ts, Token.tokenize ['[', 'a', '-', 'c', ']'] = .ok ts ∧ PlainDashes (ts.map Token.kind) ∧
      parseTokens ts = .ok (.charClass false [.classRange (.simple 'a') (.simple 'c')]) := by
  have hlex : Token.tokenize ['[', 'a', '-', 'c', ']'] =
      .ok [⟨.classOpen false, ['['], 0⟩, ⟨.char (.simple 'a'), ['a'], 1⟩,
        ⟨.char (.simple '-'), ['-'], 2⟩, ⟨.char (.simple 'c'), ['c'], 3⟩,
        ⟨.classClose, [']'], 4⟩] := by decide +kernel
  have hplain := (Token.produced_of_tokenize hlex).plainDashes
  have hwell : (Node.charClass false
      [.classRange (.simple 'a') (.simple 'c')]).WellFormed := ⟨rfl, by decide, rfl, by decide,
    fun _ hr => by cases hr⟩
  exact ⟨_, hlex, hplain, (reader_exact.1 _ _ hplain).2 ⟨hwell, rfl⟩⟩

end RegexKit.Parser
