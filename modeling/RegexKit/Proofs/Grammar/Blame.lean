import RegexKit.Proofs.Grammar.Soundness

/-! What the errors of the reader say about the tokens. Every error has a cause and an offset, and
the token at the offset is at fault in the way that the cause says: which groups are open around
it, what stands before it, which group or reference it is. Between two tokens the reader keeps a
record of the tokens taken so far; each token extends the record or shows the fault that is
reported. -/

namespace RegexKit

def GroupOpen.isCapturing : GroupOpen → Bool
  | capturing | named _ => true
  | _ => false

def GroupOpen.isLookbehind : GroupOpen → Bool
  | lookbehind | negativeLookbehind => true
  | _ => false

theorem GroupKind.isLookbehind_opener (kind : GroupKind) :
    kind.opener.isLookbehind = kind.isLookbehind := by
  cases kind with
  | capturing number name => cases name <;> rfl
  | _ => rfl

namespace Parser

open Node (groupNames)
open Token (inClassAfterAll inClassAfter standsIn Produced)

/-! ### Groups among tokens -/

def isOpening : TokenKind → Bool
  | .groupOpen _ => true
  | _ => false

def isClosing : TokenKind → Bool
  | .groupClose => true
  | _ => false

/-- The number of groups that the tokens open. -/
def opened (ks : List TokenKind) : Nat := ks.countP isOpening

/-- The number of closing parentheses. -/
def closed (ks : List TokenKind) : Nat := ks.countP isClosing

/-- Nowhere do closings exceed openings, and in the end there are as many of both. -/
structure Balanced (ks : List TokenKind) : Prop where
  within (i : Nat) : closed (ks.take i) ≤ opened (ks.take i)
  all : closed ks = opened ks

/-- The tokens end inside so many open groups. -/
def EndsInside : Nat → List TokenKind → Prop
  | 0, ks => Balanced ks
  | n + 1, ks => ∃ before how after, ks = before ++ .groupOpen how :: after ∧
      EndsInside n before ∧ Balanced after

/-- The number of capturing groups that the tokens open. -/
def capturing (ks : List TokenKind) : Nat :=
  ks.countP fun k => match k with
    | .groupOpen how => how.isCapturing
    | _ => false

variable {ks ls : List TokenKind}

theorem opened_append (ks ls : List TokenKind) : opened (ks ++ ls) = opened ks + opened ls :=
  List.countP_append

theorem closed_append (ks ls : List TokenKind) : closed (ks ++ ls) = closed ks + closed ls :=
  List.countP_append

theorem opened_groupOpen (how : GroupOpen) (ks : List TokenKind) :
    opened (.groupOpen how :: ks) = opened ks + 1 := List.countP_cons_of_pos rfl

theorem closed_groupOpen (how : GroupOpen) (ks : List TokenKind) :
    closed (.groupOpen how :: ks) = closed ks := List.countP_cons_of_neg Bool.false_ne_true

theorem capturing_append (ks ls : List TokenKind) :
    capturing (ks ++ ls) = capturing ks + capturing ls := List.countP_append

theorem Balanced.nil : Balanced [] where
  within i := by rw [List.take_nil]; exact Nat.le_refl _
  all := rfl

theorem Balanced.append (h : Balanced ks) (h' : Balanced ls) : Balanced (ks ++ ls) where
  within i := by
    have hks := h.within i
    have hls := h'.within (i - ks.length)
    rw [List.take_append, closed_append, opened_append]
    omega
  all := by rw [closed_append, opened_append, h.all, h'.all]

/-- A token that neither opens nor closes a group. -/
theorem Balanced.single {k : TokenKind} (hopen : isOpening k = false)
    (hclose : isClosing k = false) : Balanced [k] where
  within i := by
    cases i with
    | zero => exact Nat.le_refl _
    | succ i => simp [closed, hclose]
  all := by simp [opened, closed, hopen, hclose]

/-- A group with what stands in it. -/
theorem Balanced.group (h : Balanced ks) (how : GroupOpen) :
    Balanced (.groupOpen how :: ks ++ [.groupClose]) where
  within i := by
    cases i with
    | zero => exact Nat.le_refl _
    | succ i =>
      have hks := h.within i
      have hlast : closed (([.groupClose] : List TokenKind).take (i - ks.length)) ≤ 1 :=
        Nat.le_trans List.countP_le_length (List.length_take_le' _ _)
      rw [List.cons_append, List.take_succ_cons, List.take_append, opened_groupOpen,
        closed_groupOpen, closed_append, opened_append]
      omega
  all := by
    rw [List.cons_append, opened_groupOpen, closed_groupOpen, closed_append, opened_append, h.all]
    rfl

theorem EndsInside.append {n : Nat} (h : EndsInside n ks) (h' : Balanced ls) :
    EndsInside n (ks ++ ls) := by
  cases n with
  | zero => exact Balanced.append h h'
  | succ n =>
    obtain ⟨before, how, after, rfl, hbefore, hafter⟩ := h
    exact ⟨before, how, after ++ ls, by simp, hbefore, hafter.append h'⟩

/-! ### What errors say -/

/-- A quantifier after these tokens has nothing to repeat: it comes first, or after a bar, an
opening, a quantifier, an assertion or the end of a lookbehind. -/
inductive NoOperand : List TokenKind → Prop
  | first : NoOperand []
  | bar (ks : List TokenKind) : NoOperand (ks ++ [.bar])
  | opening (ks : List TokenKind) (how : GroupOpen) : NoOperand (ks ++ [.groupOpen how])
  | quantifier (ks : List TokenKind) (min : Nat) (max : Option Nat) (greedy : Bool) :
      NoOperand (ks ++ [.quantifier min max greedy])
  | assertion (ks : List TokenKind) (kind : AssertionKind) : NoOperand (ks ++ [.assertion kind])
  | lookbehind (ks : List TokenKind) {how : GroupOpen} {ls : List TokenKind}
      (hhow : how.isLookbehind = true) (hls : Balanced ls) :
      NoOperand (ks ++ (.groupOpen how :: ls ++ [.groupClose]))

/-- No group that the tokens open has the number or the name. -/
def NamesNoGroup (ks : List TokenKind) : RefTarget → Prop
  | .number m => m = 0 ∨ capturing ks < m
  | .name t => .groupOpen (.named t) ∉ ks

/-- What a cause says about the token that it blames, the tokens before it and those after it. -/
def Fault (before : List TokenKind) (k : TokenKind) (after : List TokenKind) :
    ParseCause → Prop
  | .unmatchedClosingParen => k = .groupClose ∧ Balanced before
  | .unterminatedGroup => (∃ how, k = .groupOpen how) ∧ Balanced after
  | .nestingTooDeep => (∃ how, k = .groupOpen how) ∧ EndsInside maxDepth before
  | .nothingToRepeat => (∃ min max greedy, k = .quantifier min max greedy) ∧ NoOperand before
  | .repetitionOutOfOrder min max => (∃ greedy, k = .quantifier min (some max) greedy) ∧ max < min
  | .rangeOutOfOrder low high => inClassAfterAll false before = true ∧
      ∃ c d e rest x y, k = .char c ∧ after = .char d :: .char e :: rest ∧ d.isDash = true ∧
        c.codePoint? = some x ∧ e.codePoint? = some y ∧ y < x ∧ low = c.value ∧ high = e.value
  | .duplicateGroupName name =>
    k = .groupOpen (.named name) ∧ .groupOpen (.named name) ∈ before
  | .unresolvedReference target => k = .backreference target ∧
      NamesNoGroup (before ++ k :: after) target ∧
      ∀ earlier, .backreference earlier ∈ before → ¬NamesNoGroup (before ++ k :: after) earlier
  | .unterminatedClass | .unexpectedToken _ => False

/-- The error is true of the tokens: its cause holds of the token at its offset. -/
def Blamed (ts : List Token) (e : ParseError) : Prop :=
  ∃ before t after, ts = before ++ t :: after ∧ t.offset = e.offset ∧
    Fault (before.map Token.kind) t.kind (after.map Token.kind) e.cause

/-! ### The record of the tokens taken -/

/-- Each open group was opened by the token at its offset, and what stands between two openings
is balanced. -/
def Opened : List Frame → List Token → Prop
  | [], ts => Balanced (ts.map Token.kind)
  | f :: fs, ts => ∃ before t after, ts = before ++ t :: after ∧ t.offset = f.offset ∧
      t.kind = .groupOpen f.kind.opener ∧ Opened fs before ∧ Balanced (after.map Token.kind)

/-- The pending characters of a class are the last tokens. -/
def Awaited (ts : List Token) : Pending → Prop
  | .nothing => True
  | .first c offset => ∃ before t, ts = before ++ [t] ∧ t.kind = .char c ∧ t.offset = offset
  | .dashed c offset d dashOffset => ∃ before t u, ts = before ++ [t, u] ∧ t.kind = .char c ∧
      t.offset = offset ∧ u.kind = .char d ∧ u.offset = dashOffset ∧ d.isDash = true

/-- The target and the offset of a reference. -/
def reference? (t : Token) : Option (RefTarget × Nat) :=
  match t.kind with
  | .backreference target => some (target, t.offset)
  | _ => none

/-- What the state says about the tokens that it has taken. -/
structure State.Records (s : State) (ts : List Token) : Prop where
  inClass : inClassAfterAll false (ts.map Token.kind) = s.openClass.isSome
  frames : Opened s.frames ts
  depth : s.frames.length ≤ maxDepth
  operand : s.openClass = none → (s.level.items = [] ∨ s.level.repeatable = false) →
    NoOperand (ts.map Token.kind)
  pending : ∀ k, s.openClass = some k → Awaited ts k.pending
  captures : s.captures = capturing (ts.map Token.kind)
  names : ∀ name, name ∈ s.names.map Prod.fst ↔ .groupOpen (.named name) ∈ ts.map Token.kind
  distinct : (s.names.map Prod.fst).Nodup
  references : s.references.reverse = ts.filterMap reference?

variable {s s' : State} {ts us : List Token} {t : Token}

theorem Opened.extend {fs : List Frame} (h : Opened fs ts)
    (hus : Balanced (us.map Token.kind)) : Opened fs (ts ++ us) := by
  cases fs with
  | nil =>
    rw [Opened, List.map_append]
    exact Balanced.append h hus
  | cons f fs =>
    obtain ⟨before, t, after, rfl, hoffset, hkind, hbefore, hafter⟩ := h
    refine ⟨before, t, after ++ us, by simp, hoffset, hkind, hbefore, ?_⟩
    rw [List.map_append]
    exact hafter.append hus

/-- The frames are the groups that the tokens end inside of. -/
theorem Opened.endsInside {fs : List Frame} (h : Opened fs ts) :
    EndsInside fs.length (ts.map Token.kind) := by
  induction fs generalizing ts with
  | nil => exact h
  | cons f fs ih =>
    obtain ⟨before, t, after, rfl, -, hkind, hbefore, hafter⟩ := h
    exact ⟨before.map Token.kind, f.kind.opener, after.map Token.kind, by simp [hkind], ih hbefore,
      hafter⟩

theorem records_init : ({} : State).Records [] where
  inClass := rfl
  frames := Balanced.nil
  depth := Nat.zero_le _
  operand _ _ := .first
  pending _ h := by cases h
  captures := rfl
  names name := by simp
  distinct := List.nodup_nil
  references := rfl

/-! ### Tokens that are taken -/

/-- The token is no parenthesis and no reference. -/
def isPlain : TokenKind → Bool
  | .groupOpen _ | .groupClose | .backreference _ => false
  | _ => true

/-- A plain token leaves groups and references as they are. -/
theorem State.Records.plain (hs : s.Records ts) (hplain : isPlain t.kind = true)
    (hsame : s'.frames = s.frames ∧ s'.captures = s.captures ∧ s'.names = s.names ∧
      s'.references = s.references)
    (hclass : inClassAfter s.openClass.isSome t.kind = s'.openClass.isSome)
    (hoperand : s'.openClass = none → (s'.level.items = [] ∨ s'.level.repeatable = false) →
      NoOperand (ts.map Token.kind ++ [t.kind]))
    (hpending : ∀ k, s'.openClass = some k → Awaited (ts ++ [t]) k.pending) :
    s'.Records (ts ++ [t]) := by
  obtain ⟨hframes, hcaptures, hnames, hreferences⟩ := hsame
  have hnew : ∀ how, t.kind ≠ .groupOpen how := fun how h => by
    rw [h] at hplain
    cases hplain
  have hbalanced : Balanced ([t].map Token.kind) := by
    rw [List.map_singleton]
    generalize t.kind = k at hplain
    cases k <;> first | exact Balanced.single rfl rfl | cases hplain
  have hreference : reference? t = none := by
    unfold reference?
    split
    · rename_i h
      rw [h] at hplain
      cases hplain
    · rfl
  refine ⟨?_, ?_, ?_, ?_, hpending, ?_, fun name => ?_, ?_, ?_⟩
  · rw [List.map_append, Token.inClassAfterAll_append, hs.inClass]
    exact hclass
  · rw [hframes]
    exact hs.frames.extend hbalanced
  · rw [hframes]
    exact hs.depth
  · rw [List.map_append]
    exact hoperand
  · have hzero : capturing [t.kind] = 0 := by
      cases h : t.kind <;> first | rfl | exact absurd h (hnew _)
    rw [hcaptures, List.map_append, capturing_append, hs.captures, List.map_singleton, hzero,
      Nat.add_zero]
  · rw [hnames, hs.names, List.map_append, List.mem_append]
    exact ⟨.inl, fun h => h.resolve_right fun h => hnew _ (List.mem_singleton.1 h).symm⟩
  · rw [hnames]
    exact hs.distinct
  · rw [hreferences, hs.references, List.filterMap_append]
    simp [hreference]

/-! ### Characters of a class -/

variable {k k' : OpenClass} {c : PatternChar}

theorem OpenClass.awaited_follow {first : PatternChar} {firstOffset : Nat}
    (h : Awaited ts (.first first firstOffset)) (hkind : t.kind = .char c) :
    Awaited (ts ++ [t]) (k.follow first firstOffset c t.offset).pending := by
  unfold OpenClass.follow
  split
  · rename_i hdash
    obtain ⟨before, u, rfl, hfirst, hoffset⟩ := h
    exact ⟨before, u, t, by simp, hfirst, hoffset, hkind, rfl, hdash⟩
  · exact ⟨ts, t, rfl, hkind, rfl⟩

theorem OpenClass.awaited_add (hk : Awaited ts k.pending) (hkind : t.kind = .char c)
    (h : k.add c t.offset = .ok k') : Awaited (ts ++ [t]) k'.pending := by
  unfold OpenClass.add at h
  split at h
  · cases h
    exact ⟨ts, t, rfl, hkind, rfl⟩
  · rename_i hpending
    cases h
    rw [hpending] at hk
    exact OpenClass.awaited_follow hk hkind
  · rename_i hpending
    rw [hpending] at hk
    split at h
    · split at h
      · cases h
        exact trivial
      · cases h
    · cases h
      obtain ⟨before, u, v, rfl, -, -, hdash, hoffset, -⟩ := hk
      exact OpenClass.awaited_follow ⟨before ++ [u], v, by simp, hdash, hoffset⟩ hkind

/-- A character is refused at the end of a range out of order, whose other end and dash are the
last tokens. -/
theorem OpenClass.add_eq_error {e : ParseError} (hk : Awaited ts k.pending)
    (h : k.add c t.offset = .error e) :
    ∃ before u v low dash x y, ts = before ++ [u, v] ∧ u.kind = .char low ∧ v.kind = .char dash ∧
      dash.isDash = true ∧ low.codePoint? = some x ∧ c.codePoint? = some y ∧ y < x ∧
      e = ⟨.rangeOutOfOrder low.value c.value, u.offset⟩ := by
  unfold OpenClass.add at h
  split at h
  · cases h
  · cases h
  · rename_i hpending
    rw [hpending] at hk
    split at h
    · rename_i hx hy
      split at h
      · cases h
      · rename_i hle
        cases h
        obtain ⟨before, u, v, rfl, hlow, rfl, hv, -, hdash⟩ := hk
        exact ⟨before, u, v, _, _, _, _, rfl, hlow, hv, hdash, hx, hy, Nat.lt_of_not_le hle, rfl⟩
    · cases h

/-! ### One token -/

/-- A group of a kind brings the name that its opening token has. -/
theorem mem_names_kindCaptures {kind : GroupKind} {name : Text} :
    name ∈ (groupNames (kindCaptures kind)).map Prod.fst ↔ kind.opener = .named name := by
  cases kind with
  | capturing number given =>
    cases given with
    | none => simp [kindCaptures, groupNames, GroupKind.opener]
    | some given => simp [kindCaptures, groupNames, GroupKind.opener, eq_comm]
  | _ => simp [kindCaptures, groupNames, GroupKind.opener]

theorem State.Records.openGroup {how : GroupOpen} (hs : s.Records ts) (hclass : s.openClass = none)
    (hkind : t.kind = .groupOpen how) (h : s.openGroup how t.offset = .ok s') :
    s'.Records (ts ++ [t]) := by
  obtain ⟨hdepth, kind, rfl, rfl, -, hdistinct⟩ := openGroup_eq_ok hs.distinct h
  have hinClass := hs.inClass
  rw [hclass] at hinClass
  refine ⟨?_, ⟨ts, t, [], rfl, rfl, hkind, hs.frames, .nil⟩, hdepth, fun _ _ => ?_, fun k hk => ?_,
    ?_, fun name => ?_, hdistinct, ?_⟩
  · rw [List.map_append, Token.inClassAfterAll_append, hinClass, List.map_singleton, hkind,
      State.inside, hclass]
    rfl
  · rw [List.map_append, List.map_singleton, hkind]
    exact .opening _ _
  · rw [State.inside, hclass] at hk
    cases hk
  · rw [List.map_append, capturing_append, ← hs.captures, List.map_singleton, hkind]
    cases kind with
    | capturing number name => cases name <;> rfl
    | _ => rfl
  · have hnames : (s.inside kind t.offset).names.map Prod.fst =
        ((groupNames (kindCaptures kind)).map Prod.fst).reverse ++ s.names.map Prod.fst := by
      rw [State.inside, List.map_append, List.map_reverse]
    rw [hnames, List.mem_append, List.mem_reverse, mem_names_kindCaptures, hs.names,
      List.map_append, List.mem_append, List.map_singleton, List.mem_singleton, hkind,
      TokenKind.groupOpen.injEq, or_comm, eq_comm]
  · rw [State.inside, List.filterMap_append, ← hs.references]
    simp [reference?, hkind]

theorem State.Records.closeGroup (hs : s.Records ts) (hclass : s.openClass = none)
    (hkind : t.kind = .groupClose) (h : s.closeGroup t.offset = .ok s') :
    s'.Records (ts ++ [t]) := by
  unfold State.closeGroup at h
  split at h
  · cases h
  · rename_i f fs hframes
    cases h
    have hopened := hs.frames
    have hdepth := hs.depth
    have hinClass := hs.inClass
    rw [hframes] at hopened hdepth
    rw [hclass] at hinClass
    obtain ⟨before, o, after, rfl, -, hopener, hbefore, hafter⟩ := hopened
    have hgroup : (o :: after ++ [t]).map Token.kind =
        .groupOpen f.kind.opener :: after.map Token.kind ++ [.groupClose] := by
      simp [hopener, hkind]
    have hassoc : before ++ o :: after ++ [t] = before ++ (o :: after ++ [t]) := by simp
    refine ⟨?_, ?_, Nat.le_of_succ_le hdepth, fun _ hoperand => ?_, fun k hk => ?_, ?_,
      fun name => ?_, hs.distinct, ?_⟩
    · rw [List.map_append, Token.inClassAfterAll_append, hinClass, List.map_singleton, hkind]
      simp only [hclass]
      rfl
    · rw [hassoc]
      refine hbefore.extend ?_
      rw [hgroup]
      exact hafter.group _
    · rw [hassoc, List.map_append, hgroup]
      refine .lookbehind _ ?_ hafter
      rw [GroupKind.isLookbehind_opener]
      simpa [Level.push] using hoperand
    · simp only [hclass] at hk
      cases hk
    · rw [List.map_append, capturing_append, ← hs.captures, List.map_singleton, hkind]
      rfl
    · rw [hs.names, @List.map_append _ _ _ _ [t], List.mem_append]
      simp [hkind]
    · rw [List.filterMap_append, ← hs.references]
      simp [reference?, hkind]

theorem State.Records.backreference {target : RefTarget} (hs : s.Records ts)
    (hclass : s.openClass = none) (hkind : t.kind = .backreference target) :
    (({ s with references := (target, t.offset) :: s.references } : State).push
      (.backreference target 0) true).Records (ts ++ [t]) := by
  have hinClass := hs.inClass
  rw [hclass] at hinClass
  refine ⟨?_, ?_, hs.depth, fun _ hoperand => ?_, fun k hk => ?_, ?_, fun name => ?_,
    hs.distinct, ?_⟩
  · rw [List.map_append, Token.inClassAfterAll_append, hinClass, List.map_singleton, hkind]
    simp only [State.push, hclass]
    rfl
  · refine hs.frames.extend ?_
    rw [List.map_singleton, hkind]
    exact Balanced.single rfl rfl
  · simp [State.push, Level.push] at hoperand
  · simp only [State.push, hclass] at hk
    cases hk
  · rw [List.map_append, capturing_append, ← hs.captures, List.map_singleton, hkind]
    rfl
  · rw [List.map_append, List.mem_append, ← hs.names]
    simp [State.push, hkind]
  · rw [List.filterMap_append, ← hs.references]
    simp [State.push, reference?, hkind]

/-- A token that is taken extends the record. -/
theorem step_records (hs : s.Records ts) (hstands : standsIn s.openClass.isSome t.kind = true)
    (h : step s t = .ok s') : s'.Records (ts ++ [t]) := by
  unfold step at h
  cases hclass : s.openClass with
  | some k =>
    rw [hclass] at h hstands
    cases hkind : t.kind with
    | char c =>
      simp only [hkind] at h
      cases hadd : k.add c t.offset with
      | error e =>
        rw [hadd] at h
        cases h
      | ok k' =>
        rw [hadd] at h
        cases h
        refine hs.plain (by rw [hkind]; rfl)
          ⟨rfl, rfl, rfl, rfl⟩ (by rw [hkind, hclass]; rfl) (fun hnone => by cases hnone)
          fun k'' hk'' => ?_
        cases hk''
        exact OpenClass.awaited_add (hs.pending k hclass) hkind hadd
    | classClose =>
      simp only [hkind] at h
      cases h
      exact hs.plain (by rw [hkind]; rfl)
        ⟨rfl, rfl, rfl, rfl⟩ (by rw [hkind]; rfl)
        (fun _ hoperand => by simp [State.push, Level.push] at hoperand) fun k' hk' => by cases hk'
    | _ =>
      rw [hkind] at hstands
      cases hstands
  | none =>
    rw [hclass] at h hstands
    have hnone : ∀ k : OpenClass, s.openClass = some k → Awaited (ts ++ [t]) k.pending :=
      fun k hk => by
        rw [hclass] at hk
        cases hk
    cases hkind : t.kind with
    | char c =>
      simp only [hkind] at h
      cases h
      exact hs.plain (by rw [hkind]; rfl)
        ⟨rfl, rfl, rfl, rfl⟩ (by rw [hkind]; rfl)
        (fun _ hoperand => by simp [State.push, Level.push] at hoperand) hnone
    | assertion kind =>
      simp only [hkind] at h
      cases h
      exact hs.plain (by rw [hkind]; rfl)
        ⟨rfl, rfl, rfl, rfl⟩ (by rw [hkind]; rfl)
        (fun _ _ => by rw [hkind]; exact .assertion _ _) hnone
    | backreference target =>
      simp only [hkind] at h
      cases h
      have hpush := hs.backreference hclass hkind
      rwa [hclass] at hpush
    | classOpen negated =>
      simp only [hkind] at h
      cases h
      refine hs.plain (by rw [hkind]; rfl)
        ⟨rfl, rfl, rfl, rfl⟩ (by rw [hkind]; rfl) (fun hnone => by cases hnone) fun k hk => ?_
      cases hk
      exact trivial
    | classClose =>
      rw [hkind] at hstands
      cases hstands
    | groupOpen how =>
      simp only [hkind] at h
      exact hs.openGroup hclass hkind h
    | groupClose =>
      simp only [hkind] at h
      exact hs.closeGroup hclass hkind h
    | bar =>
      simp only [hkind] at h
      cases h
      exact hs.plain (by rw [hkind]; rfl)
        ⟨rfl, rfl, rfl, rfl⟩ (by rw [hkind, hclass]; rfl) (fun _ _ => by rw [hkind]; exact .bar _)
        fun k hk => by cases hk
    | quantifier min max greedy =>
      simp only [hkind] at h
      obtain ⟨s₀, n, rfl, rfl, -, -⟩ := quantify_eq_ok h
      exact hs.plain (by rw [hkind]; rfl)
        ⟨rfl, rfl, rfl, rfl⟩ (by rw [hkind]; rfl)
        (fun _ _ => by rw [hkind]; exact .quantifier _ _ _ _) hnone

/-! ### Tokens that are refused -/

variable {e : ParseError}

theorem Blamed.here (hoffset : t.offset = e.offset)
    (hfault : Fault (ts.map Token.kind) t.kind (us.map Token.kind) e.cause) :
    Blamed (ts ++ t :: us) e := ⟨ts, t, us, rfl, hoffset, hfault⟩

theorem openGroup_blamed {how : GroupOpen} (hs : s.Records ts) (hkind : t.kind = .groupOpen how)
    (h : s.openGroup how t.offset = .error e) (us : List Token) : Blamed (ts ++ t :: us) e := by
  unfold State.openGroup at h
  split at h
  · rename_i hdepth
    cases h
    have hlength : s.frames.length = maxDepth := Nat.le_antisymm hs.depth hdepth
    have hinside := hs.frames.endsInside
    rw [hlength] at hinside
    exact .here rfl ⟨⟨how, hkind⟩, hinside⟩
  · cases how with
    | named name =>
      simp only at h
      split at h
      · rename_i hknown
        cases h
        obtain ⟨p, hp, heq⟩ := List.lookup_isSome_iff.1 hknown
        have hmem : name ∈ s.names.map Prod.fst :=
          List.mem_map.2 ⟨p, hp, (beq_iff_eq.1 heq).symm⟩
        exact .here rfl ⟨hkind, (hs.names name).1 hmem⟩
      · cases h
    | _ => cases h

theorem closeGroup_blamed (hs : s.Records ts) (hkind : t.kind = .groupClose)
    (h : s.closeGroup t.offset = .error e) (us : List Token) : Blamed (ts ++ t :: us) e := by
  unfold State.closeGroup at h
  split at h
  · rename_i hframes
    cases h
    have hopened := hs.frames
    rw [hframes] at hopened
    exact .here rfl ⟨hkind, hopened⟩
  · cases h

theorem quantify_blamed {min : Nat} {max : Option Nat} {greedy : Bool} (hs : s.Records ts)
    (hclass : s.openClass = none) (hkind : t.kind = .quantifier min max greedy)
    (h : s.quantify min max greedy t.offset = .error e) (us : List Token) :
    Blamed (ts ++ t :: us) e := by
  unfold State.quantify at h
  split at h
  · split at h
    · split at h
      · rename_i hlt
        cases h
        exact .here rfl ⟨⟨greedy, hkind⟩, hlt⟩
      · cases h
    · cases h
  · rename_i hnot
    cases h
    refine .here rfl ⟨⟨min, max, greedy, hkind⟩, hs.operand hclass ?_⟩
    cases hitems : s.level.items with
    | nil => exact .inl rfl
    | cons n ns => exact .inr (Bool.eq_false_iff.2 (hnot n ns hitems))

/-- A token that is refused shows the fault that is reported, whatever comes after it. -/
theorem step_blamed (hs : s.Records ts) (hstands : standsIn s.openClass.isSome t.kind = true)
    (h : step s t = .error e) (us : List Token) : Blamed (ts ++ t :: us) e := by
  unfold step at h
  cases hclass : s.openClass with
  | some k =>
    rw [hclass] at h hstands
    cases hkind : t.kind with
    | char c =>
      simp only [hkind] at h
      cases hadd : k.add c t.offset with
      | ok k' =>
        rw [hadd] at h
        cases h
      | error e' =>
        rw [hadd] at h
        cases h
        obtain ⟨before, u, v, low, dash, x, y, rfl, hlow, hv, hdash, hx, hy, hlt, rfl⟩ :=
          OpenClass.add_eq_error (hs.pending k hclass) hadd
        -- the class was open before its last two characters
        have hinClass := hs.inClass
        rw [hclass, List.map_append, Token.inClassAfterAll_append] at hinClass
        simp only [List.map_cons, hlow, hv] at hinClass
        rw [List.append_assoc]
        exact .here rfl ⟨hinClass, low, dash, c, us.map Token.kind, x, y, hlow,
          by simp [hv, hkind], hdash, hx, hy, hlt, rfl, rfl⟩
    | classClose =>
      simp only [hkind] at h
      cases h
    | _ =>
      rw [hkind] at hstands
      cases hstands
  | none =>
    rw [hclass] at h hstands
    cases hkind : t.kind with
    | groupOpen how =>
      simp only [hkind] at h
      exact openGroup_blamed hs hkind h us
    | groupClose =>
      simp only [hkind] at h
      exact closeGroup_blamed hs hkind h us
    | quantifier min max greedy =>
      simp only [hkind] at h
      exact quantify_blamed hs hclass hkind h us
    | classClose =>
      rw [hkind] at hstands
      cases hstands
    | _ =>
      simp only [hkind] at h
      cases h

/-! ### All tokens -/

/-- After a token that the lexer makes the record is extended, and the lexer makes what comes
next. -/
theorem records_and_produced {ks : List TokenKind} (hs : s.Records ts)
    (hus : Produced s.openClass.isSome (t.kind :: ks)) (h : step s t = .ok s') :
    s'.Records (ts ++ [t]) ∧ Produced s'.openClass.isSome ks := by
  obtain ⟨⟨x, w, n, hfirst⟩, -, hrest⟩ := hus
  have hs' := step_records hs (Token.standsIn_of_first hfirst) h
  have hopen := hs'.inClass
  rw [List.map_append, Token.inClassAfterAll_append, hs.inClass] at hopen
  exact ⟨hs', hopen ▸ hrest⟩

theorem run_records (hs : s.Records ts)
    (hus : Produced s.openClass.isSome (us.map Token.kind)) (h : run s us = .ok s') :
    s'.Records (ts ++ us) := by
  induction us generalizing s ts with
  | nil =>
    cases h
    rwa [List.append_nil]
  | cons t us ih =>
    rw [run] at h
    split at h
    · cases h
    · rename_i s₁ hstep
      obtain ⟨hs₁, hrest⟩ := records_and_produced hs hus hstep
      rw [List.append_cons]
      exact ih hs₁ hrest h

theorem run_blamed (hs : s.Records ts)
    (hus : Produced s.openClass.isSome (us.map Token.kind)) (h : run s us = .error e) :
    Blamed (ts ++ us) e := by
  induction us generalizing s ts with
  | nil => cases h
  | cons t us ih =>
    rw [run] at h
    split at h
    · rename_i hstep
      cases h
      obtain ⟨x, w, n, hfirst⟩ := hus.1
      exact step_blamed hs (Token.standsIn_of_first hfirst) hstep us
    · rename_i s₁ hstep
      obtain ⟨hs₁, hrest⟩ := records_and_produced hs hus hstep
      rw [List.append_cons]
      exact ih hs₁ hrest h

/-! ### The end of the tokens -/

/-- A target resolves exactly when it names a group. -/
theorem resolve?_eq_none_iff (hs : s.Records ts) {target : RefTarget} :
    s.resolve? target = none ↔ NamesNoGroup (ts.map Token.kind) target := by
  cases target with
  | number m =>
    rw [State.resolve?, NamesNoGroup, ← hs.captures]
    split
    · simp only [reduceCtorEq, false_iff]
      omega
    · simp only [true_iff]
      omega
  | name t =>
    rw [State.resolve?, NamesNoGroup, ← hs.names, List.lookup_eq_none_iff, List.mem_map]
    simp only [bne_iff_ne, ne_eq, not_exists, not_and]
    exact forall₂_congr fun p _ => not_congr eq_comm

/-- The first reference without a group, with what stands before and after it. -/
theorem exists_of_find? {target : RefTarget} {offset : Nat} {p : RefTarget × Nat → Bool}
    (h : (ts.filterMap reference?).find? p = some (target, offset)) :
    p (target, offset) = true ∧ ∃ before t after, ts = before ++ t :: after ∧ t.offset = offset ∧
      t.kind = .backreference target ∧
      ∀ earlier, .backreference earlier ∈ before.map Token.kind → ∃ o, p (earlier, o) = false := by
  obtain ⟨hp, as, bs, hsplit, has⟩ := List.find?_eq_some_iff_append.1 h
  obtain ⟨before, rest, rfl, hbefore, hrest⟩ := List.filterMap_eq_append_iff.1 hsplit
  obtain ⟨skipped, t, after, rfl, hskipped, ht, -⟩ := List.filterMap_eq_cons_iff.1 hrest
  have hreference : ∀ {u : Token} {r : RefTarget × Nat}, reference? u = some r →
      u.kind = .backreference r.1 ∧ u.offset = r.2 := by
    intro u r hu
    unfold reference? at hu
    split at hu
    · rename_i hkind
      cases hu
      exact ⟨hkind, rfl⟩
    · cases hu
  refine ⟨hp, before ++ skipped, t, after, by simp, (hreference ht).2, (hreference ht).1,
    fun earlier hearlier => ?_⟩
  obtain ⟨u, hu, hkind⟩ := List.mem_map.1 hearlier
  have hsome : reference? u = some (earlier, u.offset) := by rw [reference?, hkind]
  rcases List.mem_append.1 hu with hu | hu
  · have hmem : (earlier, u.offset) ∈ as := by
      rw [← hbefore]
      exact List.mem_filterMap.2 ⟨u, hu, hsome⟩
    exact ⟨u.offset, by simpa using has _ hmem⟩
  · rw [hskipped u hu] at hsome
    cases hsome

/-- An error at the end of the tokens blames a group that is still open or a reference without a
group. -/
theorem finish_blamed (hs : s.Records ts)
    (hclosed : inClassAfterAll false (ts.map Token.kind) = false)
    (h : s.finish = .error e) : Blamed ts e := by
  have hclass : s.openClass = none := by
    rw [hs.inClass] at hclosed
    simpa using hclosed
  unfold State.finish at h
  rw [hclass] at h
  split at h
  · rename_i hopen
    cases hopen
  · rename_i hframes
    cases h
    have hopened := hs.frames
    rw [hframes] at hopened
    obtain ⟨before, t, after, rfl, hoffset, hkind, -, hafter⟩ := hopened
    exact .here hoffset ⟨⟨_, hkind⟩, hafter⟩
  · split at h
    · rename_i target offset hfind
      cases h
      rw [hs.references] at hfind
      obtain ⟨hnone, before, t, after, rfl, hoffset, hkind, hearlier⟩ := exists_of_find? hfind
      have hlist : (before ++ t :: after).map Token.kind =
          before.map Token.kind ++ t.kind :: after.map Token.kind := by simp
      rw [Option.isNone_iff_eq_none, resolve?_eq_none_iff hs, hlist] at hnone
      refine .here hoffset ⟨hkind, hnone, fun earlier hmem hunnamed => ?_⟩
      obtain ⟨o, hresolved⟩ := hearlier earlier hmem
      rw [← hlist, ← resolve?_eq_none_iff hs] at hunnamed
      rw [hunnamed] at hresolved
      cases hresolved
    · cases h

/-- Every error of the reader is true of the tokens of the body: the token at its offset, which is
the only one there, is at fault in the way that the cause says. -/
theorem parse_error_blamed {body : Text} {flags : Flags} {e : ParseError}
    (h : Source.parseBody body flags = .error (.parse e)) :
    ∃ ts, Token.tokenize body = .ok ts ∧ (ts.map Token.offset).Pairwise (· < ·) ∧ Blamed ts e := by
  unfold Source.parseBody at h
  cases hlex : Token.tokenize body with
  | error e' =>
    rw [hlex] at h
    cases h
  | ok ts =>
    rw [hlex] at h
    have hparse : parseTokens ts = .error e := by
      cases hparse : parseTokens ts with
      | error e' =>
        simp only [Except.mapError, bind, Except.bind, hparse] at h
        cases h
        rfl
      | ok t =>
        simp only [Except.mapError, bind, Except.bind, hparse] at h
        cases h
    have hproduced := Token.produced_of_tokenize hlex
    have hblamed : Blamed ts e := by
      unfold parseTokens at hparse
      cases hrun : run {} ts with
      | error e' =>
        rw [hrun] at hparse
        cases hparse
        exact run_blamed records_init hproduced hrun
      | ok s =>
        rw [hrun] at hparse
        exact finish_blamed (run_records records_init hproduced hrun)
          (Token.inClassAfterAll_of_lexFrom hlex) hparse
    exact ⟨ts, rfl, (Token.pairwise_offset_of_lexFrom hlex).2, hblamed⟩

/-- The quantifier of `(?<=a)*` has nothing to repeat, since it comes after the end of a
lookbehind. -/
theorem parse_error_blamed_lookbehind :
    Source.parseBody ['(', '?', '<', '=', 'a', ')', '*'] {} =
        .error (.parse ⟨.nothingToRepeat, 6⟩) ∧
      ∃ ts, Token.tokenize ['(', '?', '<', '=', 'a', ')', '*'] = .ok ts ∧
        (ts.map Token.offset).Pairwise (· < ·) ∧ Blamed ts ⟨.nothingToRepeat, 6⟩ := by
  have h : Source.parseBody ['(', '?', '<', '=', 'a', ')', '*'] {} =
      .error (.parse ⟨.nothingToRepeat, 6⟩) := by decide +kernel
  exact ⟨h, parse_error_blamed h⟩

end Parser

end RegexKit
