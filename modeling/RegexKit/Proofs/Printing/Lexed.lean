import RegexKit.Proofs.Printing.Reparse

/-! Trees of tokens that the lexer makes. Such a tree is built from characters of the lexer, its
bounds are words and its names identifiers, and no number stands before a digit; when no class
holds an octal escape it can be printed. -/

namespace RegexKit.Node

open RegexKit.Token

/-! ### Octal escapes in classes -/

def isOctalMember : Node → Bool
  | char c => c.kind == .octal
  | classRange low high => low.kind == .octal || high.kind == .octal
  | _ => false

/-- A class with an octal escape among its members. -/
def isOctalClass : Node → Bool
  | charClass _ ms => ms.any isOctalMember
  | _ => false

/-- No class of the tree holds an octal escape. -/
def NoOctalClass (n : Node) : Prop := ∀ m ∈ n.preorder, m.isOctalClass = false

instance (n : Node) : Decidable n.NoOctalClass :=
  inferInstanceAs (Decidable (∀ m ∈ n.preorder, m.isOctalClass = false))

theorem NoOctalClass.child {n c : Node} (h : n.NoOctalClass) (hc : c ∈ n.children) :
    c.NoOctalClass := (forall_preorder_iff.1 h).2 c hc

theorem endsShort_of_isOctalMember {m : Node} (hm : m.isOctalMember = false) :
    m.endsShort = false := by
  cases m with
  | char c =>
    simp only [isOctalMember, beq_eq_false_iff_ne] at hm
    simp [endsShort, lastChar?, hm]
  | classRange low high =>
    simp only [isOctalMember, Bool.or_eq_false_iff, beq_eq_false_iff_ne] at hm
    simp [endsShort, lastChar?, hm.2]
  | _ => rfl

/-- Members run together at octal escapes only. -/
theorem NoOctalClass.classesApart {n : Node} (h : n.NoOctalClass) : n.ClassesApart := by
  intro m hm
  cases m with
  | charClass negated ms =>
    refine runsTogether_of_endsShort fun k hk => endsShort_of_isOctalMember ?_
    simpa using List.any_eq_false.1 (h _ hm) k hk
  | _ => rfl

/-! ### Classes that are open after a yield -/

/-- The tokens of the node close every class that they open. -/
def ClosesClasses (n : Node) : Prop := inClassAfterAll false n.yield = false

theorem inClassAfterAll_yieldList {ns : List Node} (h : ∀ n ∈ ns, n.ClosesClasses) :
    inClassAfterAll false (yieldList ns) = false := by
  induction ns with
  | nil => rfl
  | cons n ns ih =>
    rw [yieldList, inClassAfterAll_append, h n List.mem_cons_self]
    exact ih fun k hk => h k (List.mem_cons_of_mem _ hk)

theorem inClassAfterAll_yieldMore {ns : List Node} (h : ∀ n ∈ ns, n.ClosesClasses) :
    inClassAfterAll false (yieldMore ns) = false := by
  induction ns with
  | nil => rfl
  | cons n ns ih =>
    have hbar : inClassAfterAll false (yieldMore (n :: ns)) =
        inClassAfterAll false (n.yield ++ yieldMore ns) := rfl
    rw [hbar, inClassAfterAll_append, h n List.mem_cons_self]
    exact ih fun k hk => h k (List.mem_cons_of_mem _ hk)

/-- Only a class opens a class, and it closes it. -/
theorem inClassAfterAll_yield {n : Node} (hn : n.grammatical = true) : n.ClosesClasses := by
  induction n with
  | alternative es ih =>
    simp only [grammatical, Bool.and_eq_true, grammaticalParts_eq, List.all_eq_true] at hn
    exact inClassAfterAll_yieldList fun e he => ih e he (grammatical_of_isPart (hn.2 e he))
  | disjunction bs ih =>
    simp only [grammatical, Bool.and_eq_true, grammaticalBranches_eq, List.all_eq_true] at hn
    have hbs : ∀ b ∈ bs, b.ClosesClasses := fun b hb =>
      ih b hb (grammatical_of_isBranch (hn.2 b hb))
    cases bs with
    | nil => rfl
    | cons b bs =>
      rw [ClosesClasses, yield, yieldBranches, inClassAfterAll_append, hbs b List.mem_cons_self]
      exact inClassAfterAll_yieldMore fun k hk => hbs k (List.mem_cons_of_mem _ hk)
  | group kind e ih =>
    have hgroup : inClassAfterAll false (group kind e).yield =
        inClassAfterAll false (e.yield ++ [.groupClose]) := rfl
    rw [ClosesClasses, hgroup, inClassAfterAll_append, ih hn]
    rfl
  | charClass negated ms _ =>
    have hclass : inClassAfterAll false (charClass negated ms).yield =
        inClassAfterAll true (yieldList ms ++ [.classClose]) := rfl
    rw [ClosesClasses, hclass, inClassAfterAll_append]
    cases inClassAfterAll true (yieldList ms) <;> rfl
  | repetition e min max greedy ih =>
    simp only [grammatical, Bool.and_eq_true] at hn
    rw [ClosesClasses, yield, inClassAfterAll_append, ih hn.1.1]
    rfl
  | regExp _ _ _ => cases hn
  | backreference _ _ | assertion _ | char _ | classRange _ _ => rfl

/-! ### Parts of produced lists -/

/-- The tokens of each node of a list are produced when those of all are. -/
theorem produced_of_mem {ns : List Node} (hclosed : ∀ n ∈ ns, n.ClosesClasses)
    (h : Produced false (yieldList ns)) : ∀ n ∈ ns, Produced false n.yield := by
  induction ns with
  | nil => exact fun _ hn => by cases hn
  | cons m ns ih =>
    intro n hn
    rw [yieldList] at h
    have hright := h.right
    rw [hclosed m List.mem_cons_self] at hright
    rcases List.mem_cons.1 hn with rfl | hn
    · exact h.left
    · exact ih (fun k hk => hclosed k (List.mem_cons_of_mem _ hk)) hright n hn

theorem produced_of_mem_more {bs : List Node} (hclosed : ∀ b ∈ bs, b.ClosesClasses)
    (h : Produced false (yieldMore bs)) : ∀ b ∈ bs, Produced false b.yield := by
  induction bs with
  | nil => exact fun _ hb => by cases hb
  | cons c bs ih =>
    intro b hb
    rw [yieldMore, List.cons_append] at h
    have hrest : Produced false (c.yield ++ yieldMore bs) := h.2.2
    have hright := hrest.right
    rw [hclosed c List.mem_cons_self] at hright
    rcases List.mem_cons.1 hb with rfl | hb
    · exact hrest.left
    · exact ih (fun k hk => hclosed k (List.mem_cons_of_mem _ hk)) hright b hb

theorem produced_of_mem_branches {bs : List Node} (hclosed : ∀ b ∈ bs, b.ClosesClasses)
    (h : Produced false (yieldBranches bs)) : ∀ b ∈ bs, Produced false b.yield := by
  cases bs with
  | nil => exact fun _ hb => by cases hb
  | cons c bs =>
    intro b hb
    rw [yieldBranches] at h
    have hright := h.right
    rw [hclosed c List.mem_cons_self] at hright
    rcases List.mem_cons.1 hb with rfl | hb
    · exact h.left
    · exact produced_of_mem_more (fun k hk => hclosed k (List.mem_cons_of_mem _ hk)) hright b hb

/-! ### What lexed trees are built of -/

/-- Members that read as written are characters of the lexer. -/
theorem lexedMember_of_produced {ms : List Node} (hreads : classReads ms = true)
    (hp : Produced true (yieldList ms)) : ∀ m ∈ ms, m.LexedMember := by
  induction ms with
  | nil => exact fun _ hm => by cases hm
  | cons m ms ih =>
    intro k hk
    cases m with
    | char c =>
      simp only [classReads, Bool.and_eq_true] at hreads
      obtain ⟨hc, -, hrest⟩ := hp
      rcases List.mem_cons.1 hk with rfl | hk
      · exact hc
      · exact ih hreads.2 hrest k hk
    | classRange low high =>
      simp only [classReads, Bool.and_eq_true] at hreads
      obtain ⟨hlow, -, -, -, hhigh, -, hrest⟩ := hp
      rcases List.mem_cons.1 hk with rfl | hk
      · refine ⟨hlow, hhigh, ?_⟩
        have hord := hreads.1
        split at hord
        · rename_i x y hx hy
          exact ⟨x, y, hx, hy, by simpa using hord⟩
        · cases hord
      · exact ih hreads.2 hrest k hk
    | _ => cases hreads

theorem isLookbehindGroup_of_isRepeatable {e : Node} (h : e.isRepeatable = true) :
    e.isLookbehindGroup = false := by
  cases e <;> first | rfl | simpa [isRepeatable, isLookbehindGroup] using h

/-- A grammatical tree of tokens that the lexer makes is lexed. -/
theorem lexed_of_produced {n : Node} (hn : n.grammatical = true) (hp : Produced false n.yield) :
    n.Lexed := by
  induction n with
  | regExp _ _ _ | classRange _ _ => cases hn
  | alternative es ih =>
    simp only [grammatical, Bool.and_eq_true, grammaticalParts_eq, List.all_eq_true] at hn
    have hparts : ∀ e ∈ es, e.grammatical = true := fun e he => grammatical_of_isPart (hn.2 e he)
    have hproduced := produced_of_mem (fun e he => inClassAfterAll_yield (hparts e he)) hp
    exact lexedAll_iff.2 fun e he => ih e he (hparts e he) (hproduced e he)
  | disjunction bs ih =>
    simp only [grammatical, Bool.and_eq_true, decide_eq_true_eq, grammaticalBranches_eq,
      List.all_eq_true] at hn
    have hbranches : ∀ b ∈ bs, b.grammatical = true := fun b hb =>
      grammatical_of_isBranch (hn.2 b hb)
    have hproduced := produced_of_mem_branches
      (fun b hb => inClassAfterAll_yield (hbranches b hb)) hp
    refine ⟨?_, lexedAll_iff.2 fun b hb => ih b hb (hbranches b hb) (hproduced b hb)⟩
    rintro rfl
    exact absurd hn.1 (by decide)
  | group kind e ih =>
    have hbody : Produced false (e.yield ++ [.groupClose]) := hp.2.2
    exact ih hn hbody.left
  | backreference _ _ | assertion _ => exact trivial
  | char c => exact hp.1
  | charClass negated ms _ =>
    have hmembers : Produced true (yieldList ms ++ [.classClose]) := hp.2.2
    exact lexedMember_of_produced hn hmembers.left
  | repetition e min max greedy ih =>
    simp only [grammatical, Bool.and_eq_true] at hn
    obtain ⟨⟨hg, hrep⟩, hord⟩ := hn
    rw [yield] at hp
    have hquantifier := hp.right
    rw [inClassAfterAll_yield hg] at hquantifier
    obtain ⟨x, t, k, hfirst⟩ := hquantifier.1
    obtain ⟨hmin, hmax⟩ : Bounded (.quantifier min max greedy) := bounded_of_first hfirst
    exact ⟨ih hg hp.left, isLookbehindGroup_of_isRepeatable hrep, hord, hmin, hmax⟩

theorem LexedMember.built {m : Node} (hm : m.LexedMember) (hoctal : m.isOctalMember = false) :
    m.BuiltMember := by
  cases m with
  | char c => exact ⟨hm, by simpa [isOctalMember] using hoctal⟩
  | classRange low high =>
    simp only [isOctalMember, Bool.or_eq_false_iff, beq_eq_false_iff_ne] at hoctal
    exact ⟨⟨hm.1, hoctal.1⟩, ⟨hm.2.1, hoctal.2⟩, hm.2.2⟩
  | _ => cases hm

/-- A lexed tree is built when no class holds an octal escape. -/
theorem Lexed.built {n : Node} (hn : n.Lexed) (hoctal : n.NoOctalClass) : n.Built := by
  induction n with
  | regExp _ _ _ | classRange _ _ => cases hn
  | alternative es ih =>
    exact builtAll_iff.2 fun e he => ih e he (lexedAll_iff.1 hn e he) (hoctal.child he)
  | disjunction bs ih =>
    exact ⟨hn.1, builtAll_iff.2 fun b hb => ih b hb (lexedAll_iff.1 hn.2 b hb) (hoctal.child hb)⟩
  | group kind e ih => exact ih hn (hoctal.child List.mem_cons_self)
  | backreference _ _ | assertion _ => exact trivial
  | char c => exact hn
  | charClass negated ms _ =>
    have hclass := (forall_preorder_iff.1 hoctal).1
    exact fun m hm => (hn m hm).built (by simpa using List.any_eq_false.1 hclass m hm)
  | repetition e min max greedy ih => exact ⟨ih hn.1 (hoctal.child List.mem_cons_self), hn.2⟩

/-- A grammatical tree of tokens that the lexer makes is built. -/
theorem built_of_produced {n : Node} (hn : n.grammatical = true) (hp : Produced false n.yield)
    (hoctal : n.NoOctalClass) : n.Built :=
  (lexed_of_produced hn hp).built hoctal

/-- Every token that the lexer makes is bounded. -/
theorem bounded_of_mem {b : Bool} {ks : List TokenKind} (h : Produced b ks) :
    ∀ k ∈ ks, Bounded k := by
  induction ks generalizing b with
  | nil => exact fun _ hk => by cases hk
  | cons k ks ih =>
    obtain ⟨⟨x, t, n, hfirst⟩, -, hrest⟩ := h
    intro k' hk'
    rcases List.mem_cons.1 hk' with rfl | hk'
    · exact bounded_of_first hfirst
    · exact ih hrest k' hk'

/-- The tokens of a node of a list are among those of the list. -/
theorem mem_yieldList {ns : List Node} {n : Node} (hn : n ∈ ns) {k : TokenKind}
    (hk : k ∈ n.yield) : k ∈ yieldList ns := by
  rw [Parser.yieldList_eq]
  exact List.mem_flatMap.2 ⟨n, hn, hk⟩

theorem mem_yield_disjunction {bs : List Node} {b : Node} (hb : b ∈ bs) {k : TokenKind}
    (hk : k ∈ b.yield) : k ∈ (disjunction bs).yield := by
  cases bs with
  | nil => cases hb
  | cons c bs =>
    rw [yield, yieldBranches]
    rcases List.mem_cons.1 hb with rfl | hb
    · exact List.mem_append_left _ hk
    · rw [Parser.yieldMore_eq]
      exact List.mem_append_right _ (List.mem_flatMap.2 ⟨b, hb, List.mem_cons_of_mem _ hk⟩)

/-- A named group is opened by a token of its name. -/
theorem named_mem_yield {n : Node} {p : Text × Nat} (hp : p ∈ groupNames n.captures) :
    .groupOpen (.named p.1) ∈ n.yield := by
  induction n with
  | regExp b _ ih => exact ih hp
  | alternative es ih =>
    rw [mem_groupNames, captures, capturesList_eq] at hp
    obtain ⟨e, he, hp⟩ := List.mem_flatMap.1 hp
    exact mem_yieldList he (ih e he (mem_groupNames.2 hp))
  | disjunction bs ih =>
    rw [mem_groupNames, captures, capturesList_eq] at hp
    obtain ⟨b, hb, hp⟩ := List.mem_flatMap.1 hp
    exact mem_yield_disjunction hb (ih b hb (mem_groupNames.2 hp))
  | group kind e ih =>
    rw [mem_groupNames, Parser.captures_group] at hp
    rw [yield, List.cons_append]
    rcases List.mem_append.1 hp with hkind | hp
    · cases kind with
      | capturing number name =>
        obtain ⟨-, rfl⟩ := Prod.mk.inj (List.mem_singleton.1 hkind)
        exact List.mem_cons_self
      | _ => cases hkind
    · exact List.mem_cons_of_mem _ (List.mem_append_left _ (ih (mem_groupNames.2 hp)))
  | charClass negated ms ih =>
    rw [mem_groupNames, captures, capturesList_eq] at hp
    obtain ⟨m, hm, hp⟩ := List.mem_flatMap.1 hp
    rw [yield, List.cons_append]
    exact List.mem_cons_of_mem _
      (List.mem_append_left _ (mem_yieldList hm (ih m hm (mem_groupNames.2 hp))))
  | repetition e min max greedy ih => exact List.mem_append_left _ (ih hp)
  | backreference _ _ | assertion _ | char _ | classRange _ _ => cases hp

/-- A reference is written as a token of its target. -/
theorem reference_mem_yield {n : Node} {r : RefTarget × Nat} (hr : r ∈ n.references) :
    .backreference r.1 ∈ n.yield := by
  induction n with
  | regExp b _ ih => exact ih hr
  | alternative es ih =>
    rw [references, Parser.referencesList_eq] at hr
    obtain ⟨e, he, hr⟩ := List.mem_flatMap.1 hr
    exact mem_yieldList he (ih e he hr)
  | disjunction bs ih =>
    rw [references, Parser.referencesList_eq] at hr
    obtain ⟨b, hb, hr⟩ := List.mem_flatMap.1 hr
    exact mem_yield_disjunction hb (ih b hb hr)
  | group kind e ih =>
    rw [yield, List.cons_append]
    exact List.mem_cons_of_mem _ (List.mem_append_left _ (ih hr))
  | charClass negated ms ih =>
    rw [references, Parser.referencesList_eq] at hr
    obtain ⟨m, hm, hr⟩ := List.mem_flatMap.1 hr
    rw [yield, List.cons_append]
    exact List.mem_cons_of_mem _ (List.mem_append_left _ (mem_yieldList hm (ih m hm hr)))
  | repetition e min max greedy ih => exact List.mem_append_left _ (ih hr)
  | backreference target number =>
    obtain rfl := List.mem_singleton.1 hr
    exact List.mem_cons_self
  | assertion _ | char _ | classRange _ _ => cases hr

/-! ### Numbers and digits -/

/-- A part whose text begins with a digit begins with a token that does. -/
theorem exists_startsWithDigit {e : Node} (he : e.isPart = true) (hlexed : e.Lexed)
    (h : e.text.head?.any Char.isDigit = true) :
    ∃ k ks, e.yield = k :: ks ∧ startsWithDigit k = true := by
  have hatom : ∀ {a : Node}, a.Lexed → a.isRepeatable = true → ∀ t,
      (a.text ++ t).head?.any Char.isDigit = true →
        ∃ k ks, a.yield = k :: ks ∧ startsWithDigit k = true := by
    intro a ha hrep t ht
    cases a with
    | char c =>
      obtain ⟨x, v, htext, -⟩ := exists_text_eq_cons ha
      refine ⟨.char c, [], rfl, ?_⟩
      have hc : (char c).text = x :: v := htext
      rw [hc] at ht
      rw [startsWithDigit, show c.text .pattern = x :: v from htext]
      exact ht
    | charClass negated ms => cases negated <;> cases ht
    | group kind e =>
      cases kind with
      | capturing number name => cases name <;> cases ht
      | _ => cases ht
    | backreference _ _ => cases ht
    | _ => cases hrep
  cases e with
  | char _ | charClass _ _ | backreference _ _ =>
    exact hatom hlexed rfl [] (by rwa [List.append_nil])
  | group kind e =>
    cases kind with
    | capturing number name => cases name <;> cases h
    | _ => cases h
  | assertion kind => cases kind <;> cases h
  | repetition e min max greedy =>
    simp only [isPart, grammatical, Bool.and_eq_true] at he
    have hrep := he.1.1.1.2
    have hisAtom : e.isAtom = true := by
      cases e <;> first | rfl | cases hrep
    have htext : (repetition e min max greedy).text = e.text ++ quantifierText min max greedy := by
      rw [text, if_pos hisAtom]
    rw [htext] at h
    obtain ⟨k, ks, hyield, hk⟩ := hatom hlexed.1 hrep _ h
    exact ⟨k, ks ++ [.quantifier min max greedy], by rw [yield, hyield]; rfl, hk⟩
  | alternative _ | disjunction _ => simp at he
  | regExp _ _ | classRange _ _ => cases hlexed

/-- A number in a sequence that the lexer makes does not stand before a digit. -/
theorem not_digit_after_number {e e' : Node} {es : List Node} {m number : Nat}
    (he : e = backreference (.number m) number) (hpart : e'.isPart = true) (hlexed : e'.Lexed)
    (h : Produced false (yieldList (e :: e' :: es))) :
    e'.text.head?.any Char.isDigit = false := by
  cases hdigit : e'.text.head?.any Char.isDigit with
  | false => rfl
  | true =>
    obtain ⟨k, ks, hyield, hk⟩ := exists_startsWithDigit hpart hlexed hdigit
    subst he
    have hnext := h.2.1 rfl
    rw [yieldList, hyield] at hnext
    simp [hk] at hnext

end RegexKit.Node
