import RegexKit.Proofs.Host.Sets
import RegexKit.Proofs.Node.Members
import RegexKit.Proofs.Printing.Delimited
import RegexKit.Proofs.Walk.Places

/-! What the dialect pass makes of a tree. The pass is a rewriting of characters and classes. Of a
tree that was read it keeps all other nodes, and puts a character or a class of the same set in the
place of every character and every class; nothing that the host spells differently is left, and a
second run finds nothing to do. -/

namespace RegexKit.Host

open Node (Lexed LexedMember lexedAll_iff)
open Token (Lexical)
open Walk (dispatch_of_handler dispatch_typed)

/-! ### The pass as a rewriting -/

/-- What the pass replaces on entering: characters outside classes. -/
def onEnter (flags : Flags) : Rewrite := fun parent n =>
  match n with
  | .char c => if parent = some .charClass then none else adaptChar? flags c
  | _ => none

/-- What the pass replaces on leaving: classes. -/
def onLeave : Rewrite := fun _ n => adaptClass? n

def rewriting (flags : Flags) : Rewrite := (onEnter flags).orElse onLeave

/-- What stands for a list of members is spelled as the host spells it. -/
theorem adaptClass?_map_memberOf (negated : Bool) {is : List Interval} (his : is ≠ []) :
    adaptClass? (.charClass negated (is.map memberOf)) = none := by
  have hkept : ∀ i, (adaptMember (memberOf i)).2 = false := by
    intro i
    have hspelled : ∀ x, respell? (.ofCodePoint x) = none := fun x => by
      rw [respell?, isForeign_ofCodePoint, if_neg Bool.false_ne_true]
    rw [memberOf]
    split <;> simp [adaptMember, classEscape?_ofCodePoint, hspelled]
  cases is with
  | nil => exact absurd rfl his
  | cons i is => simp [adaptClass?, hkept]

theorem onLeave_of_adaptChar? {flags : Flags} {c : PatternChar} {m : Node}
    (h : adaptChar? flags c = some m) : adaptClass? m = none := by
  unfold adaptChar? at h
  split at h
  · split at h
    · cases h
    · cases h
      exact adaptClass?_map_memberOf true (by decide)
  · split at h
    · rename_i is negated hescape
      cases h
      refine adaptClass?_map_memberOf negated ?_
      unfold classEscape? at hescape
      split at hescape <;> cases hescape <;> decide
    · obtain ⟨d, -, rfl⟩ := Option.map_eq_some_iff.1 h
      rfl

theorem settles_dialect (flags : Flags) :
    Walk.Settles (dialect flags).handlers (onEnter flags) onLeave where
  enter ancestors slot n p := by
    cases n with
    | char c =>
      rw [dispatch_of_handler rfl rfl, onEnter]
      by_cases hclass : ancestors.getLast? = some .charClass
      · simp [Path.parent?, hclass, Path.keep]
      · cases hadapt : adaptChar? flags c <;>
          simp [Path.parent?, hclass, Path.keep, Path.replaceAndSkip, hadapt]
    | _ => rfl
  exit ancestors slot n p := by
    cases n with
    | charClass negated ms =>
      exact dispatch_typed rfl rfl (fun _ _ => rfl) ancestors slot p
    | _ => rfl
  leaf {parent n m} h := by
    cases n with
    | char c =>
      rw [onEnter] at h
      split at h
      · cases h
      · exact ⟨rfl, onLeave_of_adaptChar? h⟩
    | _ => cases h

/-- The pass rewrites the tree from the leaves upwards. -/
theorem run_dialect (flags : Flags) (n : Node) :
    (dialect flags).run n =
      ((rewriting flags).up none n, ⟨n.count, (rewriting flags).hits none n, false⟩) :=
  Rule.run_eq_up_of_settles (settles_dialect flags) n

variable {flags : Flags} {others : Text → Set ℕ} {parent : Option NodeType}

/-! ### Nodes that are kept -/

theorem rewriting_eq_none {n : Node} (hchar : n.type ≠ .char) (hclass : n.type ≠ .charClass) :
    rewriting flags parent n = none := by
  cases n <;> first | rfl | exact absurd rfl hchar | exact absurd rfl hclass

theorem rewriting_char (hparent : parent ≠ some .charClass) (c : PatternChar) :
    rewriting flags parent (.char c) = adaptChar? flags c := by
  rw [rewriting, Rewrite.orElse, onEnter, if_neg hparent]
  exact Option.or_none

/-- Members of a class are left to the class. -/
theorem rewriting_member {m : Node} (hm : m.LexedMember) :
    rewriting flags (some .charClass) m = none := by
  cases m <;> first | rfl | cases hm

theorem up_of_member {m : Node} (hm : m.LexedMember) :
    (rewriting flags).up (some .charClass) m = m := by
  cases m with
  | char c | classRange low high => exact Rewrite.apply_of_eq_none (rewriting_member hm)
  | _ => cases hm

/-- A class of members is replaced as a whole. -/
theorem up_charClass {negated : Bool} {ms : List Node} (hms : ∀ m ∈ ms, m.LexedMember) :
    (rewriting flags).up parent (.charClass negated ms) =
      (adaptClass? (.charClass negated ms)).getD (.charClass negated ms) := by
  rw [Rewrite.up, Rewrite.upList_eq_self fun m hm => up_of_member (hms m hm)]
  rfl

/-! ### The same sets -/

/-- The second tree is the first one with characters and classes of the same sets in the places
of its characters and classes. -/
inductive SameSets (flags : Flags) (others : Text → Set ℕ) : Node → Node → Prop
  | set {n m : Node} {S : Set ℕ} (hn : nodeSet? flags others n = some S)
      (hm : nodeSet? flags others m = some S) : SameSets flags others n m
  | regExp {b b' : Node} (rootFlags : Flags) (hb : SameSets flags others b b') :
      SameSets flags others (.regExp b rootFlags) (.regExp b' rootFlags)
  | alternative {es es' : List Node} (hes : List.Forall₂ (SameSets flags others) es es') :
      SameSets flags others (.alternative es) (.alternative es')
  | disjunction {bs bs' : List Node} (hbs : List.Forall₂ (SameSets flags others) bs bs') :
      SameSets flags others (.disjunction bs) (.disjunction bs')
  | group {e e' : Node} (kind : GroupKind) (he : SameSets flags others e e') :
      SameSets flags others (.group kind e) (.group kind e')
  | repetition {e e' : Node} (min : Nat) (max : Option Nat) (greedy : Bool)
      (he : SameSets flags others e e') :
      SameSets flags others (.repetition e min max greedy) (.repetition e' min max greedy)
  | backreference (target : RefTarget) (number : Nat) :
      SameSets flags others (.backreference target number) (.backreference target number)
  | assertion (kind : AssertionKind) : SameSets flags others (.assertion kind) (.assertion kind)

/-- The pass puts characters and classes of the same sets in place and keeps all other nodes. -/
theorem sameSets_up {n : Node} (hn : n.Lexed) (hparent : parent ≠ some .charClass) :
    SameSets flags others n ((rewriting flags).up parent n) := by
  have hlist : ∀ (q : Option NodeType) (ns : List Node),
      (∀ m ∈ ns, SameSets flags others m ((rewriting flags).up q m)) →
        List.Forall₂ (SameSets flags others) ns ((rewriting flags).upList q ns) := by
    intro q ns h
    rw [Rewrite.upList_eq, List.forall₂_map_right_iff, List.forall₂_same]
    exact h
  induction n generalizing parent with
  | regExp _ _ _ | classRange _ _ => cases hn
  | alternative es ih =>
    exact .alternative (hlist _ es fun e he => ih e he (lexedAll_iff.1 hn e he) (by decide))
  | disjunction bs ih =>
    exact .disjunction (hlist _ bs fun b hb => ih b hb (lexedAll_iff.1 hn.2 b hb) (by decide))
  | group kind e ih => exact .group kind (ih hn (by decide))
  | repetition e min max greedy ih => exact .repetition min max greedy (ih hn.1 (by decide))
  | backreference target number => exact .backreference target number
  | assertion kind => exact .assertion kind
  | char c =>
    rw [Rewrite.up, Rewrite.apply, rewriting_char hparent]
    cases hadapt : adaptChar? flags c with
    | none => exact .set rfl rfl
    | some m => exact .set rfl (nodeSet?_adaptChar? hadapt)
  | charClass negated ms _ =>
    rw [up_charClass hn]
    cases hadapt : adaptClass? (.charClass negated ms) with
    | none => exact .set rfl rfl
    | some m => exact .set rfl (nodeSet?_adaptClass? hadapt)

/-! ### Foreign spellings -/

/-- Spellings that the host reads in another way or not at all: the class escapes that are ASCII
sets, octal and control escapes, and the escape of a backspace. -/
def Foreign (c : PatternChar) : Prop :=
  c.value ∈ [['\\', 'd'], ['\\', 'D'], ['\\', 'w'], ['\\', 'W']] ∨
    c.kind = .octal ∨ c.kind = .control ∨ (c.kind = .special ∧ c.value = ['\\', 'b'])

theorem classEscape?_eq_none_iff {t : Text} :
    classEscape? t = none ↔ t ∉ [['\\', 'd'], ['\\', 'D'], ['\\', 'w'], ['\\', 'W']] := by
  unfold classEscape?
  split <;> simp_all

theorem isForeign_iff {c : PatternChar} :
    isForeign c = true ↔
      c.kind = .octal ∨ c.kind = .control ∨ (c.kind = .special ∧ c.value = ['\\', 'b']) := by
  unfold isForeign
  split <;> simp_all

/-- A character is foreign when it is expanded or respelled. -/
theorem not_foreign_iff {c : PatternChar} :
    ¬ Foreign c ↔ classEscape? c.value = none ∧ isForeign c = false := by
  rw [classEscape?_eq_none_iff, ← Bool.not_eq_true, isForeign_iff, ← not_or, Foreign]

theorem not_foreign_ofCodePoint (x : ℕ) : ¬ Foreign (.ofCodePoint x) :=
  not_foreign_iff.2 ⟨classEscape?_ofCodePoint x, isForeign_ofCodePoint x⟩

/-- The lexer gives code points to the characters that are respelled. -/
theorem isSome_codePoint?_of_isForeign {b : Bool} {c : PatternChar} (hc : Lexical b c)
    (hforeign : isForeign c = true) : c.codePoint?.isSome = true := by
  rcases isForeign_iff.1 hforeign with hoctal | hcontrol | ⟨hspecial, hvalue⟩
  · obtain ⟨x, -, hx⟩ := hc.octal_codePoint? hoctal
    rw [hx]
    rfl
  · rcases hc.spelling with ⟨x, escaped, rfl⟩ | ⟨rfl, -⟩ | ⟨x, u, heq, hescape⟩
    · cases hcontrol
    · cases hcontrol
    · obtain ⟨rfl, hu⟩ := hescape.control hcontrol
      rw [hcontrol] at heq
      cases u with
      | nil => exact absurd rfl hu
      | cons y u =>
        have hdrop := Text.dropBytes?_bytes_append ['\\', 'c'] (y :: u)
        have hbytes : Text.bytes ['\\', 'c'] = 2 := by decide
        rw [hbytes] at hdrop
        have hvalue : '\\' :: 'c' :: y :: u = ['\\', 'c'] ++ y :: u := rfl
        rw [heq, PatternChar.codePoint?, hvalue, hdrop]
        rfl
  · obtain ⟨value, kind, escaped⟩ := c
    obtain rfl : kind = _ := hspecial
    obtain rfl : value = _ := hvalue
    rfl

/-- A character that the pass leaves: spelled by its code point, or one of the lexer that the host
reads in the same way. -/
def Adapted (b : Bool) (c : PatternChar) : Prop :=
  (∃ x, c = .ofCodePoint x) ∨ (Lexical b c ∧ ¬ Foreign c)

theorem Adapted.not_foreign {b : Bool} {c : PatternChar} (hc : Adapted b c) : ¬ Foreign c := by
  rcases hc with ⟨x, rfl⟩ | ⟨-, hforeign⟩
  · exact not_foreign_ofCodePoint x
  · exact hforeign

/-- A character of the lexer that is no class escape is adapted by respelling it. -/
theorem adapted_getD_respell? {b : Bool} {c : PatternChar} (hc : Lexical b c)
    (hescape : classEscape? c.value = none) : Adapted b ((respell? c).getD c) := by
  cases hforeign : isForeign c with
  | false =>
    rw [respell?, hforeign, if_neg Bool.false_ne_true]
    exact .inr ⟨hc, not_foreign_iff.2 ⟨hescape, hforeign⟩⟩
  | true =>
    obtain ⟨x, hx⟩ := Option.isSome_iff_exists.1 (isSome_codePoint?_of_isForeign hc hforeign)
    rw [respell?, hforeign, if_pos rfl, hx]
    exact .inl ⟨x, rfl⟩

/-! ### Nodes in the dialect of the host -/

/-- The characters of a node itself: the one that it is, or the ends of a range. -/
def charsOf : Node → List PatternChar
  | .char c => [c]
  | .classRange low high => [low, high]
  | _ => []

/-- A node in the dialect of the host: none of its characters is foreign, it is no dot that stands
outside a class and passes over line ends, and it is no empty class. -/
structure Native (flags : Flags) (parent : Option NodeType) (n : Node) : Prop where
  chars : ∀ c ∈ charsOf n, ¬ Foreign c
  dot : ∀ c, n = .char c → parent ≠ some .charClass → c.kind = .special → c.value = ['.'] →
    flags.dotAll = true
  filled : ∀ negated, n ≠ .charClass negated []

/-- All nodes of the tree are in the dialect of the host. -/
def AllNative (flags : Flags) (parent : Option NodeType) (n : Node) : Prop :=
  ∀ p ∈ n.places parent, Native flags p.1 p.2

theorem allNative_iff {n : Node} :
    AllNative flags parent n ↔
      Native flags parent n ∧ ∀ m ∈ n.children, AllNative flags (some n.type) m := by
  rw [AllNative, Node.places_eq, List.forall_mem_cons, List.forall_mem_flatMap]
  exact Iff.rfl

/-- The kinds of nodes that the host can read in another way. -/
def dialectKinds : List NodeType := [.char, .classRange, .charClass]

/-- All other nodes are in the dialect of the host. -/
theorem native_of_type {n : Node} (h : n.type ∉ dialectKinds) : Native flags parent n where
  chars c hc := by
    cases n with
    | char _ | classRange _ _ => exact absurd (by simp [dialectKinds, Node.type]) h
    | _ => cases hc
  dot c hn := by
    subst hn
    exact absurd (by simp [dialectKinds, Node.type]) h
  filled negated hn := by
    subst hn
    exact h (by simp [dialectKinds, Node.type])

/-- A member of a class that the pass leaves. -/
def AdaptedMember (m : Node) : Prop := m.isMember = true ∧ ∀ c ∈ charsOf m, Adapted true c

theorem adaptedMember_char {c : PatternChar} (hc : Adapted true c) : AdaptedMember (.char c) :=
  ⟨rfl, by simpa [charsOf] using hc⟩

theorem adaptedMember_classRange {low high : PatternChar} (hlow : Adapted true low)
    (hhigh : Adapted true high) : AdaptedMember (.classRange low high) :=
  ⟨rfl, by simpa [charsOf] using ⟨hlow, hhigh⟩⟩

theorem adaptedMember_memberOf (i : Interval) : AdaptedMember (memberOf i) := by
  rw [memberOf]
  split
  · exact adaptedMember_char (.inl ⟨_, rfl⟩)
  · exact adaptedMember_classRange (.inl ⟨_, rfl⟩) (.inl ⟨_, rfl⟩)

theorem AdaptedMember.allNative {m : Node} (hm : AdaptedMember m) :
    AllNative flags (some .charClass) m := by
  have hnative : Native flags (some .charClass) m := {
    chars := fun c hc => (hm.2 c hc).not_foreign
    dot := fun c _ hparent => absurd rfl hparent
    filled := fun negated h => by
      subst h
      cases hm.1 }
  refine allNative_iff.2 ⟨hnative, fun k hk => ?_⟩
  cases m with
  | char _ | classRange _ _ => cases hk
  | _ => cases hm.1

/-- A class with adapted members. -/
def AdaptedClass (n : Node) : Prop :=
  ∃ negated ms, n = .charClass negated ms ∧ ms ≠ [] ∧ ∀ m ∈ ms, AdaptedMember m

theorem AdaptedClass.allNative {n : Node} (hn : AdaptedClass n) : AllNative flags parent n := by
  obtain ⟨negated, ms, rfl, hfilled, hms⟩ := hn
  have hnative : Native flags parent (.charClass negated ms) := {
    chars := fun c hc => nomatch hc
    dot := fun c h => nomatch h
    filled := fun _ h => hfilled (by cases h; rfl) }
  exact allNative_iff.2 ⟨hnative, fun m hm => (hms m hm).allNative⟩

/-! ### What the pass puts in place -/

theorem ne_nil_of_classEscape? {t : Text} {is : List Interval} {negated : Bool}
    (h : classEscape? t = some (is, negated)) : is ≠ [] ∧ Interval.complement is ≠ [] := by
  unfold classEscape? at h
  split at h <;> cases h <;> decide

/-- Ends of ranges have code points, class escapes have none. -/
theorem classEscape?_of_codePoint? {c : PatternChar} {x : ℕ} (h : c.codePoint? = some x) :
    classEscape? c.value = none := by
  cases hescape : classEscape? c.value with
  | none => rfl
  | some p =>
    rw [codePoint?_of_classEscape? hescape] at h
    cases h

/-- What stands for a member of a class is adapted. -/
theorem adaptedMember_of_mem_adaptMember {m : Node} (hm : m.LexedMember) :
    ∀ k ∈ (adaptMember m).1, AdaptedMember k := by
  cases m with
  | char c =>
    simp only [adaptMember]
    cases hescape : classEscape? c.value with
    | some p => exact List.forall_mem_map.2 fun i _ => adaptedMember_memberOf i
    | none =>
      have hadapted := adapted_getD_respell? hm hescape
      cases hrespell : respell? c with
      | none | some d =>
        rw [hrespell] at hadapted
        exact List.forall_mem_singleton.2 (adaptedMember_char hadapted)
  | classRange low high =>
    obtain ⟨hlow, hhigh, x, y, hx, hy, -⟩ := hm
    exact List.forall_mem_singleton.2 (adaptedMember_classRange
      (adapted_getD_respell? hlow (classEscape?_of_codePoint? hx))
      (adapted_getD_respell? hhigh (classEscape?_of_codePoint? hy)))
  | _ => cases hm

/-- Something stands for every member. -/
theorem adaptMember_ne_nil (m : Node) : (adaptMember m).1 ≠ [] := by
  unfold adaptMember
  split
  · split
    · rename_i is negated hescape
      obtain ⟨hkept, hcomplement⟩ := ne_nil_of_classEscape? hescape
      cases negated <;> simpa
    · split <;> exact List.cons_ne_nil _ _
  · exact List.cons_ne_nil _ _
  · exact List.cons_ne_nil _ _

/-- A member that is kept stands for itself. -/
theorem adaptMember_of_kept {m : Node} (h : (adaptMember m).2 = false) :
    (adaptMember m).1 = [m] := by
  unfold adaptMember at h ⊢
  split
  · split
    · simp_all
    · split <;> simp_all
  · rename_i low high
    obtain ⟨hlow, hhigh⟩ : respell? low = none ∧ respell? high = none := by simpa using h
    rw [hlow, hhigh]
    rfl
  · rfl

theorem adaptedClass_map_memberOf (negated : Bool) {is : List Interval} (his : is ≠ []) :
    AdaptedClass (.charClass negated (is.map memberOf)) :=
  ⟨negated, _, rfl, by simpa using his, List.forall_mem_map.2 fun i _ => adaptedMember_memberOf i⟩

/-- What is left of a class is a class with adapted members. -/
theorem adaptedClass_getD_adaptClass? {negated : Bool} {ms : List Node}
    (hms : ∀ m ∈ ms, m.LexedMember) :
    AdaptedClass ((adaptClass? (.charClass negated ms)).getD (.charClass negated ms)) := by
  cases ms with
  | nil => exact adaptedClass_map_memberOf _ (by decide)
  | cons m ms =>
    have hadapted :
        AdaptedClass (.charClass negated ((m :: ms).flatMap fun k => (adaptMember k).1)) := by
      refine ⟨negated, _, rfl, ?_, List.forall_mem_flatMap.2 fun k hk =>
        adaptedMember_of_mem_adaptMember (hms k hk)⟩
      rw [List.flatMap_cons]
      exact List.append_ne_nil_of_left_ne_nil (adaptMember_ne_nil m) _
    rw [adaptClass?]
    split
    · exact hadapted
    · rename_i hkept
      have hsame : ((m :: ms).flatMap fun k => (adaptMember k).1) = m :: ms := by
        simp only [List.any_eq_true, not_exists, not_and, Bool.not_eq_true] at hkept
        rw [List.flatMap_congr fun k hk => adaptMember_of_kept (hkept k hk),
          List.flatMap_singleton']
      rw [hsame] at hadapted
      exact hadapted
    · exact List.cons_ne_nil m ms

/-- What is left of a character outside classes is an adapted one, the dot only when it passes over
nothing, or a class with adapted members. -/
theorem getD_adaptChar? {c : PatternChar} (hc : Lexical false c) :
    (∃ d, (adaptChar? flags c).getD (.char c) = .char d ∧ Adapted false d ∧
      (d.kind = .special → d.value = ['.'] → flags.dotAll = true)) ∨
        AdaptedClass ((adaptChar? flags c).getD (.char c)) := by
  unfold adaptChar?
  split
  · rename_i hdot
    split
    · rename_i hall
      refine .inl ⟨c, rfl, .inr ⟨hc, not_foreign_iff.2 ?_⟩, fun _ _ => hall⟩
      rw [hdot.2, isForeign, hdot.1, hdot.2]
      exact ⟨rfl, rfl⟩
    · exact .inr (adaptedClass_map_memberOf true (by decide))
  · rename_i hdot
    split
    · rename_i is negated hescape
      exact .inr (adaptedClass_map_memberOf negated (ne_nil_of_classEscape? hescape).1)
    · rename_i hescape
      have hadapted := adapted_getD_respell? hc hescape
      refine .inl ?_
      cases hrespell : respell? c with
      | none =>
        rw [hrespell] at hadapted
        exact ⟨c, rfl, hadapted, fun hkind hvalue => absurd ⟨hkind, hvalue⟩ hdot⟩
      | some d =>
        rw [hrespell] at hadapted
        refine ⟨d, rfl, hadapted, fun hkind hvalue => ?_⟩
        -- a respelled character has a code point, the dot has none
        have hpoint := codePoint?_of_respell? hrespell
        rw [PatternChar.codePoint?, hkind, hvalue] at hpoint
        rw [← hpoint.1] at hpoint
        exact absurd hpoint.2 Bool.false_ne_true

/-! ### What the pass leaves -/

theorem allNative_getD_adaptChar? {c : PatternChar} (hc : Lexical false c) :
    AllNative flags parent ((adaptChar? flags c).getD (.char c)) := by
  rcases getD_adaptChar? hc with ⟨d, hd, hadapted, hdot⟩ | hclass
  · have hnative : Native flags parent (.char d) := {
      chars := by simpa [charsOf] using hadapted.not_foreign
      dot := fun e he _ => by
        cases he
        exact hdot
      filled := fun _ h => nomatch h }
    rw [hd]
    exact allNative_iff.2 ⟨hnative, fun k hk => nomatch hk⟩
  · exact hclass.allNative

/-- A node of another kind is kept above native children. -/
theorem allNative_apply {n : Node} (h : n.type ∉ dialectKinds)
    (hchildren : ∀ m ∈ n.children, AllNative flags (some n.type) m) :
    AllNative flags parent ((rewriting flags).apply parent n) := by
  have hnone : rewriting flags parent n = none :=
    rewriting_eq_none (fun hchar => h (by simp [hchar, dialectKinds]))
      (fun hclass => h (by simp [hclass, dialectKinds]))
  rw [Rewrite.apply_of_eq_none hnone]
  exact allNative_iff.2 ⟨native_of_type h, hchildren⟩

/-- The pass leaves native nodes only. -/
theorem allNative_up {n : Node} (hn : n.Lexed) (hparent : parent ≠ some .charClass) :
    AllNative flags parent ((rewriting flags).up parent n) := by
  induction n generalizing parent with
  | regExp _ _ _ | classRange _ _ => cases hn
  | alternative es ih =>
    refine allNative_apply (by simp [dialectKinds, Node.type]) ?_
    rw [Rewrite.upList_eq]
    exact List.forall_mem_map.2 fun e he => ih e he (lexedAll_iff.1 hn e he) (by simp [Node.type])
  | disjunction bs ih =>
    refine allNative_apply (by simp [dialectKinds, Node.type]) ?_
    rw [Rewrite.upList_eq]
    exact List.forall_mem_map.2 fun b hb => ih b hb (lexedAll_iff.1 hn.2 b hb) (by simp [Node.type])
  | group kind e ih =>
    exact allNative_apply (by simp [dialectKinds, Node.type])
      (List.forall_mem_singleton.2 (ih hn (by simp [Node.type])))
  | repetition e min max greedy ih =>
    exact allNative_apply (by simp [dialectKinds, Node.type])
      (List.forall_mem_singleton.2 (ih hn.1 (by simp [Node.type])))
  | backreference _ _ | assertion _ =>
    exact allNative_apply (by simp [dialectKinds, Node.type]) fun k hk => by cases hk
  | char c =>
    rw [Rewrite.up, Rewrite.apply, rewriting_char hparent]
    exact allNative_getD_adaptChar? hn
  | charClass negated ms _ =>
    rw [up_charClass hn]
    exact (adaptedClass_getD_adaptClass? hn).allNative

/-! ### A second run -/

/-- Native characters are kept. -/
theorem respell?_of_not_foreign {c : PatternChar} (hc : ¬ Foreign c) : respell? c = none := by
  rw [respell?, (not_foreign_iff.1 hc).2, if_neg Bool.false_ne_true]

theorem adaptMember_of_native {m : Node} (h : ∀ c ∈ charsOf m, ¬ Foreign c) :
    (adaptMember m).2 = false := by
  cases m with
  | char c =>
    have hc := h c List.mem_cons_self
    simp [adaptMember, (not_foreign_iff.1 hc).1, respell?_of_not_foreign hc]
  | classRange low high =>
    have hlow := h low List.mem_cons_self
    have hhigh := h high (List.mem_cons_of_mem _ List.mem_cons_self)
    simp [adaptMember, respell?_of_not_foreign hlow, respell?_of_not_foreign hhigh]
  | _ => rfl

/-- A native node above native children is not replaced. -/
theorem rewriting_of_native {n : Node} (hn : Native flags parent n)
    (hchildren : ∀ m ∈ n.children, Native flags (some n.type) m) :
    rewriting flags parent n = none := by
  cases n with
  | char c =>
    by_cases hparent : parent = some .charClass
    · rw [rewriting, Rewrite.orElse, onEnter, if_pos hparent]
      rfl
    · have hc := hn.chars c List.mem_cons_self
      rw [rewriting_char hparent, adaptChar?]
      split
      · rename_i hdot
        exact if_pos (hn.dot c rfl hparent hdot.1 hdot.2)
      · rw [(not_foreign_iff.1 hc).1, respell?_of_not_foreign hc]
        rfl
  | charClass negated ms =>
    have hkept : ∀ m ∈ ms, (adaptMember m).2 = false := fun m hm =>
      adaptMember_of_native (hchildren m hm).chars
    cases ms with
    | nil => exact absurd rfl (hn.filled negated)
    | cons m ms =>
      have hany : ((m :: ms).any fun k => (adaptMember k).2) = false := by simpa using hkept
      simp [rewriting, Rewrite.orElse, onEnter, onLeave, adaptClass?, hany]
  | _ => rfl

/-- The pass finds nothing to replace in a native tree. -/
theorem mutations_dialect_of_allNative {n : Node} (hn : AllNative flags none n) :
    ((dialect flags).run n).2.mutations = 0 := by
  rw [run_dialect]
  refine Rewrite.hits_eq_zero_iff.2 fun p hp => rewriting_of_native (hn p hp) fun m hm => ?_
  exact hn _ (Node.mem_places_of_mem_children hp hm)

/-! ### Trees that were read -/

/-- The pass over a tree that was read, whatever the flags, keeps its nodes and the sets of its
characters and classes. What it leaves is in the dialect of the host, and a second run replaces
nothing. -/
theorem sameSets_allNative_adapt {source : Text} {n : Node} (h : Source.parse source = .ok n)
    (flags : Flags) (others : Text → Set ℕ) :
    SameSets flags others n (adapt flags n) ∧ AllNative flags none (adapt flags n) ∧
      ((dialect flags).run (adapt flags n)).2.mutations = 0 := by
  obtain ⟨t, rootFlags, rfl, hwell, hproduced⟩ := Source.exists_of_parse h
  have hlexed : t.Lexed := Node.lexed_of_produced hwell.shape hproduced
  have hbody : some NodeType.regExp ≠ some .charClass := by decide
  have hadapt : adapt flags (.regExp t rootFlags) =
      .regExp ((rewriting flags).up (some .regExp) t) rootFlags := by
    rw [adapt, run_dialect]
    rfl
  have hnative : AllNative flags none (adapt flags (.regExp t rootFlags)) := by
    rw [hadapt]
    refine allNative_iff.2 ⟨native_of_type (by simp [dialectKinds, Node.type]), ?_⟩
    exact List.forall_mem_singleton.2 (allNative_up hlexed hbody)
  refine ⟨?_, hnative, mutations_dialect_of_allNative hnative⟩
  rw [hadapt]
  exact .regExp rootFlags (sameSets_up hlexed hbody)

/-- A dot and a class of escapes are both replaced. -/
theorem sameSets_allNative_adapt_dot_class :
    ∃ n, Source.parse ['/', '.', '[', '\\', 'W', '\\', '1', ']', '/'] = .ok n ∧
      (∀ others, SameSets {} others n (adapt {} n)) ∧ ((dialect {}).run n).2.mutations = 2 ∧
      ((dialect {}).run (adapt {} n)).2.mutations = 0 := by
  have hparse : Source.parse ['/', '.', '[', '\\', 'W', '\\', '1', ']', '/'] =
      .ok (.regExp (.alternative [.char .dot, .charClass false
        [.char ⟨['\\', 'W'], .special, false⟩, .char ⟨['\\', '1'], .octal, false⟩]]) {}) := by
    decide +kernel
  refine ⟨_, hparse, fun others => (sameSets_allNative_adapt hparse {} others).1, ?_, ?_⟩
  · rw [run_dialect]
    decide +kernel
  · exact (sameSets_allNative_adapt hparse {} fun _ => ∅).2.2

end RegexKit.Host
