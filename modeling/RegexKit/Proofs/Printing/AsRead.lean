import RegexKit.Proofs.Grammar.Soundness
import RegexKit.Proofs.Match.Algebra

/-! The tree that the text of a tree is read as. Printing writes nested sequences and nested
choices flat and adds parentheses where the text would run together, so reading gives one
choice of sequences of parts. The two trees have the same groups, the same references
and the same outcomes. -/

namespace RegexKit.Node

open RegexKit.Token (reread)
open RegexKit.Parser (collapse)
open RegexKit.Match

/-! ### The tree read back -/

/-- The text after these parts begins with a digit. -/
def digitFollows (es : List Node) : Bool :=
  startWithDigit ((List.zipWith piece es (texts es)).map Piece.text)

/-- The part is printed in parentheses when these parts follow it. -/
def isWrapped (e : Node) (es : List Node) : Bool := e.isChoice || (e.endsOpen && digitFollows es)

/-- The choice of sequences of parts. -/
def assemble (bs : List (List Node)) : Node :=
  collapse .disjunction (bs.map (collapse .alternative))

/-- A member of a class as it is read back. -/
def rereadMember : Node → Node
  | char c => char (reread true c)
  | classRange low high => classRange (reread true low) (reread true high)
  | n => n

mutual

/-- The branches that the text of a tree is read as, each a sequence of parts. -/
def readBranches : Node → List (List Node)
  | regExp b flags => [[regExp (assemble (readBranches b)) flags]]
  | alternative es => [readParts es]
  | disjunction bs => readChoices bs
  | group kind e => [[group kind (assemble (readBranches e))]]
  | backreference target number => [[backreference target number]]
  | assertion kind => [[assertion kind]]
  | char c => [[char (reread false c)]]
  | charClass negated ms => [[charClass negated (ms.map rereadMember)]]
  | classRange low high => [[classRange low high]]
  | repetition e min max greedy =>
    let e' := assemble (readBranches e)
    [[repetition (if e.isAtom then e' else group .nonCapturing e') min max greedy]]

/-- The parts that the text of a sequence is read as. -/
def readParts : List Node → List Node
  | [] => []
  | e :: es =>
    (if isWrapped e es then [group .nonCapturing (assemble (readBranches e))]
      else (readBranches e).flatten) ++ readParts es

/-- The branches that the text of a choice is read as. -/
def readChoices : List Node → List (List Node)
  | [] => []
  | b :: bs => readBranches b ++ readChoices bs

end

/-- The tree that the text of a tree is read as. -/
def asRead (n : Node) : Node := assemble (readBranches n)

theorem readChoices_eq (bs : List Node) : readChoices bs = bs.flatMap readBranches := by
  induction bs with
  | nil => rfl
  | cons b bs ih => simp [readChoices, ih]

/-- A node that is no choice is read as one sequence. -/
theorem readBranches_of_not_choice {n : Node} (hn : n.isChoice = false) :
    readBranches n = [(readBranches n).flatten] := by
  cases n with
  | disjunction _ => cases hn
  | _ => simp [readBranches]

theorem asRead_of_not_choice {n : Node} (hn : n.isChoice = false) :
    asRead n = collapse .alternative (readBranches n).flatten := by
  rw [asRead, assemble, readBranches_of_not_choice hn]
  simp [collapse]

theorem asRead_regExp (b : Node) (flags : Flags) :
    asRead (.regExp b flags) = .regExp (asRead b) flags := rfl

theorem asRead_group (kind : GroupKind) (e : Node) :
    asRead (.group kind e) = .group kind (asRead e) := rfl

theorem asRead_char (c : PatternChar) : asRead (.char c) = .char (reread false c) := rfl

theorem asRead_charClass (negated : Bool) (ms : List Node) :
    asRead (.charClass negated ms) = .charClass negated (ms.map rereadMember) := rfl

/-- A repetition is read over its operand, or over the operand in parentheses. -/
theorem asRead_repetition (e : Node) (min : Nat) (max : Option Nat) (greedy : Bool) :
    asRead (.repetition e min max greedy) =
      .repetition (if e.isAtom then asRead e else group .nonCapturing (asRead e)) min max greedy :=
  rfl

/-! ### Groups and references -/

/-- What a function collects from a tree, its children one after the other; parentheses that
do not capture add nothing. -/
structure Collects {α : Type} (f : Node → List α) : Prop where
  regExp (b : Node) (flags : Flags) : f (regExp b flags) = f b
  alternative (es : List Node) : f (alternative es) = es.flatMap f
  disjunction (bs : List Node) : f (disjunction bs) = bs.flatMap f
  nonCapturing (e : Node) : f (group .nonCapturing e) = f e
  group (kind : GroupKind) {e e' : Node} (h : f e = f e') : f (group kind e) = f (group kind e')
  repetition (e : Node) (min : Nat) (max : Option Nat) (greedy : Bool) :
    f (repetition e min max greedy) = f e
  charClass (negated : Bool) (ms : List Node) : f (charClass negated ms) = ms.flatMap f
  char (c : PatternChar) : f (char c) = []
  classRange (low high : PatternChar) : f (classRange low high) = []

theorem collects_captures : Collects captures where
  regExp _ _ := rfl
  alternative es := by rw [captures, capturesList_eq]
  disjunction bs := by rw [captures, capturesList_eq]
  nonCapturing _ := rfl
  group kind _ _ h := by cases kind <;> simp [captures, h]
  repetition _ _ _ _ := rfl
  charClass _ ms := by rw [captures, capturesList_eq]
  char _ := rfl
  classRange _ _ := rfl

theorem collects_references : Collects references where
  regExp _ _ := rfl
  alternative es := by rw [references, Parser.referencesList_eq]
  disjunction bs := by rw [references, Parser.referencesList_eq]
  nonCapturing _ := rfl
  group _ _ _ h := by simp [references, h]
  repetition _ _ _ _ := rfl
  charClass _ ms := by rw [references, Parser.referencesList_eq]
  char _ := rfl
  classRange _ _ := rfl

variable {α : Type} {f : Node → List α}

theorem collapse_eq_flatMap {make : List Node → Node}
    (hmake : ∀ ns, f (make ns) = ns.flatMap f) (ns : List Node) :
    f (collapse make ns) = ns.flatMap f :=
  Parser.apply_collapse hmake (fun _ => List.flatMap_singleton _ _) ns

theorem Collects.assemble (hf : Collects f) (bs : List (List Node)) :
    f (assemble bs) = bs.flatten.flatMap f := by
  rw [Node.assemble, collapse_eq_flatMap hf.disjunction, List.flatMap_map,
    List.flatten_eq_flatMap, List.flatMap_assoc]
  exact List.flatMap_congr fun b _ => collapse_eq_flatMap hf.alternative b

/-- What is collected from a tree is collected from the tree read back. -/
theorem Collects.asRead (hf : Collects f) (n : Node) : f (asRead n) = f n := by
  induction n with
  | regExp b flags ih => exact (hf.regExp _ _).trans (ih.trans (hf.regExp _ _).symm)
  | alternative es ih =>
    have hparts : (readParts es).flatMap f = es.flatMap f := by
      induction es with
      | nil => rfl
      | cons e es ihes =>
        have he : (readBranches e).flatten.flatMap f = f e := by
          rw [← hf.assemble]
          exact ih e List.mem_cons_self
        have hwrap : f (.group .nonCapturing (Node.assemble (readBranches e))) = f e := by
          rw [hf.nonCapturing, hf.assemble, he]
        rw [readParts, List.flatMap_append, List.flatMap_cons,
          ihes fun k hk => ih k (List.mem_cons_of_mem _ hk)]
        split
        · rw [List.flatMap_singleton, hwrap]
        · rw [he]
    rw [Node.asRead, readBranches, hf.assemble, List.flatten_singleton, hparts, hf.alternative]
  | disjunction bs ih =>
    rw [Node.asRead, readBranches, readChoices_eq, hf.assemble, hf.disjunction,
      List.flatten_eq_flatMap, List.flatMap_assoc, List.flatMap_assoc]
    refine List.flatMap_congr fun b hb => ?_
    rw [← List.flatMap_assoc, ← List.flatten_eq_flatMap, ← hf.assemble]
    exact ih b hb
  | group kind e ih => exact hf.group kind ih
  | charClass negated ms _ =>
    have hmember : ∀ m, f (rereadMember m) = f m := fun m => by
      cases m with
      | char c => exact (hf.char _).trans (hf.char _).symm
      | classRange low high => exact (hf.classRange _ _).trans (hf.classRange _ _).symm
      | _ => rfl
    rw [asRead_charClass, hf.charClass, hf.charClass, List.flatMap_map]
    exact List.flatMap_congr fun m _ => hmember m
  | char c => exact (hf.char _).trans (hf.char _).symm
  | repetition e min max greedy ih =>
    rw [asRead_repetition, hf.repetition, hf.repetition]
    split
    · exact ih
    · rw [hf.nonCapturing, ih]
  | backreference _ _ | assertion _ | classRange _ _ => rfl

theorem captures_asRead (n : Node) : (asRead n).captures = n.captures := collects_captures.asRead n

theorem references_asRead (n : Node) : (asRead n).references = n.references :=
  collects_references.asRead n

/-! ### Outcomes -/

variable (s : Subject)

theorem outcomes_collapse_alternative (es : List Node) :
    outcomes s (collapse .alternative es) = inSequence s es :=
  Parser.apply_collapse (outcomes_alternative s) (inSequence_singleton s) es

theorem outcomes_collapse_disjunction (bs : List Node) :
    outcomes s (collapse .disjunction bs) = anyOf s bs :=
  Parser.apply_collapse (outcomes_disjunction s) (anyOf_singleton s) bs

/-- Nodes that accept the same characters consume the same ones. -/
theorem one_of_accepts {n m : Node} (h : s.reading.accepts n = s.reading.accepts m) :
    s.one n = s.one m := by
  funext o
  have hone : s.accepts n o.position = s.accepts m o.position := by
    rw [Subject.accepts, h, Subject.accepts]
  rw [Subject.one, Subject.one, hone]

theorem charAccepts_reread (r : Reading) (b : Bool) (c : PatternChar) :
    r.charAccepts (reread b c) = r.charAccepts c := by
  funext d
  simp only [Reading.charAccepts, Token.codePoint?_reread, Token.value_reread]

/-- Members of a class read back match what they matched. -/
theorem memberAccepts_rereadMember (r : Reading) (m : Node) (c : Char) :
    r.memberAccepts (rereadMember m) c = r.memberAccepts m c := by
  cases m with
  | char p => simp only [rereadMember, Reading.memberAccepts, charAccepts_reread]
  | classRange low high => simp [rereadMember, Reading.memberAccepts, rangeText]
  | _ => rfl

/-- A tree and the tree that its text is read as have the same outcomes. -/
theorem outcomes_asRead (n : Node) : outcomes s (asRead n) = outcomes s n := by
  induction n with
  | regExp b flags ih =>
    rw [asRead_regExp, outcomes, outcomes, ih]
  | alternative es ih =>
    have hparts : inSequence s (readParts es) = inSequence s es := by
      induction es with
      | nil => rfl
      | cons e es ihes =>
        have he := ih e List.mem_cons_self
        rw [readParts, inSequence_append, inSequence_cons,
          ihes fun k hk => ih k (List.mem_cons_of_mem _ hk)]
        split
        · rw [inSequence_singleton, outcomes_group, grouped_nonCapturing, ← he, asRead]
        · rename_i hwrap
          have hchoice : e.isChoice = false := by
            cases hc : e.isChoice with
            | false => rfl
            | true => simp [isWrapped, hc] at hwrap
          rw [asRead_of_not_choice hchoice, outcomes_collapse_alternative] at he
          rw [he]
    rw [asRead_of_not_choice rfl, outcomes_collapse_alternative, readBranches,
      List.flatten_singleton, hparts, outcomes_alternative]
  | disjunction bs ih =>
    have hbranches : anyOf s ((readChoices bs).map (collapse .alternative)) = anyOf s bs := by
      induction bs with
      | nil => rfl
      | cons b bs ihbs =>
        have hb := ih b List.mem_cons_self
        rw [asRead, assemble, outcomes_collapse_disjunction] at hb
        rw [readChoices, List.map_append, anyOf_append, anyOf_cons, hb,
          ihbs fun k hk => ih k (List.mem_cons_of_mem _ hk)]
    rw [asRead, assemble, outcomes_collapse_disjunction, readBranches, hbranches,
      outcomes_disjunction]
  | group kind e ih =>
    rw [asRead_group, outcomes_group, outcomes_group, ih]
  | charClass negated ms _ =>
    have haccepts : s.reading.accepts (.charClass negated (ms.map rereadMember)) =
        s.reading.accepts (.charClass negated ms) := by
      funext c
      simp only [Reading.accepts, Reading.classAccepts, List.any_map, Function.comp_def,
        memberAccepts_rereadMember]
    rw [asRead_charClass, outcomes, outcomes, one_of_accepts s haccepts]
  | char c =>
    have haccepts : s.reading.accepts (.char (reread false c)) = s.reading.accepts (.char c) := by
      funext d
      simp only [Reading.accepts, charAccepts_reread]
    rw [asRead_char, outcomes, outcomes, one_of_accepts s haccepts]
  | repetition e min max greedy ih =>
    rw [asRead_repetition, outcomes_repetition, outcomes_repetition]
    split
    · rw [ih]
    · rw [outcomes_group, grouped_nonCapturing, ih]
  | backreference _ _ | assertion _ | classRange _ _ => rfl

end RegexKit.Node
