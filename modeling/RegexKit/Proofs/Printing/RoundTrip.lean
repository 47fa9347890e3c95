import RegexKit.Proofs.Printing.Delimited

/-! Printing a parsed tree and parsing the text again. Only marks of identity escapes, the
empty body and octal escapes before digits come out differently, and printing the second tree
gives the same text. -/

namespace RegexKit

/-- A simple character without the mark of an identity escape. -/
def PatternChar.unmark (c : PatternChar) : PatternChar :=
  if c.kind = .simple then { c with escaped := false } else c

namespace Node

open RegexKit.Token
open RegexKit.Parser (collapse)

/-! ### What comes out differently -/

mutual

/-- A tree without the marks of identity escapes. -/
def unmark : Node → Node
  | regExp b flags => regExp (unmark b) flags
  | alternative es => alternative (unmarkAll es)
  | disjunction bs => disjunction (unmarkAll bs)
  | group kind e => group kind (unmark e)
  | backreference target number => backreference target number
  | assertion kind => assertion kind
  | char c => char c.unmark
  | charClass negated ms => charClass negated (unmarkAll ms)
  | classRange low high => classRange low.unmark high.unmark
  | repetition e min max greedy => repetition (unmark e) min max greedy

def unmarkAll : List Node → List Node
  | [] => []
  | n :: ns => unmark n :: unmarkAll ns

end

def isOctalEscape : Node → Bool
  | char c => c.kind == .octal
  | _ => false

/-- The first of these parts has a text that begins with a digit. -/
def digitNext : List Node → Bool
  | [] => false
  | e :: _ => e.text.head?.any Char.isDigit

mutual

/-- A tree with every octal escape in a sequence that a digit follows in parentheses, and with
an empty pair of them for an empty body. -/
def regroup : Node → Node
  | regExp b flags => regExp (if b = empty then group .nonCapturing empty else regroup b) flags
  | alternative es => alternative (regroupParts es)
  | disjunction bs => disjunction (regroupAll bs)
  | group kind e => group kind (regroup e)
  | repetition e min max greedy => repetition (regroup e) min max greedy
  | n => n

def regroupParts : List Node → List Node
  | [] => []
  | e :: es =>
    (if e.isOctalEscape && digitNext es then group .nonCapturing e else regroup e) ::
      regroupParts es

def regroupAll : List Node → List Node
  | [] => []
  | n :: ns => regroup n :: regroupAll ns

end

theorem unmarkAll_eq (ns : List Node) : unmarkAll ns = ns.map unmark := by
  induction ns with
  | nil => rfl
  | cons n ns ih => simp [unmarkAll, ih]

theorem regroupAll_eq (ns : List Node) : regroupAll ns = ns.map regroup := by
  induction ns with
  | nil => rfl
  | cons n ns ih => simp [regroupAll, ih]

@[simp] theorem unmark_reread (b : Bool) (c : PatternChar) : (reread b c).unmark = c.unmark := by
  unfold reread
  split
  · rename_i hkind
    simp [PatternChar.unmark, hkind]
  · rfl

theorem unmark_rereadMember (m : Node) : (rereadMember m).unmark = m.unmark := by
  cases m <;> simp [rereadMember, unmark]

/-! ### Grammatical trees read back -/

theorem isChoice_of_isPart {e : Node} (he : e.isPart = true) : e.isChoice = false := by
  simp only [isPart, Bool.and_eq_true, Bool.not_eq_true'] at he
  exact he.2

/-- A sequence is read back part by part. -/
theorem readParts_cons {e : Node} {es : List Node} (he : mayStand (some .alternative) e = true) :
    readParts (e :: es) =
      (if isWrapped e es then group .nonCapturing e.asRead else e.asRead) :: readParts es := by
  rw [readParts, readBranches_of_mayStand he]
  split <;> rfl

theorem length_readParts {es : List Node} (hes : ∀ e ∈ es, mayStand (some .alternative) e = true) :
    (readParts es).length = es.length := by
  induction es with
  | nil => rfl
  | cons e es ih =>
    rw [readParts_cons (hes e List.mem_cons_self), List.length_cons, List.length_cons,
      ih fun k hk => hes k (List.mem_cons_of_mem _ hk)]

theorem asRead_alternative_of_length_ne_one {es : List Node}
    (hes : ∀ e ∈ es, mayStand (some .alternative) e = true) (hlen : es.length ≠ 1) :
    (alternative es).asRead = alternative (readParts es) := by
  rw [asRead_of_not_choice rfl, readBranches, List.flatten_singleton]
  exact Parser.collapse_of_length_ne_one (by rwa [length_readParts hes])

theorem asRead_alternative {es : List Node} (hn : (alternative es).grammatical = true) :
    (alternative es).asRead = alternative (readParts es) := by
  simp only [grammatical, Bool.and_eq_true, bne_iff_ne, grammaticalParts_eq, List.all_eq_true] at hn
  exact asRead_alternative_of_length_ne_one (fun e he => mayStand_of_isPart (hn.2 e he)) hn.1

/-- Branches that are no choices are read back one by one. -/
theorem map_readChoices {bs : List Node} (hbs : ∀ b ∈ bs, b.isChoice = false) :
    (readChoices bs).map (collapse .alternative) = bs.map asRead := by
  induction bs with
  | nil => rfl
  | cons b bs ih =>
    have hb := hbs b List.mem_cons_self
    rw [readChoices, List.map_append, ih fun k hk => hbs k (List.mem_cons_of_mem _ hk),
      List.map_cons, asRead_of_not_choice hb, readBranches_of_not_choice hb]
    simp

theorem asRead_disjunction_of_length_ne_one {bs : List Node}
    (hbs : ∀ b ∈ bs, b.isChoice = false) (hlen : bs.length ≠ 1) :
    (disjunction bs).asRead = disjunction (bs.map asRead) := by
  rw [asRead, assemble, readBranches, map_readChoices hbs]
  exact Parser.collapse_of_length_ne_one (by rwa [List.length_map])

theorem isChoice_of_isBranch {b : Node} (hb : b.isBranch = true) : b.isChoice = false := by
  simp only [isBranch, Bool.and_eq_true, Bool.not_eq_true'] at hb
  exact hb.2

theorem asRead_disjunction {bs : List Node} (hn : (disjunction bs).grammatical = true) :
    (disjunction bs).asRead = disjunction (bs.map asRead) := by
  simp only [grammatical, Bool.and_eq_true, decide_eq_true_eq, grammaticalBranches_eq,
    List.all_eq_true] at hn
  exact asRead_disjunction_of_length_ne_one (fun b hb => isChoice_of_isBranch (hn.2 b hb))
    (by omega)

/-- Only a number or an octal escape takes in a digit after it. -/
theorem endsOpen_of_isPart {e : Node} (he : e.isPart = true) (h : e.endsOpen = true) :
    e.isOctalEscape = true ∨ ∃ m number, e = backreference (.number m) number := by
  cases e with
  | char c => exact .inl h
  | backreference target number =>
    cases target with
    | number m => exact .inr ⟨m, number, rfl⟩
    | name t => cases h
  | alternative _ => simp at he
  | _ => cases h

theorem endsOpen_of_isOctalEscape {e : Node} (h : e.isOctalEscape = true) : e.endsOpen = true := by
  cases e <;> first | exact h | cases h

/-- A part prints something. -/
theorem exists_text_eq_cons_of_isPart {e : Node} (he : e.isPart = true) (hlexed : e.Lexed) :
    ∃ c t, e.text = c :: t := by
  have hnothing : e.printsNothing = false := by
    cases e with
    | alternative _ => simp at he
    | _ => rfl
  obtain ⟨c, t, htext, -⟩ :=
    exists_text_eq_cons_of_worded hlexed.worded hnothing (isChoice_of_isPart he)
  exact ⟨c, t, htext⟩

/-- What follows a part in a sequence begins with the text of the next part. -/
theorem digitFollows_eq_digitNext {es : List Node} (hes : ∀ e ∈ es, e.isPart = true)
    (hlexed : LexedAll es) : digitFollows es = digitNext es := by
  cases es with
  | nil => rfl
  | cons e es =>
    have he := hes e List.mem_cons_self
    have hchoice := isChoice_of_isPart he
    obtain ⟨c, t, htext⟩ := exists_text_eq_cons_of_isPart he hlexed.1
    rw [digitFollows_cons, digitNext]
    simp [piece, hchoice, htext]

/-- Among parts that the lexer makes, exactly the octal escapes before a digit are printed in
parentheses. -/
theorem isWrapped_eq {e : Node} {es : List Node} (hparts : ∀ k ∈ e :: es, k.isPart = true)
    (hlexed : LexedAll (e :: es)) (hp : Produced false (yieldList (e :: es))) :
    isWrapped e es = (e.isOctalEscape && digitNext es) := by
  have he := hparts e List.mem_cons_self
  rw [isWrapped, isChoice_of_isPart he, Bool.false_or,
    digitFollows_eq_digitNext (fun k hk => hparts k (List.mem_cons_of_mem _ hk)) hlexed.2]
  cases hoctal : e.isOctalEscape with
  | true => rw [endsOpen_of_isOctalEscape hoctal]
  | false =>
    cases hopen : e.endsOpen with
    | false => rfl
    | true =>
      rcases endsOpen_of_isPart he hopen with h | ⟨m, number, hnumber⟩
      · rw [hoctal] at h
        cases h
      · cases es with
        | nil => rfl
        | cons e' es =>
          exact not_digit_after_number hnumber (hparts e' (by simp)) hlexed.2.1 hp

/-! ### Up to marks -/

theorem mayStand_asSpelled (parent : Option NodeType) (n : Node) :
    mayStand parent n.asSpelled = mayStand parent n := by
  cases n <;> rfl

theorem isOctalEscape_asSpelled (n : Node) : n.asSpelled.isOctalEscape = n.isOctalEscape := by
  cases n <;> rfl

theorem digitNext_asSpelledAll (es : List Node) : digitNext (asSpelledAll es) = digitNext es := by
  cases es with
  | nil => rfl
  | cons e es => rw [asSpelledAll, digitNext, digitNext, sameHead_asSpelled e]

/-- The parts of a sequence are read back as they are spelled when each is, but for the parentheses
around octal escapes before digits. -/
theorem unmark_readParts {es : List Node} (hparts : ∀ e ∈ es, e.isPart = true)
    (hlexed : LexedAll es) (hp : Produced false (yieldList es))
    (hsame : ∀ e ∈ es, e.readBack.unmark = e.asSpelled.regroup.unmark) :
    (readParts (asSpelledAll es)).map unmark = (regroupParts (asSpelledAll es)).map unmark := by
  induction es with
  | nil => rfl
  | cons e es ih =>
    have he := hparts e List.mem_cons_self
    have hstands : mayStand (some .alternative) e.asSpelled = true := by
      rw [mayStand_asSpelled]
      exact mayStand_of_isPart he
    have hright : Produced false (yieldList es) := by
      have hsplit : Produced false (e.yield ++ yieldList es) := hp
      have hafter := hsplit.right
      rwa [inClassAfterAll_yield (grammatical_of_isPart he)] at hafter
    rw [asSpelledAll, readParts_cons hstands, isWrapped_asSpelled, isWrapped_eq hparts hlexed hp,
      regroupParts, isOctalEscape_asSpelled, digitNext_asSpelledAll, List.map_cons, List.map_cons,
      ih (fun k hk => hparts k (List.mem_cons_of_mem _ hk)) hlexed.2 hright
        fun k hk => hsame k (List.mem_cons_of_mem _ hk)]
    congr 1
    have hread : e.asSpelled.asRead.unmark = e.asSpelled.regroup.unmark :=
      hsame e List.mem_cons_self
    split
    · rename_i hwrap
      simp only [Bool.and_eq_true] at hwrap
      have hplain : e.asSpelled.regroup = e.asSpelled := by
        cases e <;> first | rfl | cases hwrap.1
      rw [unmark, unmark, hread, hplain]
    · exact hread

/-- A tree of tokens that the lexer makes is read back as it is spelled, up to marks and to the
parentheses around octal escapes before digits. -/
theorem unmark_readBack {n : Node} (hn : n.grammatical = true) (hp : Produced false n.yield) :
    n.readBack.unmark = n.asSpelled.regroup.unmark := by
  have hlexed := lexed_of_produced hn hp
  induction n with
  | regExp _ _ _ | classRange _ _ => cases hlexed
  | alternative es ih =>
    simp only [grammatical, Bool.and_eq_true, bne_iff_ne, grammaticalParts_eq,
      List.all_eq_true] at hn
    have hread : (alternative es).readBack = alternative (readParts (asSpelledAll es)) := by
      refine asRead_alternative_of_length_ne_one ?_ ?_
      · rw [asSpelledAll_eq]
        refine List.forall_mem_map.2 fun e he => ?_
        rw [mayStand_asSpelled]
        exact mayStand_of_isPart (hn.2 e he)
      · rw [asSpelledAll_eq, List.length_map]
        exact hn.1
    have hg : ∀ e ∈ es, e.grammatical = true := fun e he => grammatical_of_isPart (hn.2 e he)
    have hproduced := produced_of_mem (fun e he => inClassAfterAll_yield (hg e he)) hp
    have hsame : ∀ e ∈ es, e.readBack.unmark = e.asSpelled.regroup.unmark := fun e he =>
      ih e he (hg e he) (hproduced e he) (lexedAll_iff.1 hlexed e he)
    rw [hread, asSpelled, regroup, unmark, unmark, unmarkAll_eq, unmarkAll_eq,
      unmark_readParts hn.2 hlexed hp hsame]
  | disjunction bs ih =>
    simp only [grammatical, Bool.and_eq_true, decide_eq_true_eq, grammaticalBranches_eq,
      List.all_eq_true] at hn
    have hread : (disjunction bs).readBack = disjunction (bs.map readBack) := by
      rw [readBack, asSpelled, asSpelledAll_eq, asRead_disjunction_of_length_ne_one, List.map_map]
      · rfl
      · refine List.forall_mem_map.2 fun b hb => ?_
        rw [isChoice_asSpelled]
        exact isChoice_of_isBranch (hn.2 b hb)
      · rw [List.length_map]
        omega
    have hg : ∀ b ∈ bs, b.grammatical = true := fun b hb => grammatical_of_isBranch (hn.2 b hb)
    have hproduced := produced_of_mem_branches (fun b hb => inClassAfterAll_yield (hg b hb)) hp
    have hbranches : (bs.map readBack).map unmark =
        ((bs.map asSpelled).map regroup).map unmark := by
      rw [List.map_map, List.map_map, List.map_map]
      exact List.map_congr_left fun b hb =>
        ih b hb (hg b hb) (hproduced b hb) (lexedAll_iff.1 hlexed.2 b hb)
    rw [hread, asSpelled, asSpelledAll_eq, regroup, regroupAll_eq, unmark, unmark, unmarkAll_eq,
      unmarkAll_eq, hbranches]
  | group kind e ih =>
    have hbody : Produced false (e.yield ++ [.groupClose]) := hp.2.2
    have he : e.asSpelled.asRead.unmark = e.asSpelled.regroup.unmark := ih hn hbody.left hlexed
    rw [readBack, asSpelled, asRead_group, regroup, unmark, unmark, he]
  | backreference _ _ | assertion _ => rfl
  | char c =>
    rw [readBack, asSpelled, asRead_char, regroup, unmark, unmark, unmark_reread]
    all_goals simp
  | charClass negated ms _ =>
    have hmembers : ((spelled ms).map rereadMember).map unmark = (spelled ms).map unmark := by
      rw [List.map_map]
      exact List.map_congr_left fun m _ => unmark_rereadMember m
    rw [readBack, asSpelled, asRead_charClass, regroup, unmark, unmark, unmarkAll_eq, unmarkAll_eq,
      hmembers]
    all_goals simp
  | repetition e min max greedy ih =>
    simp only [grammatical, Bool.and_eq_true] at hn
    obtain ⟨⟨hg, hrep⟩, -⟩ := hn
    rw [yield] at hp
    have he : e.asSpelled.asRead.unmark = e.asSpelled.regroup.unmark := ih hg hp.left hlexed.1
    have hatom : e.asSpelled.isAtom = true := by
      rw [isAtom_asSpelled]
      exact isAtom_of_isRepeatable hrep
    rw [readBack, asSpelled, asRead_repetition, if_pos hatom, regroup, unmark, unmark, he]

/-! ### The same text -/

theorem digitFollows_of_digitFollows_readParts {es : List Node} (hes : ∀ e ∈ es, e.isPart = true)
    (hbuilt : BuiltAll es) (htext : ∀ e ∈ es, e.asRead.text = e.text)
    (h : digitFollows (readParts es) = true) : digitFollows es = true := by
  cases es with
  | nil => exact h
  | cons e es =>
    have he := hes e List.mem_cons_self
    have hchoice : e.asRead.isChoice = false := by
      cases e with
      | alternative _ | disjunction _ => simp at he
      | _ => rfl
    obtain ⟨c, t, hcons⟩ := exists_text_eq_cons_of_isPart he hbuilt.1.lexed
    rw [digitFollows_eq_digitNext hes hbuilt.lexed, digitNext]
    rw [readParts_cons (mayStand_of_isPart he)] at h
    split at h
    · -- the parenthesis around the first part is no digit
      rw [digitFollows_cons] at h
      cases h
    · rw [digitFollows_cons, piece, hchoice, htext e List.mem_cons_self, hcons] at h
      rw [hcons]
      simpa using h

/-- Parentheses that the printer adds are not printed twice. -/
theorem isWrapped_asRead {e : Node} {es : List Node} (hparts : ∀ k ∈ e :: es, k.isPart = true)
    (hbuilt : BuiltAll (e :: es)) (htext : ∀ k ∈ es, k.asRead.text = k.text)
    (h : isWrapped e es = false) : isWrapped e.asRead (readParts es) = false := by
  have he := hparts e List.mem_cons_self
  have hread : e.asRead.isChoice = false ∧ (e.asRead.endsOpen = true → e.endsOpen = true) := by
    cases e with
    | alternative _ | disjunction _ => simp at he
    | char c =>
      refine ⟨rfl, fun hopen => ?_⟩
      have hkind : ((reread false c).kind == .octal) = true := hopen
      rwa [kind_reread] at hkind
    | _ => exact ⟨rfl, fun hopen => hopen⟩
  simp only [isWrapped, Bool.or_eq_false_iff, Bool.and_eq_false_iff] at h ⊢
  refine ⟨hread.1, ?_⟩
  cases hopen : e.asRead.endsOpen with
  | false => exact .inl rfl
  | true =>
    cases hdigit : digitFollows (readParts es) with
    | false => exact .inr rfl
    | true =>
      have hfollows := digitFollows_of_digitFollows_readParts
        (fun k hk => hparts k (List.mem_cons_of_mem _ hk)) hbuilt.2 htext hdigit
      rw [hread.2 hopen, hfollows] at h
      simp at h

/-- A member read back has the text of the member, and the same other spelling. -/
theorem memberPiece_rereadMember (m : Node) :
    memberPiece (rereadMember m) (rereadMember m).text = memberPiece m m.text := by
  have hoctal : ∀ c, respellOctal? (reread true c) = respellOctal? c := fun c => by
    rw [respellOctal?, respellOctal?, kind_reread, codePoint?_reread]
  have hrange : ∀ low : PatternChar, rangeText (reread true low) = rangeText low := fun low => by
    funext high
    rw [rangeText, rangeText, text_reread]
  cases m with
  | char c => simp [rereadMember, memberPiece, hoctal]
  | classRange low high => simp [rereadMember, memberPiece, hoctal, hrange, rangeText]
  | _ => rfl

/-- A class of members read back prints as the class. -/
theorem text_rereadMember (negated : Bool) (ms : List Node) :
    (charClass negated (ms.map rereadMember)).text = (charClass negated ms).text := by
  have hpieces : (ms.map rereadMember).map (fun m => memberPiece m m.text) =
      ms.map fun m => memberPiece m m.text := by
    rw [List.map_map]
    exact List.map_congr_left fun m _ => memberPiece_rereadMember m
  rw [text, text, zipWith_memberPiece, zipWith_memberPiece, hpieces]

/-- A sequence read back prints as the sequence did, when its parts do. -/
theorem text_readParts {es : List Node} (hparts : ∀ e ∈ es, e.isPart = true)
    (hbuilt : BuiltAll es) (htext : ∀ e ∈ es, e.asRead.text = e.text) :
    (alternative (readParts es)).text = (alternative es).text := by
  induction es with
  | nil => rfl
  | cons e es ih =>
    have hrest : ∀ k ∈ es, k.asRead.text = k.text := fun k hk =>
      htext k (List.mem_cons_of_mem _ hk)
    have he := htext e List.mem_cons_self
    rw [readParts_cons (mayStand_of_isPart (hparts e List.mem_cons_self)), text_alternative_cons,
      text_alternative_cons, ih (fun k hk => hparts k (List.mem_cons_of_mem _ hk)) hbuilt.2 hrest]
    cases hwrap : isWrapped e es with
    | true =>
      have hgroup : (group .nonCapturing e.asRead).text = wrap e.asRead.text := rfl
      have hnot : isWrapped (group .nonCapturing e.asRead) (readParts es) = false := rfl
      rw [if_pos rfl, hnot, hgroup, he]
      rfl
    | false =>
      rw [if_neg Bool.false_ne_true, isWrapped_asRead hparts hbuilt hrest hwrap, he]

/-- A tree read back prints as the tree did. -/
theorem text_asRead {n : Node} (hn : n.grammatical = true) (hbuilt : n.Built) :
    n.asRead.text = n.text := by
  induction n with
  | regExp _ _ _ | classRange _ _ => cases hbuilt
  | alternative es ih =>
    rw [asRead_alternative hn]
    simp only [grammatical, Bool.and_eq_true, grammaticalParts_eq, List.all_eq_true] at hn
    exact text_readParts hn.2 hbuilt fun e he =>
      ih e he (grammatical_of_isPart (hn.2 e he)) (builtAll_iff.1 hbuilt e he)
  | disjunction bs ih =>
    rw [asRead_disjunction hn]
    simp only [grammatical, Bool.and_eq_true, grammaticalBranches_eq, List.all_eq_true] at hn
    have htexts : (bs.map asRead).map text = bs.map text := by
      rw [List.map_map]
      exact List.map_congr_left fun b hb => ih b hb (grammatical_of_isBranch (hn.2 b hb))
        (builtAll_iff.1 hbuilt.2 b hb)
    rw [text, text, texts_eq, texts_eq, htexts]
  | group kind e ih =>
    rw [asRead_group, text, text, ih hn hbuilt]
  | backreference _ _ | assertion _ => rfl
  | char c =>
    rw [asRead_char, text, text, text_reread]
  | charClass negated ms _ =>
    rw [asRead_charClass, text_rereadMember]
  | repetition e min max greedy ih =>
    simp only [grammatical, Bool.and_eq_true] at hn
    obtain ⟨⟨hg, hrep⟩, -⟩ := hn
    have hatom : e.isAtom = true := by
      cases e <;> first | rfl | cases hrep
    have hatom' : e.asRead.isAtom = true := by
      cases e <;> first | rfl | cases hrep
    rw [asRead_repetition, if_pos hatom, text, text, if_pos hatom, if_pos hatom',
      ih hg hbuilt.1]

/-! ### The round trip -/

/-- A tree that the lexer wrote has no text only when it is the empty sequence. -/
theorem text_eq_nil_iff {n : Node} (hn : n.grammatical = true) (hlexed : n.Lexed) :
    n.text = [] ↔ n = empty := by
  refine ⟨fun htext => ?_, fun h => by rw [h]; rfl⟩
  have hpart : n.isPart = false := by
    refine Bool.eq_false_iff.2 fun hpart => ?_
    obtain ⟨c, t, hcons⟩ := exists_text_eq_cons_of_isPart hpart hlexed
    rw [hcons] at htext
    cases htext
  cases n with
  | alternative es =>
    cases es with
    | nil => rfl
    | cons e es =>
      simp only [grammatical, Bool.and_eq_true, grammaticalParts_eq, List.all_eq_true] at hn
      obtain ⟨c, t, hcons⟩ :=
        exists_text_eq_cons_of_isPart (hn.2 e List.mem_cons_self) hlexed.1
      rw [text_alternative_cons, hcons] at htext
      split at htext <;> cases htext
  | disjunction bs =>
    simp only [grammatical, Bool.and_eq_true, decide_eq_true_eq] at hn
    rcases bs with _ | ⟨b, _ | ⟨c, bs⟩⟩
    · simp at hn
    · simp at hn
    · rw [text_disjunction_cons] at htext
      simp at htext
  | _ => simp [isPart, hn, isSequence, isChoice] at hpart

theorem asSpelled_eq_empty {n : Node} : n.asSpelled = empty ↔ n = empty := by
  cases n with
  | alternative es => cases es <;> simp [asSpelled, asSpelledAll, empty]
  | _ => simp [asSpelled, empty]

/-- The body read back is the body as it is spelled, up to marks and added parentheses. -/
theorem unmark_bodyReadBack {body : Node} (hn : body.grammatical = true)
    (hp : Produced false body.yield) (flags : Flags) :
    (regExp (bodyReadBack body) flags).unmark = (regExp body flags).asSpelled.regroup.unmark := by
  have hempty := text_eq_nil_iff hn (lexed_of_produced hn hp)
  rw [bodyReadBack_eq, asSpelled, regroup, unmark, unmark]
  simp only [hempty, asSpelled_eq_empty]
  split
  · rfl
  · rw [unmark_readBack hn hp]

theorem unmark_bodyAsRead {body : Node} (hn : body.WellFormed) (hp : Produced false body.yield)
    (hoctal : body.NoOctalClass) (flags : Flags) :
    (regExp (bodyAsRead body) flags).unmark = (regExp body flags).regroup.unmark := by
  have hbuilt := built_of_produced hn.shape hp hoctal
  have hread := unmark_bodyReadBack hn.shape hp flags
  rwa [bodyReadBack_of_built hbuilt, asSpelled, asSpelled_of_built hbuilt] at hread

/-- A body that the lexer wrote and the body that its text is read as are printed alike. -/
theorem patternText_bodyAsRead {body : Node} (hn : body.grammatical = true)
    (hbuilt : body.Built) : patternText (bodyAsRead body) = patternText body := by
  rw [bodyAsRead]
  split
  · rename_i htext
    rw [patternText, patternText, if_pos htext]
    rfl
  · rw [patternText, patternText, text_asRead hn hbuilt]

/-- A source that is read, with groups one level below the limit of the reader and no octal
escape in a class, is printed, and the text is read as the same tree up to marks of identity
escapes, parentheses around octal escapes before digits and parentheses for an empty body. The
flags, the groups and the references are the same, and the second tree prints as the first. -/
theorem parse_render {source : Text} {n : Node} (h : Source.parse source = .ok n)
    (hdepth : n.groupDepth < Parser.maxDepth) (hoctal : n.NoOctalClass) :
    ∃ t n', n.render = .ok t ∧ Source.parse t = .ok n' ∧ n'.unmark = n.regroup.unmark ∧
      n'.flags = n.flags ∧ n'.captures = n.captures ∧ n'.references = n.references ∧
      n'.render = .ok t := by
  obtain ⟨body, flags, rfl, hwell, hp⟩ := Source.exists_of_parse h
  have hclasses : body.NoOctalClass := hoctal.child List.mem_cons_self
  have hprintable : Printable body flags := printable_of_produced hwell hp hdepth hclasses
  have hwritable := hprintable.writable
  refine ⟨_, regExp (bodyAsRead body) flags,
    render_regExp (badBounds?_of_grammatical hwell.shape) flags, hprintable.parse_fullText,
    unmark_bodyAsRead hwell hp hclasses flags, rfl, hwritable.captures_bodyAsRead,
    hwritable.references_bodyAsRead, ?_⟩
  rw [render_regExp (badBounds?_of_grammatical hwritable.grammatical_bodyAsRead), fullText,
    fullText, patternText_bodyAsRead hwell.shape hwritable.built]

/-- The octal escape of `/\0011/` comes back in parentheses, since the digit is not its own. -/
theorem parse_render_octal_digit :
    ∃ n', Source.parse ['/', '(', '?', ':', '\\', '0', '0', '1', ')', '1', '/'] = .ok n' ∧
      n'.unmark = regExp (alternative
        [group .nonCapturing (char ⟨['\\', '0', '0', '1'], .octal, false⟩),
          char (.simple '1')]) {} := by
  have hsource : Source.parse ['/', '\\', '0', '0', '1', '1', '/'] =
      .ok (regExp (alternative [char ⟨['\\', '0', '0', '1'], .octal, false⟩,
        char (.simple '1')]) {}) := by decide +kernel
  obtain ⟨t, n', hrender, hparse, hunmark, -⟩ := parse_render hsource (by decide) (by decide)
  have htext : t = ['/', '(', '?', ':', '\\', '0', '0', '1', ')', '1', '/'] :=
    (Except.ok.inj hrender).symm
  rw [htext] at hparse
  exact ⟨n', hparse, hunmark⟩

end Node

end RegexKit
