import RegexKit.Proofs.Grammar.Operands
import RegexKit.Proofs.Printing.Delimited
import RegexKit.Proofs.Printing.Numbered

/-! What a printed quantifier stands behind. The printer puts parentheses around every operand but
characters, classes, references and groups; the reader lets a quantifier follow all of these except
one kind of group, the lookbehind. So the text of a tree is accepted exactly when no lookbehind in
it is repeated. -/

namespace RegexKit.Node

open RegexKit.Token
open RegexKit.Parser (RepeatsLookbehind)

/-! ### Repeated lookbehinds -/

def isRepeatedLookbehind : Node → Bool
  | repetition e _ _ _ => e.isLookbehindGroup
  | _ => false

/-- No lookbehind of the tree carries a quantifier. -/
def NoRepeatedLookbehind (n : Node) : Prop := ∀ m ∈ n.preorder, m.isRepeatedLookbehind = false

instance (n : Node) : Decidable n.NoRepeatedLookbehind :=
  inferInstanceAs (Decidable (∀ m ∈ n.preorder, m.isRepeatedLookbehind = false))

theorem NoRepeatedLookbehind.child {n c : Node} (h : n.NoRepeatedLookbehind)
    (hc : c ∈ n.children) : c.NoRepeatedLookbehind := (forall_preorder_iff.1 h).2 c hc

theorem isLookbehindGroup_numbered (n : Node) (k : Nat) :
    (numbered k n).isLookbehindGroup = n.isLookbehindGroup := by
  cases n with
  | group kind e =>
    obtain ⟨kind', j, hgroup, -, hkind⟩ := numbered_group k kind e
    rw [hgroup]
    exact hkind
  | _ => rfl

theorem isRepeatedLookbehind_numbered (n : Node) (k : Nat) :
    (numbered k n).isRepeatedLookbehind = n.isRepeatedLookbehind := by
  cases n with
  | repetition e min max greedy => exact isLookbehindGroup_numbered e k
  | group kind e =>
    obtain ⟨kind', j, hgroup, -⟩ := numbered_group k kind e
    rw [hgroup]
    rfl
  | _ => rfl

theorem noRepeatedLookbehind_numbered {n : Node} (k : Nat) :
    (numbered k n).NoRepeatedLookbehind ↔ n.NoRepeatedLookbehind :=
  forall_preorder_numbered (P := fun m => m.isRepeatedLookbehind = false)
    (fun m j => by rw [isRepeatedLookbehind_numbered]) rfl k n

/-- A worded tree without repeated lookbehinds is lexed. -/
theorem Worded.lexed {n : Node} (hn : n.Worded) (h : n.NoRepeatedLookbehind) : n.Lexed := by
  induction n with
  | regExp _ _ _ | classRange _ _ => cases hn
  | alternative es ih =>
    exact lexedAll_iff.2 fun e he => ih e he (wordedAll_iff.1 hn e he) (h.child he)
  | disjunction bs ih =>
    exact ⟨hn.1, lexedAll_iff.2 fun b hb => ih b hb (wordedAll_iff.1 hn.2 b hb) (h.child hb)⟩
  | group _ e ih => exact ih hn (h.child List.mem_cons_self)
  | backreference _ _ | assertion _ => exact trivial
  | char _ | charClass _ _ _ => exact hn
  | repetition e min max greedy ih =>
    exact ⟨ih hn.1 (h.child List.mem_cons_self), (forall_preorder_iff.1 h).1, hn.2⟩

/-! ### The tokens of a repeated lookbehind -/

/-- The tokens of a part are among those of the sequence. -/
theorem infix_yield_alternative {e : Node} {es : List Node} (he : e ∈ es) :
    e.readBack.yield <:+: (alternative es).readBack.yield := by
  rw [yield_readBack_alternative]
  induction es with
  | nil => cases he
  | cons e' es ih =>
    rw [yield_readParts_cons]
    rcases List.mem_cons.1 he with rfl | he
    · refine List.IsInfix.trans ?_ (List.prefix_append _ _).isInfix
      split
      · exact ⟨[_], [_], rfl⟩
      · exact List.infix_rfl
    · exact (ih he).trans (List.suffix_append _ _).isInfix

/-- The tokens of a branch are among those of the choice. -/
theorem infix_yield_disjunction {b : Node} {bs : List Node} (hbs : WordedAll bs) (hb : b ∈ bs) :
    b.readBack.yield <:+: (disjunction bs).readBack.yield := by
  induction bs with
  | nil => cases hb
  | cons b' bs ih =>
    rw [yield_readBack_disjunction hbs.1 hbs.2]
    rcases List.mem_cons.1 hb with rfl | hb
    · exact (List.prefix_append _ _).isInfix
    · rw [if_neg (List.ne_nil_of_mem hb)]
      refine (ih hbs.2 hb).trans (List.IsInfix.trans ?_ (List.suffix_append _ _).isInfix)
      exact (List.suffix_cons _ _).isInfix

/-- The tokens of the operand are among those of the repetition. -/
theorem infix_yield_repetition (e : Node) (min : Nat) (max : Option Nat) (greedy : Bool) :
    e.readBack.yield <:+: (repetition e min max greedy).readBack.yield := by
  rw [readBack, readBack, asSpelled, asRead_repetition, yield]
  refine List.IsInfix.trans ?_ (List.prefix_append _ _).isInfix
  split
  · exact List.infix_rfl
  · exact ⟨[_], [_], rfl⟩

/-- A lookbehind is printed bare before its quantifier. -/
theorem repeatsLookbehind_repetition {e : Node} (he : e.isLookbehindGroup = true) (min : Nat)
    (max : Option Nat) (greedy : Bool) :
    RepeatsLookbehind (repetition e min max greedy).readBack.yield := by
  cases e with
  | group kind e =>
    refine ⟨kind.opener, e.readBack.yield, min, max, greedy, ?_, Parser.balanced_yield _, ?_⟩
    · rwa [GroupKind.isLookbehind_opener]
    · have hyield : (repetition (group kind e) min max greedy).readBack.yield =
          .groupOpen kind.opener :: e.readBack.yield ++
            [.groupClose, .quantifier min max greedy] := by
        simp [readBack, asSpelled, asRead_repetition, asRead_group, isAtom, yield]
      rw [hyield]
  | _ => cases he

/-- The tokens of a tree with a repeated lookbehind show it. -/
theorem noRepeatedLookbehind_of_yield {n : Node} (hn : n.Worded)
    (h : ¬RepeatsLookbehind n.readBack.yield) : n.NoRepeatedLookbehind := by
  induction n with
  | regExp _ _ _ | classRange _ _ => cases hn
  | alternative es ih =>
    refine forall_preorder_iff.2
      ⟨rfl, fun e he => ih e he (wordedAll_iff.1 hn e he) fun hshown => ?_⟩
    exact h (hshown.mono (infix_yield_alternative he))
  | disjunction bs ih =>
    refine forall_preorder_iff.2
      ⟨rfl, fun b hb => ih b hb (wordedAll_iff.1 hn.2 b hb) fun hshown => ?_⟩
    exact h (hshown.mono (infix_yield_disjunction hn.2 hb))
  | group kind e ih =>
    refine forall_preorder_iff.2 ⟨rfl, List.forall_mem_singleton.2 (ih hn fun hshown => ?_)⟩
    exact h (hshown.mono ⟨[_], [_], rfl⟩)
  | charClass negated ms _ =>
    refine forall_preorder_iff.2 ⟨rfl, fun m hm => ?_⟩
    have hmember := hn m hm
    cases m with
    | char _ | classRange _ _ => exact List.forall_mem_singleton.2 rfl
    | _ => cases hmember
  | repetition e min max greedy ih =>
    refine forall_preorder_iff.2 ⟨?_, List.forall_mem_singleton.2 (ih hn.1 fun hshown => ?_)⟩
    · rw [← Bool.not_eq_true]
      exact fun hbehind => h (repeatsLookbehind_repetition hbehind min max greedy)
    · exact h (hshown.mono (infix_yield_repetition e min max greedy))
  | backreference _ _ | assertion _ | char _ => exact List.forall_mem_singleton.2 rfl

/-! ### Compositions -/

/-- A composed body whose groups have distinct identifiers for names, whose classes hold no octal
escapes, and whose text nests no deeper than the reader goes. -/
structure Composition (body : Node) (flags : Flags) : Prop where
  composed : body.Composed
  classes : body.NoOctalClass
  names : ((groupNames body.captures).map Prod.fst).Nodup
  identifiers : ∀ p ∈ groupNames body.captures, isIdentifier p.1 = true
  nested : ∀ ts, tokenize (pattern (regExp body flags)) = .ok ts →
    nesting 0 (ts.map Token.kind) ≤ Parser.maxDepth

theorem badBounds?_of_composed {n : Node} (hn : n.Composed) : n.badBounds? = none := by
  induction n with
  | regExp _ _ _ | backreference _ _ | classRange _ _ => cases hn
  | alternative ns ih | disjunction ns ih =>
    exact badBoundsList?_of_forall fun n hn' => ih n hn' (composedAll_iff.1 hn n hn')
  | group _ _ ih => exact ih hn
  | charClass negated ms _ =>
    refine badBoundsList?_of_forall fun m hm => ?_
    have hmember := hn m hm
    cases m <;> first | rfl | cases hmember
  | repetition e min max greedy ih => rw [badBounds?_repetition hn.2.1, ih hn.1]
  | assertion _ | char _ => rfl

namespace Composition

variable {body : Node} {flags : Flags}

/-- The numbered body is printed like the body. -/
theorem pattern_numbered (body : Node) (flags : Flags) :
    (regExp (numbered 0 body) flags).pattern = (regExp body flags).pattern := by
  rw [pattern, pattern, patternText, patternText, (printsAs_numbered 0 body).text]

theorem named_numbered (h : Composition body flags) : (numbered 0 body).Named where
  groups p hp := by
    have hname : p.1 ∈ (groupNames body.captures).map Prod.fst := by
      rw [← names_renumber, ← h.composed.captures_numbered 0]
      exact List.mem_map_of_mem hp
    obtain ⟨q, hq, heq⟩ := List.mem_map.1 hname
    rw [← heq]
    exact h.identifiers q hq
  references r hr := by
    rw [h.composed.references_numbered] at hr
    cases hr

theorem classesApart_numbered (h : Composition body flags) : (numbered 0 body).ClassesApart := by
  have hlocal : ∀ (m : Node) (j : Nat), (numbered j m).isRunTogether = m.isRunTogether :=
    fun m j => by
      cases m with
      | group kind e =>
        obtain ⟨kind', i, hgroup, -⟩ := numbered_group j kind e
        rw [hgroup]
        rfl
      | _ => rfl
  exact (forall_preorder_numbered (P := fun m => m.isRunTogether = false)
    (fun m j => by rw [hlocal]) rfl 0 body).2 h.classes.classesApart

/-- The text of the body splits into the tokens of the numbered body read back. -/
theorem splits (h : Composition body flags) :
    Splits false body.text [] (numbered 0 body).readBack.yield false := by
  have hsplits := splits_text_of_worded (h.composed.worded_numbered 0) h.classesApart_numbered
    h.named_numbered [] (fun _ => noQuestion_nil) fun _ => noDigit_nil
  rwa [(printsAs_numbered 0 body).text] at hsplits

/-- A body without repeated lookbehinds is read. -/
theorem accepted (h : Composition body flags) (hfree : body.NoRepeatedLookbehind) :
    ∃ n, Source.parseBody (regExp body flags).pattern flags = .ok n := by
  have hlegible : Legible (numbered 0 body) :=
    ⟨(h.composed.worded_numbered 0).lexed ((noRepeatedLookbehind_numbered 0).2 hfree),
      h.classesApart_numbered, h.named_numbered⟩
  obtain ⟨ts, hlex, -⟩ := tokenize_of_splits (hlegible.splits_pattern flags)
  have hnested := h.nested ts (pattern_numbered body flags ▸ hlex)
  rw [hlegible.nesting_pattern hlex] at hnested
  have hcaptures := h.composed.captures_numbered 0
  have hwell := hlegible.wellFormed hnested
    (by rw [hcaptures, map_fst_renumber, length_renumber])
    (by rw [hcaptures, names_renumber]; exact h.names)
    (by rw [h.composed.references_numbered]; exact fun r hr => by cases hr)
  have hparse : Source.parseWithFlags (regExp (numbered 0 body) flags).pattern flags.text =
      .ok (regExp (bodyReadBack (numbered 0 body)) flags) := hlegible.parseWithFlags_eq hwell
  rw [pattern_numbered, Source.parseWithFlags, Flags.parse_text] at hparse
  exact ⟨_, hparse⟩

/-- A body with a repeated lookbehind is refused. -/
theorem noRepeatedLookbehind (h : Composition body flags) {n : Node}
    (hparse : Source.parseBody (regExp body flags).pattern flags = .ok n) :
    body.NoRepeatedLookbehind := by
  refine (noRepeatedLookbehind_numbered 0).1
    (noRepeatedLookbehind_of_yield (h.composed.worded_numbered 0) fun hshown => ?_)
  have htext : body.text ≠ [] := fun htext => by
    obtain ⟨how, inner, min, max, greedy, -, -, hinfix⟩ := hshown
    rw [eq_nil_of_splits_nil h.splits htext, List.infix_nil] at hinfix
    cases hinfix
  have hpattern : (regExp body flags).pattern = body.text := if_neg htext
  obtain ⟨ts, t, hlex, htree, -⟩ := Parser.parseBody_eq_ok.1 hparse
  obtain ⟨us, hus, hkinds⟩ := tokenize_of_splits h.splits
  rw [hpattern, hus] at hlex
  cases hlex
  rw [← hkinds] at hshown
  exact Parser.parseTokens_repeatsLookbehind (produced_of_tokenize hus) hshown t htree

end Composition

variable {body : Node} {flags : Flags}

/-- A composition is printed, and its pattern is accepted exactly when no lookbehind in it is
repeated: the reader lets a quantifier follow every other operand that is printed bare, and the
parentheses around the rest. -/
theorem composition_accepted_iff (h : Composition body flags) :
    (regExp body flags).render = .ok (regExp body flags).fullText ∧
    ((∃ n, Source.parseBody (regExp body flags).pattern flags = .ok n) ↔
      body.NoRepeatedLookbehind) :=
  ⟨render_regExp (badBounds?_of_composed h.composed) flags,
    fun ⟨_, hparse⟩ => h.noRepeatedLookbehind hparse, h.accepted⟩

/-- The pattern `(?=a)*(?:^)*` of a repeated lookahead and a repeated assertion is accepted. -/
theorem composition_accepted_lookahead :
    ∃ n, Source.parseBody ['(', '?', '=', 'a', ')', '*', '(', '?', ':', '^', ')', '*'] {} =
      .ok n := by
  have hlex : tokenize ['(', '?', '=', 'a', ')', '*', '(', '?', ':', '^', ')', '*'] =
      .ok [⟨.groupOpen .lookahead, ['(', '?', '='], 0⟩, ⟨.char (.simple 'a'), ['a'], 3⟩,
        ⟨.groupClose, [')'], 4⟩, ⟨.quantifier 0 none true, ['*'], 5⟩,
        ⟨.groupOpen .nonCapturing, ['(', '?', ':'], 6⟩, ⟨.assertion .start, ['^'], 9⟩,
        ⟨.groupClose, [')'], 10⟩, ⟨.quantifier 0 none true, ['*'], 11⟩] := by decide +kernel
  have hcomposition : Composition (alternative
      [repetition (group .lookahead (char (.simple 'a'))) 0 none true,
        repetition (assertion .start) 0 none true]) {} := {
    composed := ⟨⟨⟨'a', [], 0, rfl⟩, by decide⟩, ⟨trivial, by decide⟩, trivial⟩
    classes := by decide
    names := by decide
    identifiers := by decide
    nested := by
      intro ts hts
      cases hlex.symm.trans hts
      decide }
  exact (composition_accepted_iff hcomposition).2.2 (by decide)

/-- A lookbehind is printed bare before a quantifier, and the text `/(?<=a)*/` is refused at the
quantifier. -/
theorem composition_refused_lookbehind :
    Composition (repetition (group .lookbehind (char (.simple 'a'))) 0 none true) {} ∧
    (regExp (repetition (group .lookbehind (char (.simple 'a'))) 0 none true) {}).render =
      .ok ['/', '(', '?', '<', '=', 'a', ')', '*', '/'] ∧
    Source.parseBody
        (regExp (repetition (group .lookbehind (char (.simple 'a'))) 0 none true) {}).pattern {} =
      .error (.parse ⟨.nothingToRepeat, 6⟩) := by
  have hlex : tokenize ['(', '?', '<', '=', 'a', ')', '*'] =
      .ok [⟨.groupOpen .lookbehind, ['(', '?', '<', '='], 0⟩, ⟨.char (.simple 'a'), ['a'], 4⟩,
        ⟨.groupClose, [')'], 5⟩, ⟨.quantifier 0 none true, ['*'], 6⟩] := by decide +kernel
  refine ⟨⟨⟨⟨'a', [], 0, rfl⟩, by decide⟩, by decide, by decide, by decide, fun ts hts => ?_⟩, rfl,
    by decide +kernel⟩
  cases hlex.symm.trans hts
  decide

end RegexKit.Node
