import RegexKit.Proofs.Printing.Members

/-! Which classes are read back as printed. A class is read back member by member exactly when its
members do not run together: where an octal escape takes in the digit that the next member is
printed as, the text has fewer tokens than the class. -/

namespace RegexKit.Node

open RegexKit.Token

variable {c : PatternChar}

/-! ### Pieces of class text -/

/-- The texts of the characters of a member, and of the dash of a range. -/
def pieces : Node → List Text
  | char c => [c.text .inClass]
  | classRange low high => [low.text .inClass, ['-'], high.text .inClass]
  | _ => []

/-- The text is an octal escape of fewer than three digits. -/
def isShortOctal : Text → Bool
  | '\\' :: y :: ds => Numeral.isOctal y && ds.all Numeral.isOctal && decide (ds.length ≤ 1)
  | _ => false

/-- An octal escape that may take in what follows, or the text of a character that does not. -/
inductive IsPiece : Text → Prop
  | short {t : Text} (h : isShortOctal t = true) : IsPiece t
  | closed {x : Char} {v : Text} {c : PatternChar}
      (h : ∀ u, first true x (v ++ u) = .ok ⟨.char c, v.length⟩) : IsPiece (x :: v)

/-- An octal digit comes first in the text of the pieces. -/
def octalFirst (ps : List Text) : Bool := ps.flatten.head?.any Numeral.isOctal

/-- Some piece takes in the beginning of the next one. -/
def absorbs : List Text → Bool
  | p :: ps => (isShortOctal p && octalFirst ps) || absorbs ps
  | [] => false

theorem exists_of_isShortOctal {t : Text} (h : isShortOctal t = true) :
    ∃ y ds, t = '\\' :: y :: ds ∧ Numeral.isOctal y = true ∧
      (∀ d ∈ ds, Numeral.isOctal d = true) ∧ ds.length ≤ 1 := by
  unfold isShortOctal at h
  split at h
  · simp only [Bool.and_eq_true, List.all_eq_true, decide_eq_true_eq] at h
    exact ⟨_, _, rfl, h.1.1, h.1.2, h.2⟩
  · cases h

/-- A piece that begins with an octal digit is that digit. -/
theorem IsPiece.eq_singleton {x : Char} {v : Text} (h : IsPiece (x :: v))
    (hx : Numeral.isOctal x = true) : v = [] := by
  cases h with
  | short h =>
    obtain ⟨y, ds, heq, -⟩ := exists_of_isShortOctal h
    cases heq
    exact absurd hx (by decide)
  | closed h =>
    have hplain : (PatternChar.reserved .inClass).contains x = false := by
      by_contra hreserved
      rw [Bool.not_eq_false, List.contains_iff_mem] at hreserved
      simp only [PatternChar.reserved, List.mem_cons, List.not_mem_nil, or_false] at hreserved
      rcases hreserved with rfl | rfl | rfl | rfl | rfl | rfl <;> exact absurd hx (by decide)
    have hfirst := (first_of_not_reserved (b := true) hplain (v ++ [])).symm.trans (h [])
    have hlength : 0 = v.length := congrArg Lexeme.extra (Except.ok.inj hfirst)
    exact List.eq_nil_of_length_eq_zero hlength.symm

/-- A run of octal digits takes in whole pieces. -/
theorem exists_octalRun_eq {ps : List Text} (hps : ∀ p ∈ ps, IsPiece p) {u : Text} (hu : noOctal u)
    (limit : Nat) :
    ∃ w, w.length = octalRun limit (ps.flatten ++ u) ∧ w.length ≤ ps.length ∧
      ps.flatten = w ++ (ps.drop w.length).flatten := by
  induction limit generalizing ps with
  | zero => exact ⟨[], rfl, Nat.zero_le _, rfl⟩
  | succ limit ih =>
    cases ps with
    | nil => exact ⟨[], (octalRun_eq_zero hu _).symm, Nat.zero_le _, rfl⟩
    | cons p ps =>
      have hp := hps p List.mem_cons_self
      cases p with
      | nil =>
        cases hp with
        | short h => cases h
      | cons x v =>
        cases hx : Numeral.isOctal x with
        | false =>
          refine ⟨[], ?_, Nat.zero_le _, rfl⟩
          rw [List.flatten_cons, List.cons_append, List.cons_append, octalRun_succ_cons, hx]
          rfl
        | true =>
          obtain rfl := hp.eq_singleton hx
          obtain ⟨w, hlength, hle, hflatten⟩ := ih fun k hk => hps k (List.mem_cons_of_mem _ hk)
          refine ⟨x :: w, ?_, Nat.succ_le_succ hle, ?_⟩
          · rw [List.flatten_cons, List.append_assoc, List.singleton_append, octalRun_succ_cons, hx,
              if_pos rfl, List.length_cons, hlength]
          · rw [List.flatten_cons, List.singleton_append, List.length_cons, List.drop_succ_cons,
              List.cons_append, ← hflatten]

theorem octalFirst_eq_false {ps : List Text} {u : Text} {limit : Nat} (hlimit : 0 < limit)
    (h : octalRun limit (ps.flatten ++ u) = 0) : octalFirst ps = false := by
  obtain ⟨limit, rfl⟩ := Nat.exists_eq_succ_of_ne_zero (Nat.ne_of_gt hlimit)
  unfold octalFirst
  cases hflatten : ps.flatten with
  | nil => rfl
  | cons x t =>
    cases hx : Numeral.isOctal x with
    | false => simpa using hx
    | true =>
      rw [hflatten, List.cons_append, octalRun_succ_cons, hx, if_pos rfl] at h
      cases h

/-- An octal escape takes in the run of octal digits after it. -/
theorem splits_shortOctal {y : Char} {ds w t u : Text} {ks : List TokenKind}
    (hy : Numeral.isOctal y = true) (hds : ∀ d ∈ ds, Numeral.isOctal d = true)
    (hlen : ds.length ≤ 2) (hw : octalRun (2 - ds.length) (w ++ t ++ u) = w.length)
    (hrest : Splits true t u ks true) :
    Splits true ('\\' :: y :: ds ++ (w ++ t)) u
      (.char ⟨'\\' :: y :: (ds ++ w), .octal, false⟩ :: ks) true := by
  have hrun : octalRun 2 (ds ++ (w ++ t ++ u)) = ds.length + w.length := by
    have happend := octalRun_append hds (2 - ds.length) (w ++ t ++ u)
    rwa [Nat.add_sub_cancel' hlen, hw] at happend
  have hfirst : first true '\\' (y :: (ds ++ w) ++ (t ++ u)) =
      .ok ⟨.char ⟨'\\' :: y :: (ds ++ w), .octal, false⟩, (y :: (ds ++ w)).length⟩ := by
    have hassoc : y :: (ds ++ w) ++ (t ++ u) = y :: (ds ++ (w ++ t ++ u)) := by simp
    rw [hassoc, first_backslash, escape_octal hy (.inr rfl), hrun, escapeText]
    simp [List.take_append, List.take_of_length_le]
  have hsplits := Splits.cons hfirst hrest
  simpa using hsplits

/-- Pieces split into at most as many tokens as there are, and into fewer when one of them takes in
the beginning of the next. -/
theorem exists_splits_pieces {ps : List Text} (hps : ∀ p ∈ ps, IsPiece p) {u : Text}
    (hu : noOctal u) :
    ∃ ks, Splits true ps.flatten u ks true ∧ ks.length ≤ ps.length ∧
      (ks.length = ps.length → absorbs ps = false) := by
  induction hn : ps.length using Nat.strongRecOn generalizing ps with
  | ind n ih =>
    cases ps with
    | nil => exact ⟨[], .nil true u, Nat.zero_le _, fun _ => rfl⟩
    | cons p ps =>
      subst hn
      have hrest : ∀ q ∈ ps, IsPiece q := fun q hq => hps q (List.mem_cons_of_mem _ hq)
      cases hshort : isShortOctal p with
      | true =>
        obtain ⟨y, ds, rfl, hy, hds, hlen⟩ := exists_of_isShortOctal hshort
        obtain ⟨w, hlength, hle, hflatten⟩ := exists_octalRun_eq hrest hu (2 - ds.length)
        have hdrop : (ps.drop w.length).length = ps.length - w.length := List.length_drop
        obtain ⟨ks, hsplits, hks, habsorbs⟩ :=
          ih _ (by rw [hdrop, List.length_cons]; omega)
            (fun q hq => hrest q (List.mem_of_mem_drop hq)) rfl
        refine ⟨.char ⟨'\\' :: y :: (ds ++ w), .octal, false⟩ :: ks, ?_, ?_, fun hfull => ?_⟩
        · rw [List.flatten_cons, hflatten]
          exact splits_shortOctal hy hds (Nat.le_succ_of_le hlen) (by rw [← hflatten, hlength])
            hsplits
        · rw [List.length_cons, List.length_cons]
          omega
        · rw [List.length_cons, List.length_cons] at hfull
          have hzero : w.length = 0 := by omega
          have hpos : 0 < 2 - ds.length := by omega
          have hnone : octalFirst ps = false :=
            octalFirst_eq_false hpos (by rw [← hlength, hzero])
          rw [hzero, List.drop_zero] at habsorbs
          rw [absorbs, hnone, habsorbs (by omega), Bool.and_false, Bool.false_or]
      | false =>
        cases hps p List.mem_cons_self with
        | short h =>
          rw [h] at hshort
          cases hshort
        | @closed x v c h =>
          obtain ⟨ks, hsplits, hks, habsorbs⟩ := ih _ (Nat.lt_succ_self _) hrest rfl
          refine ⟨.char c :: ks, .cons (h _) hsplits, Nat.succ_le_succ hks, fun hfull => ?_⟩
          rw [absorbs, hshort, habsorbs (Nat.succ.inj hfull)]
          rfl

/-! ### The pieces of a class -/

theorem memberText_eq_flatten {m : Node} (hm : (rereadMember m).LexedMember) :
    memberText m = (pieces m).flatten := by
  cases m with
  | char c => simp [memberText, memberPiece, pieces]
  | classRange low high => simp [memberText, memberPiece, rangeText, pieces]
  | _ => cases hm

theorem isShortOctal_text (hc : Lexical true c) (hkind : c.kind = .octal)
    (hlt : c.value.length < 4) : isShortOctal (c.text .inClass) = true := by
  obtain ⟨y, ds, rfl, hy, hds, -⟩ := hc.octal hkind
  have hlen : ds.length ≤ 1 :=
    Nat.le_of_lt_succ (Nat.lt_of_succ_lt_succ (Nat.lt_of_succ_lt_succ hlt))
  have hall : ds.all Numeral.isOctal = true := List.all_eq_true.2 hds
  simp [isShortOctal, PatternChar.text, hy, hall, hlen]

/-- The text of a character that the lexer makes is a piece. -/
theorem isPiece_text (hc : Lexical true (reread true c)) : IsPiece (c.text .inClass) := by
  by_cases hshort : c.kind = .octal ∧ c.value.length < 4
  · have hread : reread true c = c := if_neg (by rw [hshort.1]; exact CharKind.noConfusion)
    rw [hread] at hc
    exact .short (isShortOctal_text hc hshort.1 hshort.2)
  · obtain ⟨x, v, htext, -⟩ := exists_text_eq_cons hc
    have hcons : c.text .inClass = x :: v := by rwa [text_reread] at htext
    rw [hcons]
    refine .closed (c := reread true c) fun u => ?_
    have hsplits := splits_inClass (u := u) hc fun hkind => .inl ?_
    · rw [text_reread, reread_reread, hcons] at hsplits
      exact hsplits.first_of_one
    · have hlen := hc.length_octal_le hkind
      rw [kind_reread] at hkind
      rw [value_reread] at hlen ⊢
      have hnot : ¬c.value.length < 4 := fun h => hshort ⟨hkind, h⟩
      omega

theorem isPiece_of_mem_pieces {m : Node} (hm : (rereadMember m).LexedMember) :
    ∀ p ∈ pieces m, IsPiece p := by
  cases m with
  | char c =>
    intro p hp
    obtain rfl := List.mem_singleton.1 hp
    exact isPiece_text hm
  | classRange low high =>
    have hdash : IsPiece ['-'] := .closed (c := .simple '-') fun _ => rfl
    simp only [pieces, List.forall_mem_cons]
    exact ⟨isPiece_text hm.1, hdash, isPiece_text hm.2.1, fun _ hp => by cases hp⟩
  | _ => cases hm

theorem isPiece_of_mem_spelled {ms : List Node} (hms : ∀ m ∈ ms, m.LexedMember) :
    ∀ p ∈ (spelled ms).flatMap pieces, IsPiece p := by
  induction ms with
  | nil => exact fun _ hp => by cases hp
  | cons m ms ih =>
    intro p hp
    rw [spelled, List.flatMap_cons] at hp
    rcases List.mem_append.1 hp with hp | hp
    · exact isPiece_of_mem_pieces (lexedMember_spelled (hms m List.mem_cons_self) _) p hp
    · exact ih (fun k hk => hms k (List.mem_cons_of_mem _ hk)) p hp

theorem flatMap_memberText {ms : List Node} (hms : ∀ m ∈ ms, m.LexedMember) :
    (spelled ms).flatMap memberText = ((spelled ms).flatMap pieces).flatten := by
  induction ms with
  | nil => rfl
  | cons m ms ih =>
    have hm := lexedMember_spelled (hms m List.mem_cons_self) (digitFirst ms)
    rw [spelled, List.flatMap_cons, List.flatMap_cons, List.flatten_append,
      memberText_eq_flatten hm, ih fun k hk => hms k (List.mem_cons_of_mem _ hk)]

/-- The members as they are spelled have as many pieces as the given ones have tokens. -/
theorem length_pieces_spelled {ms : List Node} (hms : ∀ m ∈ ms, m.LexedMember) :
    ((spelled ms).flatMap pieces).length = (yieldList ms).length := by
  induction ms with
  | nil => rfl
  | cons m ms ih =>
    have hm := hms m List.mem_cons_self
    have hlength : ∀ respells : Bool,
        (pieces (if respells then respellMember m else m)).length = m.yield.length := by
      intro respells
      cases m with
      | char _ | classRange _ _ => cases respells <;> rfl
      | _ => cases hm
    rw [spelled, List.flatMap_cons, List.length_append, hlength,
      ih fun k hk => hms k (List.mem_cons_of_mem _ hk), yieldList, List.length_append]

/-! ### Members that run together -/

theorem absorbs_append (ps : List Text) {qs : List Text} (h : absorbs qs = true) :
    absorbs (ps ++ qs) = true := by
  induction ps with
  | nil => exact h
  | cons p ps ih => rw [List.cons_append, absorbs, ih, Bool.or_true]

/-- An escape for an octal digit is printed as that digit when a digit follows. -/
theorem octalFirst_of_respellsDigit {ms : List Node} (hms : ∀ m ∈ ms, m.LexedMember)
    (h : respellsDigit ms = true) :
    digitFirst ms = false ∧ octalFirst ((spelled ms).flatMap pieces) = true := by
  cases ms with
  | nil => cases h
  | cons m ms =>
    have hm := hms m List.mem_cons_self
    simp only [respellsDigit, Bool.and_eq_true] at h
    obtain ⟨hescaped, hnext⟩ := h
    cases m with
    | char c =>
      simp only [isEscapedDigit, Bool.and_eq_true, beq_iff_eq] at hescaped
      obtain ⟨hkind, hdigit⟩ := hescaped
      obtain ⟨v, -, hpoint, hrespell⟩ := respell_of_octal hm hkind
      obtain ⟨y, ds, rfl, -⟩ := Lexical.octal hm hkind
      have hall : ∀ w < 56, 48 ≤ w →
          ((PatternChar.ofCodePoint w).text .inClass).head?.any Numeral.isOctal = true := by
        decide +kernel
      rw [hpoint] at hdigit
      simp only [Option.any_some, Bool.and_eq_true, decide_eq_true_eq] at hdigit
      have hhead := hall v (Nat.lt_succ_of_le hdigit.2) hdigit.1
      refine ⟨(digitFirst_cons hm).trans rfl, ?_⟩
      rw [spelled, hnext, if_pos rfl, List.flatMap_cons, respellMember, hrespell, pieces,
        octalFirst, List.singleton_append, List.flatten_cons]
      cases htext : (PatternChar.ofCodePoint v).text .inClass with
      | nil =>
        rw [htext] at hhead
        cases hhead
      | cons x t =>
        rw [htext] at hhead
        exact hhead
    | _ => cases hescaped

/-- A member that ends in a short octal escape has that escape as its last piece. -/
theorem exists_shortOctal {m : Node} (hm : m.LexedMember) (h : m.endsShort = true) :
    ∃ ps p, pieces m = ps ++ [p] ∧ isShortOctal p = true := by
  have hchar : ∀ d, Lexical true d → (d.kind == .octal && decide (d.value.length < 4)) = true →
      isShortOctal (d.text .inClass) = true := fun d hd hshort => by
    simp only [Bool.and_eq_true, beq_iff_eq, decide_eq_true_eq] at hshort
    exact isShortOctal_text hd hshort.1 hshort.2
  cases m with
  | char d => exact ⟨[], _, rfl, hchar d hm h⟩
  | classRange low high => exact ⟨[low.text .inClass, ['-']], _, rfl, hchar high hm.2.1 h⟩
  | _ => cases hm

/-- Where members run together a piece of their text takes in the beginning of the next. -/
theorem absorbs_of_runsTogether {ms : List Node} (hms : ∀ m ∈ ms, m.LexedMember)
    (h : runsTogether ms = true) : absorbs ((spelled ms).flatMap pieces) = true := by
  induction ms with
  | nil => cases h
  | cons m ms ih =>
    have hrest : ∀ k ∈ ms, k.LexedMember := fun k hk => hms k (List.mem_cons_of_mem _ hk)
    rw [runsTogether, Bool.or_eq_true, Bool.and_eq_true] at h
    rw [spelled, List.flatMap_cons]
    rcases h with ⟨hshort, hrespells⟩ | hrun
    · obtain ⟨hnext, hoctal⟩ := octalFirst_of_respellsDigit hrest hrespells
      obtain ⟨ps, p, hpieces, hp⟩ := exists_shortOctal (hms m List.mem_cons_self) hshort
      rw [hnext, if_neg Bool.false_ne_true, hpieces, List.append_assoc]
      refine absorbs_append ps ?_
      rw [List.singleton_append, absorbs, hp, hoctal]
      rfl
    · exact absorbs_append _ (ih hrest hrun)

/-! ### Members read back -/

/-- The two denote the same code point, or are the same class escape. -/
def SameChar (c d : PatternChar) : Prop :=
  d.codePoint? = c.codePoint? ∧ (c.codePoint? = none → d.value = c.value ∧ d.kind = c.kind)

/-- The members denote the same: the same character, or ranges with the same ends. -/
inductive SameMember : Node → Node → Prop
  | char {c d : PatternChar} (h : SameChar c d) : SameMember (char c) (char d)
  | classRange {low high low' high' : PatternChar} {x y : Nat} (hlow : low.codePoint? = some x)
      (hhigh : high.codePoint? = some y) (hlow' : low'.codePoint? = some x)
      (hhigh' : high'.codePoint? = some y) :
      SameMember (classRange low high) (classRange low' high')

theorem sameChar_reread (c : PatternChar) : SameChar c (reread true c) :=
  ⟨codePoint?_reread true c, fun _ => ⟨value_reread true c, kind_reread true c⟩⟩

theorem sameChar_respell (hc : Lexical true c) : SameChar c (reread true (respell c)) := by
  refine ⟨(codePoint?_reread true _).trans (codePoint?_respell hc), fun hnone => ?_⟩
  by_cases hkind : c.kind = .octal
  · obtain ⟨v, -, hpoint, -⟩ := respell_of_octal hc hkind
    rw [hpoint] at hnone
    cases hnone
  · rw [respell_of_ne hkind]
    exact (sameChar_reread c).2 hnone

theorem sameMember_spelled {m : Node} (hm : m.LexedMember) (respells : Bool) :
    SameMember m (rereadMember (if respells then respellMember m else m)) := by
  cases m with
  | char c =>
    cases respells with
    | false => exact .char (sameChar_reread c)
    | true => exact .char (sameChar_respell hm)
  | classRange low high =>
    obtain ⟨-, hhigh, x, y, hx, hy, -⟩ := hm
    cases respells with
    | false => exact .classRange hx hy (by simpa using hx) (by simpa using hy)
    | true =>
      exact .classRange hx hy (by simpa using hx) (by simpa [codePoint?_respell hhigh] using hy)
  | _ => cases hm

theorem forall₂_sameMember {ms : List Node} (hms : ∀ m ∈ ms, m.LexedMember) :
    List.Forall₂ SameMember ms ((spelled ms).map rereadMember) := by
  induction ms with
  | nil => exact .nil
  | cons m ms ih =>
    exact .cons (sameMember_spelled (hms m List.mem_cons_self) (digitFirst ms))
      (ih fun k hk => hms k (List.mem_cons_of_mem _ hk))

/-- Members that denote the same have as many tokens. -/
theorem length_yieldList_of_sameMember {ms ms' : List Node} (h : List.Forall₂ SameMember ms ms') :
    (yieldList ms').length = (yieldList ms).length := by
  induction h with
  | nil => rfl
  | @cons m m' ms ms' hm _ ih =>
    have hyield : m'.yield.length = m.yield.length := by cases hm <;> rfl
    rw [yieldList, yieldList, List.length_append, List.length_append, hyield, ih]

/-! ### Classes read back -/

theorem wellFormed_charClass {ms : List Node} (hms : ∀ m ∈ ms, m.LexedMember)
    (hreads : classReads ms = true) (negated : Bool) : (charClass negated ms).WellFormed := by
  have hcaptures : (charClass negated ms).captures = [] := by
    rw [captures, capturesList_eq, List.flatMap_eq_nil_iff]
    intro m hm
    cases m with
    | char _ | classRange _ _ => rfl
    | _ => cases hms _ hm
  have hreferences : (charClass negated ms).references = [] := by
    rw [references, Parser.referencesList_eq, List.flatMap_eq_nil_iff]
    intro m hm
    cases m with
    | char _ | classRange _ _ => rfl
    | _ => cases hms _ hm
  have hdepth : (charClass negated ms).groupDepth ≤ 0 := by
    rw [groupDepth, groupDepthList_le]
    intro m hm
    cases m with
    | char _ | classRange _ _ => exact Nat.le_refl _
    | _ => cases hms _ hm
  exact {
    shape := hreads
    depth := Nat.le_trans hdepth (Nat.zero_le _)
    numbers := by rw [hcaptures]; rfl
    names := by rw [hcaptures]; exact List.nodup_nil
    resolved := by
      rw [hreferences]
      exact fun _ hr => by cases hr }

theorem render_charClass {ms : List Node} (hms : ∀ m ∈ ms, m.LexedMember) (negated : Bool) :
    (charClass negated ms).render = .ok (charClass negated ms).text := by
  have hbounds : badBoundsList? ms = none := by
    induction ms with
    | nil => rfl
    | cons m ms ih =>
      have hm := hms m List.mem_cons_self
      rw [badBoundsList?, ih fun k hk => hms k (List.mem_cons_of_mem _ hk)]
      cases m with
      | char _ | classRange _ _ => rfl
      | _ => cases hm
  rw [render, badBounds?, hbounds]
  rfl

/-- A class whose members do not run together is read back in the spelling it is printed in. -/
theorem parseBody_charClass {ms : List Node} (hms : ∀ m ∈ ms, m.LexedMember)
    (hrun : runsTogether ms = false) (negated : Bool) (flags : Flags) :
    Source.parseBody (charClass negated ms).text flags =
      .ok (.regExp (charClass negated ((spelled ms).map rereadMember)) flags) := by
  have hlexed : ∀ m ∈ (spelled ms).map rereadMember, m.LexedMember := lexedMember_of_mem hms
  obtain ⟨ts, hlex, hkinds⟩ := tokenize_of_splits (splits_charClass_spelled hms hrun negated [])
  exact Parser.parseBody_eq_ok.2 ⟨ts, _, hlex,
    Parser.parseTokens_of_wellFormed
      (wellFormed_charClass hlexed (classReads_spelled hms) negated) hkinds, rfl⟩

/-- Where members run together the text of the class has too few tokens for its members. -/
theorem length_yieldList_lt {ms ms' : List Node} (hms : ∀ m ∈ ms, m.LexedMember)
    (hrun : runsTogether ms = true) {negated : Bool} {flags : Flags}
    (hparse : Source.parseBody (charClass negated ms).text flags =
      .ok (.regExp (charClass negated ms') flags)) :
    (yieldList ms').length < (yieldList ms).length := by
  obtain ⟨ks, hsplits, hle, habsorbs⟩ :=
    exists_splits_pieces (isPiece_of_mem_spelled hms) (noOctal_closingBracket [])
  have hlt : ks.length < (yieldList ms).length := by
    rw [length_pieces_spelled hms] at hle habsorbs
    refine Nat.lt_of_le_of_ne hle fun heq => ?_
    have hnot := habsorbs heq
    rw [absorbs_of_runsTogether hms hrun] at hnot
    cases hnot
  rw [← flatMap_memberText hms] at hsplits
  obtain ⟨ts, hlex, hkinds⟩ := tokenize_of_splits (splits_brackets hms negated hsplits)
  obtain ⟨us, t, hlex', htree, heq⟩ := Parser.parseBody_eq_ok.1 hparse
  rw [hlex] at hlex'
  cases hlex'
  cases heq
  have hplain := (Token.produced_of_tokenize hlex).plainDashes
  obtain ⟨-, hyield⟩ := (Parser.parseTokens_eq_ok_iff hplain).1 htree
  rw [hkinds, yield] at hyield
  have hmembers : yieldList ms' = ks :=
    List.append_cancel_right (List.cons.inj hyield).2
  rwa [hmembers]

/-- The text of a class is read as one class, negated alike, of as many members in the same order,
each denoting the same as the member that was printed, exactly when no octal escape of fewer than
three digits stands before an octal escape for an octal digit that a digit follows. -/
theorem class_reads_back_iff {ms : List Node} (hms : ∀ m ∈ ms, m.LexedMember) (negated : Bool)
    (flags : Flags) :
    (∃ t ms', (charClass negated ms).render = .ok t ∧
      Source.parseBody t flags = .ok (.regExp (charClass negated ms') flags) ∧
      List.Forall₂ SameMember ms ms') ↔ runsTogether ms = false := by
  constructor
  · rintro ⟨t, ms', hrender, hparse, hsame⟩
    obtain rfl : (charClass negated ms).text = t := by
      rw [render_charClass hms] at hrender
      exact Except.ok.inj hrender
    by_contra hrun
    have hlt := length_yieldList_lt hms (by simpa using hrun) hparse
    rw [length_yieldList_of_sameMember hsame] at hlt
    exact Nat.lt_irrefl _ hlt
  · intro hrun
    exact ⟨_, _, render_charClass hms negated, parseBody_charClass hms hrun negated flags,
      forall₂_sameMember hms⟩

/-- The class of `\0`, `2` to `5`, `\7` and `x` is printed with its first escape respelled, and is
read back. -/
theorem class_reads_back_before_range :
    (∀ m ∈ [char ⟨['\\', '0'], .octal, false⟩, classRange (.simple '2') (.simple '5'),
      char ⟨['\\', '7'], .octal, false⟩, char (.simple 'x')], m.LexedMember) ∧
    ∃ t ms', (charClass false [char ⟨['\\', '0'], .octal, false⟩,
        classRange (.simple '2') (.simple '5'), char ⟨['\\', '7'], .octal, false⟩,
        char (.simple 'x')]).render = .ok t ∧
      Source.parseBody t {} = .ok (.regExp (charClass false ms') {}) ∧
      List.Forall₂ SameMember [char ⟨['\\', '0'], .octal, false⟩,
        classRange (.simple '2') (.simple '5'), char ⟨['\\', '7'], .octal, false⟩,
        char (.simple 'x')] ms' := by
  have hms : ∀ m ∈ [char ⟨['\\', '0'], .octal, false⟩, classRange (.simple '2') (.simple '5'),
      char ⟨['\\', '7'], .octal, false⟩, char (.simple 'x')], m.LexedMember := by
    have hrange : (classRange (.simple '2') (.simple '5')).LexedMember :=
      ⟨⟨'2', [], 0, rfl⟩, ⟨'5', [], 0, rfl⟩, _, _, rfl, rfl, by decide⟩
    simp only [List.forall_mem_cons]
    exact ⟨⟨'\\', ['0'], 1, rfl⟩, hrange, ⟨'\\', ['7'], 1, rfl⟩, ⟨'x', [], 0, rfl⟩,
      fun _ hm => by cases hm⟩
  exact ⟨hms, (class_reads_back_iff hms false {}).2 (by decide +kernel)⟩

/-- The class of `\1`, `\60` and `8` is printed as `[\108]`, a class of two members. -/
theorem class_of_escaped_digit_runs_together :
    (∀ m ∈ [char ⟨['\\', '1'], .octal, false⟩, char ⟨['\\', '6', '0'], .octal, false⟩,
      char (.simple '8')], m.LexedMember) ∧
    (charClass false [char ⟨['\\', '1'], .octal, false⟩, char ⟨['\\', '6', '0'], .octal, false⟩,
      char (.simple '8')]).render = .ok ['[', '\\', '1', '0', '8', ']'] ∧
    Source.parseBody ['[', '\\', '1', '0', '8', ']'] {} =
      .ok (.regExp (charClass false [char ⟨['\\', '1', '0'], .octal, false⟩, char (.simple '8')])
        {}) := by
  refine ⟨?_, by decide +kernel, by decide +kernel⟩
  simp only [List.forall_mem_cons]
  exact ⟨⟨'\\', ['1'], 1, rfl⟩, ⟨'\\', ['6', '0'], 2, rfl⟩, ⟨'8', [], 0, rfl⟩,
    fun _ hm => by cases hm⟩

end RegexKit.Node
