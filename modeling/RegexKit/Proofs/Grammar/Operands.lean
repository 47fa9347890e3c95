import RegexKit.Proofs.Grammar.Blame
import Mathlib.Data.List.Infix

/-! A quantifier after a lookbehind. The tokens of a tree are balanced, so in front of a quantifier
the closing parenthesis of a group leads back to the opening one; and the reader, which has the
same group open there, lets no quantifier follow when that group is a lookbehind. -/

namespace RegexKit.Parser

open RegexKit.Node
open RegexKit.Token (Produced)

/-! ### Trees are balanced -/

theorem balanced_yieldList {ns : List Node} (h : ∀ n ∈ ns, Balanced n.yield) :
    Balanced (yieldList ns) := by
  induction ns with
  | nil => exact .nil
  | cons n ns ih =>
    rw [yieldList]
    exact (h n List.mem_cons_self).append (ih fun k hk => h k (List.mem_cons_of_mem _ hk))

theorem balanced_yieldMore {ns : List Node} (h : ∀ n ∈ ns, Balanced n.yield) :
    Balanced (yieldMore ns) := by
  induction ns with
  | nil => exact .nil
  | cons n ns ih =>
    rw [yieldMore, List.cons_append, ← List.singleton_append]
    have hrest := (h n List.mem_cons_self).append
      (ih fun k hk => h k (List.mem_cons_of_mem _ hk))
    exact (Balanced.single rfl rfl).append hrest

/-- The tokens of a tree close the groups that they open. -/
theorem balanced_yield (n : Node) : Balanced n.yield := by
  induction n with
  | regExp _ _ ih => exact ih
  | alternative es ih => exact balanced_yieldList ih
  | disjunction bs ih =>
    cases bs with
    | nil => exact .nil
    | cons b bs =>
      rw [yield, yieldBranches]
      exact (ih b List.mem_cons_self).append
        (balanced_yieldMore fun k hk => ih k (List.mem_cons_of_mem _ hk))
  | group kind e ih => exact ih.group kind.opener
  | charClass negated ms ih =>
    rw [yield, List.cons_append, ← List.singleton_append]
    exact (Balanced.single rfl rfl).append
      ((balanced_yieldList ih).append (.single rfl rfl))
  | repetition e min max greedy ih =>
    rw [yield]
    exact ih.append (.single rfl rfl)
  | classRange low high =>
    have hchar : ∀ c, Balanced [.char c] := fun c => .single rfl rfl
    exact (hchar low).append ((hchar _).append (hchar high))
  | backreference _ _ | assertion _ | char _ => exact .single rfl rfl

/-! ### The group that a closing parenthesis ends -/

variable {before before' after after' : List TokenKind} {how how' : GroupOpen}

/-- Balanced tokens leave nothing open behind them, so no opening in them has only balanced tokens
after it. -/
theorem Balanced.not_opening (h : Balanced (before ++ .groupOpen how :: after)) :
    ¬Balanced after := by
  intro hafter
  have hwithin := h.within before.length
  have hall := h.all
  have hcount := hafter.all
  rw [List.take_left] at hwithin
  rw [closed_append, opened_append, closed_groupOpen, opened_groupOpen] at hall
  omega

/-- The last opening that only balanced tokens follow is the same however the tokens are divided. -/
theorem opening_unique (hafter : Balanced after) (hafter' : Balanced after')
    (h : before ++ .groupOpen how :: after = before' ++ .groupOpen how' :: after') :
    how = how' := by
  rcases List.append_eq_append_iff.1 h with ⟨gap, hbefore, hrest⟩ | ⟨gap, hbefore, hrest⟩
  · cases gap with
    | nil =>
      injection hrest with hhow
      injection hhow
    | cons k gap =>
      injection hrest with _ hinside
      rw [hinside] at hafter
      exact absurd hafter' hafter.not_opening
  · cases gap with
    | nil =>
      injection hrest with hhow
      injection hhow with hhow
      exact hhow.symm
    | cons k gap =>
      injection hrest with _ hinside
      rw [hinside] at hafter'
      exact absurd hafter hafter'.not_opening

variable {s : State} {ts : List Token}

/-- After an opening and balanced tokens, the innermost open group is the one of that opening. -/
theorem State.Records.innermost {f : Frame} {fs : List Frame} (hs : s.Records ts)
    (hts : ts.map Token.kind = before ++ .groupOpen how :: after) (hafter : Balanced after)
    (hframes : s.frames = f :: fs) : f.kind.opener = how := by
  have hopened := hs.frames
  rw [hframes] at hopened
  obtain ⟨taken, t, rest, rfl, -, hkind, -, hrest⟩ := hopened
  rw [List.map_append, List.map_cons, hkind] at hts
  exact opening_unique hrest hafter hts

/-! ### Quantifiers after lookbehinds -/

/-- Somewhere among the tokens a quantifier follows the end of a lookbehind. -/
def RepeatsLookbehind (ks : List TokenKind) : Prop :=
  ∃ (how : GroupOpen) (inner : List TokenKind) (min : Nat) (max : Option Nat) (greedy : Bool),
    how.isLookbehind = true ∧ Balanced inner ∧
      .groupOpen how :: inner ++ [.groupClose, .quantifier min max greedy] <:+: ks

theorem RepeatsLookbehind.mono {ks ls : List TokenKind} (h : RepeatsLookbehind ks)
    (hls : ks <:+: ls) : RepeatsLookbehind ls := by
  obtain ⟨how, inner, min, max, greedy, hhow, hinner, hinfix⟩ := h
  exact ⟨how, inner, min, max, greedy, hhow, hinner, hinfix.trans hls⟩

/-- What runs to the end runs through every part of the tokens. -/
theorem exists_run_of_append {s s' : State} {ts us : List Token}
    (h : run s (ts ++ us) = .ok s') : ∃ s₁, run s ts = .ok s₁ ∧ run s₁ us = .ok s' := by
  rw [run_append] at h
  cases hrun : run s ts with
  | error e =>
    rw [hrun] at h
    cases h
  | ok s₁ =>
    rw [hrun] at h
    exact ⟨s₁, rfl, h⟩

/-- What runs to the end takes the first token. -/
theorem exists_step_of_cons {s s' : State} {t : Token} {ts : List Token}
    (h : run s (t :: ts) = .ok s') : ∃ s₁, step s t = .ok s₁ ∧ run s₁ ts = .ok s' := by
  rw [run] at h
  split at h
  · cases h
  · rename_i s₁ hstep
    exact ⟨s₁, hstep, h⟩

/-- At the end of a lookbehind stands nothing that can be repeated. -/
theorem not_repeatable_of_lookbehind {s' : State} {t : Token} (hs : s.Records ts)
    (hts : ts.map Token.kind = before ++ .groupOpen how :: after) (hafter : Balanced after)
    (hhow : how.isLookbehind = true) (ht : t.kind = .groupClose) (h : step s t = .ok s') :
    s'.openClass = none ∧ s'.level.repeatable = false := by
  unfold step at h
  cases hclass : s.openClass with
  | some k =>
    simp only [hclass, ht] at h
    cases h
  | none =>
    simp only [hclass, ht, State.closeGroup] at h
    split at h
    · cases h
    · rename_i f fs hframes
      cases h
      have hkind : f.kind.isLookbehind = true := by
        rw [← GroupKind.isLookbehind_opener, hs.innermost hts hafter hframes, hhow]
      exact ⟨rfl, by simp [Level.push, hkind]⟩

/-- A quantifier is taken only where something can be repeated. -/
theorem repeatable_of_quantifier {s' : State} {t : Token} {min : Nat} {max : Option Nat}
    {greedy : Bool} (hclass : s.openClass = none) (ht : t.kind = .quantifier min max greedy)
    (h : step s t = .ok s') : s.level.repeatable = true := by
  simp only [step, hclass, ht] at h
  obtain ⟨s₀, n, rfl, -⟩ := quantify_eq_ok h
  rfl

/-- Tokens in which a quantifier follows a lookbehind have no tree. -/
theorem parseTokens_repeatsLookbehind (hp : Produced false (ts.map Token.kind))
    (h : RepeatsLookbehind (ts.map Token.kind)) (n : Node) : parseTokens ts ≠ .ok n := by
  obtain ⟨how, inner, min, max, greedy, hhow, hinner, before, after, hks⟩ := h
  intro hparse
  have hsplit : ts.map Token.kind = (before ++ .groupOpen how :: inner) ++
      .groupClose :: .quantifier min max greedy :: after := by
    rw [← hks]
    simp
  obtain ⟨lead, rest, rfl, hlead, hrest⟩ := List.map_eq_append_iff.1 hsplit
  obtain ⟨t, rest, rfl, ht, hrest⟩ := List.map_eq_cons_iff.1 hrest
  obtain ⟨u, rest, rfl, hu, -⟩ := List.map_eq_cons_iff.1 hrest
  rw [List.map_append] at hp
  -- the states before the parenthesis, between it and the quantifier, and after both
  have hrun : ∃ s, run {} (lead ++ t :: u :: rest) = .ok s := by
    unfold parseTokens at hparse
    cases hrun : run {} (lead ++ t :: u :: rest) with
    | error e =>
      rw [hrun] at hparse
      cases hparse
    | ok s => exact ⟨s, rfl⟩
  obtain ⟨s, hrun⟩ := hrun
  obtain ⟨s₁, hrun₁, hrun⟩ := exists_run_of_append hrun
  obtain ⟨s₂, hstep₂, hrun⟩ := exists_step_of_cons hrun
  obtain ⟨s₃, hstep₃, -⟩ := exists_step_of_cons hrun
  have hrecords := run_records records_init hp.left hrun₁
  rw [List.nil_append] at hrecords
  obtain ⟨hclass, hnot⟩ := not_repeatable_of_lookbehind hrecords hlead hinner hhow ht hstep₂
  rw [repeatable_of_quantifier hclass hu hstep₃] at hnot
  cases hnot

end RegexKit.Parser
