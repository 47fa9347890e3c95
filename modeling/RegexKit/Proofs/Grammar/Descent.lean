import RegexKit.Node.Descent
import RegexKit.Proofs.Grammar.Blame

/-! Recursive descent against the reader that takes one token at a time. What is left to a function
of the descent is left to the reader in the state in which everything before has been pushed, so
both give the same tree and the same errors. -/

namespace RegexKit.Descent

open RegexKit.Parser

variable {α β : Type} {n m : Nat}

/-! ### What readings satisfy -/

/-- The refusal or the reading has a property. -/
def Reads.Sat (E : Refusal → Prop) (P : α → List Token → Notes → Prop) : Reads α n → Prop
  | .error e => E e
  | .ok r => P r.value r.rest r.notes

namespace Reads

variable {E : Refusal → Prop} {P : α → List Token → Notes → Prop}
  {Q : β → List Token → Notes → Prop}

theorem sat_within {x : Reads α m} {h : m ≤ n} : (x.within h).Sat E P ↔ x.Sat E P := by
  cases x <;> exact Iff.rfl

theorem sat_stay {a : α} {ts : List Token} {ν : Notes} : (stay a ts ν).Sat E P ↔ P a ts ν := Iff.rfl

theorem Sat.andThen {x : Reads α n} {f : (r : Reading α n) → Reads β r.rest.length}
    (hx : x.Sat E P) (hf : ∀ r, P r.value r.rest r.notes → (f r).Sat E Q) :
    (x.andThen f).Sat E Q := by
  cases x with
  | error e => exact hx
  | ok r => exact (sat_within (h := r.length_le)).2 (hf r hx)

theorem Sat.imp {P' : α → List Token → Notes → Prop} {x : Reads α n} (hx : x.Sat E P)
    (h : ∀ a ts ν, P a ts ν → P' a ts ν) : x.Sat E P' := by
  cases x with
  | error e => exact hx
  | ok r => exact h _ _ _ hx

theorem Sat.and {P' : α → List Token → Notes → Prop} {x : Reads α n} (hx : x.Sat E P)
    (hx' : x.Sat (fun _ => True) P') : x.Sat E fun a ts ν => P a ts ν ∧ P' a ts ν := by
  cases x with
  | error e => exact hx
  | ok r => exact ⟨hx, hx'⟩

end Reads

open Descent.Reads

/-! ### Where readings end -/

/-- The next token, if there is one, is of such a kind. -/
def Next (p : TokenKind → Prop) (ts : List Token) : Prop := ∀ t ∈ ts.head?, p t.kind

theorem Next.nil {p : TokenKind → Prop} : Next p [] := fun _ h => by cases h

theorem Next.cons {p : TokenKind → Prop} {t : Token} {ts : List Token} (h : p t.kind) :
    Next p (t :: ts) := by
  intro u hu
  cases hu
  exact h

/-- A branch is left at a bar, a closing parenthesis or the end. -/
theorem alternative_next (group : GroupReader) (done : List Node) (ts : List Token) (ν : Notes) :
    (alternative group done ts ν).Sat (fun _ => True)
      fun _ rest _ => Next (fun k => k = .bar ∨ k = .groupClose) rest := by
  induction done, ts, ν using alternative.induct with
  | case1 done ν =>
    rw [alternative]
    exact sat_stay.2 .nil
  | case2 done ν t ts hends =>
    rw [alternative, if_pos hends]
    exact sat_stay.2 (.cons hends)
  | case3 done ν t ts hends ih =>
    rw [alternative, if_neg hends, sat_within]
    refine Sat.andThen (P := fun _ _ _ => True) ?_ fun r _ => ih r
    cases term group t ts ν <;> exact trivial

/-- A choice is left at a closing parenthesis or at the end. -/
theorem disjunction_next (group : GroupReader) (done : List Node) (ts : List Token) (ν : Notes) :
    (disjunction group done ts ν).Sat (fun _ => True)
      fun _ rest _ => Next (· = .groupClose) rest := by
  induction done, ts, ν using disjunction.induct with
  | case1 done ts ν ih =>
    rw [disjunction]
    refine (alternative_next group [] ts ν).andThen fun r hr => ?_
    obtain ⟨n, rest, ν, hle⟩ := r
    cases rest with
    | nil => exact sat_stay.2 .nil
    | cons t us =>
      dsimp only
      split
      · exact sat_within.2 (ih ⟨n, t :: us, ν, hle⟩ t us rfl)
      · rename_i hbar
        exact sat_stay.2 (.cons ((hr t rfl).resolve_left hbar))

/-! ### Tokens that are left to the reader -/

/-- The answer of the reader when these tokens are left to it in a state. -/
def answer (s : State) (ts : List Token) : Except ParseError Node := (run s ts).bind State.finish

theorem answer_of_step {s s' : State} {t : Token} {ts : List Token} (h : step s t = .ok s') :
    answer s (t :: ts) = answer s' ts := by
  rw [answer, run, h]
  rfl

theorem answer_of_refused {s : State} {t : Token} {ts : List Token} {e : ParseError}
    (h : step s t = .error e) : answer s (t :: ts) = .error e := by
  rw [answer, run, h]
  rfl

/-- The state of the reader between two items. -/
def standing (fs : List Frame) (l : Level) (ν : Notes) : State where
  level := l
  frames := fs
  captures := ν.captures
  names := ν.names
  references := ν.references

/-- The state of the reader in a class. -/
def inClass (fs : List Frame) (l : Level) (ν : Notes) (k : OpenClass) : State :=
  { standing fs l ν with openClass := some k }

/-- The refusal is the error of the reader, and a group that is not closed has met the end. -/
structure Refused (result : Except ParseError Node) (e : Refusal) : Prop where
  eq : result = .error e.error
  found : e.error.cause = .unterminatedGroup → e = .unclosedGroup e.error.offset endOfInput

theorem Refused.fault {result : Except ParseError Node} {cause : ParseCause} {offset : Nat}
    (h : result = .error ⟨cause, offset⟩) (hcause : cause ≠ .unterminatedGroup) :
    Refused result (.fault ⟨cause, offset⟩) := ⟨h, fun he => absurd he hcause⟩

variable {fs : List Frame} {l : Level} {ν : Notes} {ts : List Token} {t : Token}
  {result : Except ParseError Node}

/-! ### Classes -/

theorem rangeEnd?_eq_some {low high : PatternChar} {x y : Nat}
    (h : rangeEnd? low ts = some (high, x, y)) :
    ∃ t u rest d, ts = t :: u :: rest ∧ t.kind = .char d ∧ d.isDash = true ∧
      u.kind = .char high ∧ low.codePoint? = some x ∧ high.codePoint? = some y := by
  unfold rangeEnd? at h
  split at h
  · rename_i t u rest
    split at h
    · rename_i ht hu hx
      split at h
      · obtain ⟨z, hz, heq⟩ := Option.map_eq_some_iff.1 h
        cases heq
        exact ⟨t, u, rest, _, rfl, ht, ‹_›, hu, hx, hz⟩
      · cases h
    · cases h
  · cases h

theorem rangeEnd?_eq_none {low d high : PatternChar} {u : Token} {rest : List Token}
    (h : rangeEnd? low (t :: u :: rest) = none) (ht : t.kind = .char d) (hd : d.isDash = true)
    (hu : u.kind = .char high) : low.codePoint? = none ∨ high.codePoint? = none := by
  cases hx : low.codePoint? with
  | none => exact .inl rfl
  | some x =>
    simp only [rangeEnd?, ht, hu, hx, hd, if_true, Option.map_eq_none_iff] at h
    exact .inr h

theorem step_inClass_char {k : OpenClass} {c : PatternChar} (ht : t.kind = .char c) :
    step (inClass fs l ν k) t = (k.add c t.offset).map (inClass fs l ν) := by
  rw [step]
  simp only [inClass, ht]
  rfl

variable {negated : Bool} {start : Nat} {done : List Node}

/-- A character where a member may begin. -/
theorem step_inClass_first {c : PatternChar} (ht : t.kind = .char c) :
    step (inClass fs l ν ⟨negated, start, done, .nothing⟩) t =
      .ok (inClass fs l ν ⟨negated, start, done, .first c t.offset⟩) := by
  rw [step_inClass_char ht]
  rfl

/-- A dash after a character that may begin a range. -/
theorem step_inClass_dash {low d : PatternChar} {offset : Nat}
    (ht : t.kind = .char d) (hd : d.isDash = true) :
    step (inClass fs l ν ⟨negated, start, done, .first low offset⟩) t =
      .ok (inClass fs l ν ⟨negated, start, done, .dashed low offset d t.offset⟩) := by
  rw [step_inClass_char ht]
  simp only [OpenClass.add, OpenClass.follow, hd, if_true]
  rfl

/-- A class in the reader with a character that begins a range. -/
theorem answer_range {low high : PatternChar} {offset x y : Nat}
    (h : rangeEnd? low ts = some (high, x, y)) :
    answer (inClass fs l ν ⟨negated, start, done, .first low offset⟩) ts =
      if x ≤ y then
        answer (inClass fs l ν ⟨negated, start, .classRange low high :: done, .nothing⟩) (ts.drop 2)
      else .error ⟨.rangeOutOfOrder low.value high.value, offset⟩ := by
  obtain ⟨t, u, rest, d, rfl, ht, hd, hu, hx, hy⟩ := rangeEnd?_eq_some h
  rw [answer_of_step (step_inClass_dash ht hd)]
  split
  · refine answer_of_step ?_
    rw [step_inClass_char hu]
    simp only [OpenClass.add, hx, hy, ‹x ≤ y›, if_true]
    rfl
  · refine answer_of_refused ?_
    rw [step_inClass_char hu]
    simp only [OpenClass.add, hx, hy, ‹¬x ≤ y›, if_false]
    rfl

theorem answer_congr {s s' : State} (h : step s t = step s' t) :
    answer s (t :: ts) = answer s' (t :: ts) := by
  rw [answer, answer, run, run, h]

/-- A character that begins no range is a member. -/
theorem answer_literal {low : PatternChar} {offset : Nat}
    (h : rangeEnd? low ts = none) :
    answer (inClass fs l ν ⟨negated, start, done, .first low offset⟩) ts =
      answer (inClass fs l ν ⟨negated, start, .char low :: done, .nothing⟩) ts := by
  cases ts with
  | nil => rfl
  | cons t ts =>
    cases ht : t.kind with
    | char d =>
      cases hd : d.isDash with
      | false =>
        refine answer_congr ?_
        rw [step_inClass_char ht, step_inClass_char ht]
        simp only [OpenClass.add, OpenClass.follow, hd]
        rfl
      | true =>
        rw [answer_of_step (step_inClass_dash ht hd), answer_of_step (step_inClass_first ht)]
        -- the dash is a member as well, unless it begins a range itself
        cases ts with
        | nil => rfl
        | cons u rest =>
          refine answer_congr ?_
          cases hu : u.kind with
          | char high =>
            rw [step_inClass_char hu, step_inClass_char hu]
            rcases rangeEnd?_eq_none h ht hd hu with hnone | hnone
            · simp only [OpenClass.add, hnone, OpenClass.follow, OpenClass.begin]
            · cases hlow : low.codePoint? <;>
                simp only [OpenClass.add, hlow, hnone, OpenClass.follow, OpenClass.begin]
          | _ => simp [step, inClass, standing, hu, OpenClass.close]
    | _ =>
      refine answer_congr ?_
      simp [step, inClass, standing, ht, OpenClass.close]

/-- The members of a class are those that the reader collects. -/
theorem members_sat (h : result = answer (inClass fs l ν ⟨negated, start, done, .nothing⟩) ts) :
    (members start done ts ν).Sat (Refused result) fun ms rest ν' =>
      result = answer (standing fs (l.push (.charClass negated ms) true) ν') rest := by
  fun_induction members start done ts ν with
  | case1 done => exact .fault h (by simp)
  | case2 done t ts hkind =>
    refine sat_within.2 (sat_stay.2 ?_)
    rw [h]
    refine answer_of_step ?_
    simp [step, inClass, standing, hkind, OpenClass.close, State.push]
  | case3 done t ts low hkind high x y hrange hle ih =>
    refine sat_within.2 (ih ?_)
    rw [h, answer_of_step (step_inClass_first hkind), answer_range hrange, if_pos hle]
  | case4 done t ts low hkind high x y hrange hle =>
    refine .fault ?_ (by simp)
    rw [h, answer_of_step (step_inClass_first hkind), answer_range hrange, if_neg hle]
  | case5 done t ts low hkind hrange ih =>
    refine sat_within.2 (ih ?_)
    rw [h, answer_of_step (step_inClass_first hkind), answer_literal hrange]
  | case6 done t ts hclose hchar =>
    refine .fault (h.trans (answer_of_refused ?_)) (by simp)
    cases hkind : t.kind with
    | classClose => exact absurd hkind hclose
    | char c => exact absurd hkind (hchar c)
    | _ => simp [step, inClass, hkind]

/-! ### Items -/

/-- A reader of groups does what the reader of tokens does from an opening on, where so many more
groups may be open. -/
def Follows (inner : GroupReader) (room : Nat) : Prop :=
  ∀ ⦃result fs l ν t ts how⦄, t.kind = .groupOpen how → fs.length + room = maxDepth →
    result = answer (standing fs l ν) (t :: ts) →
    (inner how t.offset ts ν).Sat (Refused result) fun g rest ν' =>
      result = answer (standing fs (l.push (.group g.1 g.2) (!g.1.isLookbehind)) ν') rest

variable {inner : GroupReader} {room : Nat}

/-- An item is what the reader pushes. A quantifier has none to repeat where a branch begins. -/
theorem atom_sat (hinner : Follows inner room) (hroom : fs.length + room = maxDepth)
    (hends : ¬(t.kind = .bar ∨ t.kind = .groupClose))
    (hitems : t.kind.isQuantifier = true → l.items = [])
    (h : result = answer (standing fs l ν) (t :: ts)) :
    (atom inner t ts ν).Sat (Refused result) fun a rest ν' =>
      result = answer (standing fs (l.push a.1 a.2) ν') rest := by
  rw [atom]
  cases hkind : t.kind with
  | char c | assertion kind | backreference target =>
    refine sat_stay.2 (h.trans (answer_of_step ?_))
    simp [step, standing, hkind, State.push]
  | classOpen negated =>
    have hopen : step (standing fs l ν) t =
        .ok (inClass fs l ν ⟨negated, t.offset, [], .nothing⟩) := by
      simp [step, standing, inClass, hkind]
    exact (members_sat (h.trans (answer_of_step hopen))).andThen fun r hr => sat_stay.2 hr
  | groupOpen how => exact (hinner hkind hroom h).andThen fun r hr => sat_stay.2 hr
  | quantifier min max greedy =>
    have hnone := hitems (by rw [hkind]; rfl)
    refine .fault (h.trans (answer_of_refused ?_)) (by simp)
    simp [step, standing, hkind, State.quantify, hnone]
  | classClose =>
    refine .fault (h.trans (answer_of_refused ?_)) (by simp)
    simp [step, standing, hkind]
  | bar => exact absurd (.inl hkind) hends
  | groupClose => exact absurd (.inr hkind) hends

/-- The reader at a quantifier of an item that may be repeated. -/
theorem step_quantifier {n : Node} {min : Nat} {max : Option Nat} {greedy : Bool}
    (ht : t.kind = .quantifier min max greedy) :
    step (standing fs (l.push n true) ν) t =
      match max.filter (· < min) with
      | some x => .error ⟨.repetitionOutOfOrder min x, t.offset⟩
      | none => .ok (standing fs (l.push (.repetition n min max greedy) false) ν) := by
  cases max with
  | none => simp [step, standing, ht, State.quantify, Level.push]
  | some x =>
    by_cases hlt : x < min <;>
      simp [step, standing, ht, State.quantify, Level.push, Option.filter, hlt]

/-- The reader at a quantifier of an item that may not be repeated. -/
theorem answer_nothingToRepeat {n : Node} (ht : t.kind.isQuantifier = true) :
    answer (standing fs (l.push n false) ν) (t :: ts) = .error ⟨.nothingToRepeat, t.offset⟩ := by
  refine answer_of_refused ?_
  cases hkind : t.kind with
  | quantifier min max greedy => simp [step, standing, hkind, State.quantify, Level.push]
  | _ =>
    rw [hkind] at ht
    cases ht

/-- An item with its quantifier is an item that no quantifier follows. -/
theorem repeated_sat {n : Node} {b : Bool} (h : result = answer (standing fs (l.push n b) ν) ts) :
    (repeated n b ts ν).Sat (Refused result) fun m rest ν' =>
      (∃ b', result = answer (standing fs (l.push m b') ν') rest) ∧
        Next (fun k => k.isQuantifier = false) rest := by
  unfold repeated
  cases ts with
  | nil => exact sat_stay.2 ⟨⟨b, h⟩, .nil⟩
  | cons t ts =>
    dsimp only
    cases hkind : t.kind with
    | quantifier min max greedy =>
      cases b with
      | false => exact .fault (h.trans (answer_nothingToRepeat (by rw [hkind]; rfl))) (by simp)
      | true =>
        have hstep : step (standing fs (l.push n true) ν) t = _ := step_quantifier hkind
        simp only [Bool.not_true, Bool.false_eq_true, if_false]
        cases hmax : max.filter (· < min) with
        | some x =>
          rw [hmax] at hstep
          exact .fault (h.trans (answer_of_refused hstep)) (by simp)
        | none =>
          rw [hmax] at hstep
          have hresult := h.trans (answer_of_step hstep)
          dsimp only
          split
          · rename_i next hnext
            obtain ⟨hhead, hquantifier⟩ := Option.filter_eq_some_iff.1 hnext
            obtain ⟨us, rfl⟩ := List.head?_eq_some_iff.1 hhead
            exact .fault (hresult.trans (answer_nothingToRepeat hquantifier)) (by simp)
          · rename_i hnext
            refine sat_within.2 (sat_stay.2 ⟨⟨false, hresult⟩, fun u hu => ?_⟩)
            exact Bool.eq_false_iff.2 (Option.filter_eq_none_iff.1 hnext u hu)
    | _ => exact sat_stay.2 ⟨⟨b, h⟩, .cons (by rw [hkind]; rfl)⟩

/-- An item with its quantifier, read from where a branch begins or after another item. -/
theorem term_sat (hinner : Follows inner room) (hroom : fs.length + room = maxDepth)
    (hends : ¬(t.kind = .bar ∨ t.kind = .groupClose))
    (hitems : t.kind.isQuantifier = true → l.items = [])
    (h : result = answer (standing fs l ν) (t :: ts)) :
    (term inner t ts ν).Sat (Refused result) fun n rest ν' =>
      (∃ b, result = answer (standing fs (l.push n b) ν') rest) ∧
        Next (fun k => k.isQuantifier = false) rest :=
  (atom_sat hinner hroom hends hitems h).andThen fun _ hr => repeated_sat hr

/-! ### Branches -/

/-- The items of a branch are those that the reader collects. -/
theorem alternative_sat (hinner : Follows inner room) (hroom : fs.length + room = maxDepth)
    {branches done : List Node} {b : Bool}
    (hitems : Next (fun k => k.isQuantifier = true → done = []) ts)
    (h : result = answer (standing fs ⟨branches, done, b⟩ ν) ts) :
    (alternative inner done ts ν).Sat (Refused result) fun n rest ν' =>
      ∃ items b', n = collapse .alternative items.reverse ∧
        result = answer (standing fs ⟨branches, items, b'⟩ ν') rest := by
  induction done, ts, ν using alternative.induct generalizing b with
  | case1 done ν =>
    rw [alternative]
    exact sat_stay.2 ⟨done, b, rfl, h⟩
  | case2 done ν t ts hends =>
    rw [alternative, if_pos hends]
    exact sat_stay.2 ⟨done, b, rfl, h⟩
  | case3 done ν t ts hends ih =>
    rw [alternative, if_neg hends, sat_within]
    refine (term_sat hinner hroom hends (hitems t rfl) h).andThen fun r hr => ?_
    obtain ⟨⟨b', hresult⟩, hnext⟩ := hr
    -- no quantifier follows an item, so only the first of a branch may have nothing to repeat
    refine ih r (fun u hu hquantifier => ?_) hresult
    rw [hnext u hu] at hquantifier
    cases hquantifier

/-- The branches of a choice are those that the reader collects. -/
theorem disjunction_sat (hinner : Follows inner room) (hroom : fs.length + room = maxDepth)
    {done : List Node} (h : result = answer (standing fs ⟨done, [], false⟩ ν) ts) :
    (disjunction inner done ts ν).Sat (Refused result) fun n rest ν' =>
      ∃ l, l.close = n ∧ result = answer (standing fs l ν') rest := by
  induction done, ts, ν using disjunction.induct with
  | case1 done ts ν ih =>
    rw [disjunction]
    refine (alternative_sat hinner hroom (fun _ _ _ => rfl) h).andThen fun r hr => ?_
    obtain ⟨n, rest, ν, hle⟩ := r
    obtain ⟨items, b, rfl, hresult⟩ := hr
    cases rest with
    | nil => exact sat_stay.2 ⟨_, rfl, hresult⟩
    | cons t us =>
      dsimp only
      split
      · rename_i hbar
        refine sat_within.2 (ih ⟨_, t :: us, ν, hle⟩ t us rfl (hresult.trans (answer_of_step ?_)))
        simp only [step, standing, hbar]
        rfl
      · exact sat_stay.2 ⟨_, rfl, hresult⟩

/-! ### Groups -/

/-- A group begins in the same way in both readers. -/
theorem openGroup_eq (how : GroupOpen) (offset : Nat) (hdepth : fs.length < maxDepth) :
    (standing fs l ν).openGroup how offset =
      (ν.begin how offset).map fun g => standing (⟨g.1, offset, l⟩ :: fs) {} g.2 := by
  rw [State.openGroup, if_neg (show ¬maxDepth ≤ (standing fs l ν).frames.length from
    Nat.not_le_of_lt hdepth)]
  cases how with
  | named name =>
    by_cases hknown : (ν.names.lookup name).isSome = true
    · have hbegin : ν.begin (.named name) offset = .error _ := if_pos hknown
      rw [hbegin]
      exact if_pos hknown
    · have hbegin : ν.begin (.named name) offset = .ok _ := if_neg hknown
      rw [hbegin]
      exact if_neg hknown
  | _ => rfl

theorem begin_eq_error {how : GroupOpen} {offset : Nat} {e : ParseError}
    (h : ν.begin how offset = .error e) : ∃ name, e = ⟨.duplicateGroupName name, offset⟩ := by
  cases how with
  | named name =>
    simp only [Notes.begin] at h
    split at h
    · cases h
      exact ⟨name, rfl⟩
    · cases h
  | _ => cases h

/-- Induction on the room: the groups that are open and the room are the limit together, so the
readers refuse a group for its depth at the same place. -/
theorem follows_group (room : Nat) : Follows (group room) room := by
  induction room with
  | zero =>
    intro result fs l ν t ts how hkind hroom h
    refine .fault (h.trans (answer_of_refused ?_)) (by simp)
    simp only [step, standing, hkind]
    exact if_pos (Nat.le_of_eq hroom.symm)
  | succ room ih =>
    intro result fs l ν t ts how hkind hroom h
    have hopen : step (standing fs l ν) t =
        (ν.begin how t.offset).map fun g => standing (⟨g.1, t.offset, l⟩ :: fs) {} g.2 := by
      rw [← openGroup_eq how t.offset (by omega)]
      simp only [step, standing, hkind]
    rw [group]
    cases hbegin : ν.begin how t.offset with
    | error e =>
      rw [hbegin] at hopen
      obtain ⟨name, rfl⟩ := begin_eq_error hbegin
      exact .fault (h.trans (answer_of_refused hopen)) (by simp)
    | ok g =>
      obtain ⟨kind, ν'⟩ := g
      rw [hbegin] at hopen
      have hopened : result = answer (standing (⟨kind, t.offset, l⟩ :: fs) {} ν') ts :=
        h.trans (answer_of_step hopen)
      have hinside := disjunction_sat ih (by rw [List.length_cons]; omega) hopened
      refine (hinside.and (disjunction_next _ _ _ _)).andThen fun r hr => ?_
      obtain ⟨n, rest, ν'', hle⟩ := r
      obtain ⟨⟨l', rfl, hresult⟩, hnext⟩ := hr
      cases rest with
      | nil => exact ⟨hresult, fun _ => rfl⟩
      | cons u us =>
        have hclose : u.kind = .groupClose := hnext u rfl
        simp only [hclose, if_true]
        refine sat_within.2 (sat_stay.2 (hresult.trans (answer_of_step ?_)))
        simp only [step, standing, hclose, State.closeGroup]

/-! ### Bodies -/

theorem finish_standing (l : Level) (ν : Notes) :
    (standing [] l ν).finish = ν.resolve l.close := by
  have hresolve : (standing [] l ν).resolve? = ν.resolve? := by
    funext target
    cases target <;> rfl
  rw [Notes.resolve, ← hresolve]
  rfl

theorem resolve_eq_error {n : Node} {e : ParseError} (h : ν.resolve n = .error e) :
    ∃ target offset, e = ⟨.unresolvedReference target, offset⟩ := by
  unfold Notes.resolve at h
  split at h
  · cases h
    exact ⟨_, _, rfl⟩
  · cases h

/-- The descent answers as the reader does. -/
theorem descend_answers (ts : List Token) :
    match descend ts with
    | .error e => Refused (parseTokens ts) e
    | .ok n => parseTokens ts = .ok n := by
  have hstart : parseTokens ts = answer (standing [] {} {}) ts := rfl
  have hbody := (disjunction_sat (follows_group maxDepth) (Nat.zero_add _) hstart).and
    (disjunction_next _ _ _ _)
  unfold descend
  cases hread : disjunction (group maxDepth) [] ts {} with
  | error e =>
    rw [hread] at hbody
    exact hbody
  | ok r =>
    rw [hread] at hbody
    obtain ⟨n, rest, ν, hle⟩ := r
    obtain ⟨⟨l, rfl, hresult⟩, hnext⟩ := hbody
    cases rest with
    | cons t us =>
      have hclose : t.kind = .groupClose := hnext t rfl
      refine .fault (hresult.trans (answer_of_refused ?_)) (by simp)
      simp only [step, standing, hclose, State.closeGroup]
    | nil =>
      have hfinish : parseTokens ts = ν.resolve l.close := by
        rw [← finish_standing]
        exact hresult
      dsimp only
      cases hresolve : ν.resolve l.close with
      | error e =>
        obtain ⟨target, offset, rfl⟩ := resolve_eq_error hresolve
        exact .fault (hfinish.trans hresolve) (by simp)
      | ok n => exact hfinish.trans hresolve

end RegexKit.Descent
