import RegexKit.Node.Json
import RegexKit.Proofs.Node.Induction
import Mathlib.Data.List.Forall2

/-! Trees in JSON form. A tree whose numbers fit into their words is read back from what is written
for it. Objects have no order of members: reading looks members up, so it gives the same for every
value that is the same up to the order of members, and the members that are left out when written
are those that reading supplies. -/

namespace RegexKit

namespace Json

variable {α : Type} {j k : Json}

/-! ### Order of members -/

/-- The same value up to the order of the members of objects. -/
inductive Same : Json → Json → Prop
  | null : Same .null .null
  | bool (b : Bool) : Same (.bool b) (.bool b)
  | int (n : Int) : Same (.int n) (.int n)
  | fraction : Same .fraction .fraction
  | str (s : String) : Same (.str s) (.str s)
  | arr {js ks : List Json} (h : List.Forall₂ Same js ks) : Same (.arr js) (.arr ks)
  | obj {ms ls : List (String × Json)} (hlen : ms.length = ls.length)
      (h : ∀ key, Option.Rel Same (ms.lookup key) (ls.lookup key)) : Same (.obj ms) (.obj ls)

theorem Same.refl (j : Json) : Same j j := by
  induction hn : sizeOf j using Nat.strongRecOn generalizing j with
  | ind n ih =>
    cases j with
    | null => exact .null
    | bool b => exact .bool b
    | int n => exact .int n
    | fraction => exact .fraction
    | str s => exact .str s
    | arr items =>
      refine .arr (List.forall₂_same.2 fun j hj => ih _ ?_ j rfl)
      have hlt := List.sizeOf_lt_of_mem hj
      rw [← hn, arr.sizeOf_spec]
      omega
    | obj members =>
      refine .obj rfl fun key => ?_
      cases hlookup : members.lookup key with
      | none => exact .none
      | some j =>
        refine .some (ih _ ?_ j rfl)
        have hlt := sizeOf_lookup_lt hlookup
        rw [← hn, obj.sizeOf_spec]
        omega

theorem lookup_eq_of_perm {ms ls : List (String × α)} (h : ms.Perm ls)
    (hkeys : (ms.map Prod.fst).Nodup) (key : String) : ms.lookup key = ls.lookup key := by
  induction h with
  | nil => rfl
  | cons m _ ih => rw [List.lookup_cons, List.lookup_cons, ih (List.nodup_cons.1 hkeys).2]
  | swap m m' ms =>
    obtain ⟨k, v⟩ := m
    obtain ⟨k', v'⟩ := m'
    have hne : k ≠ k' := fun heq => (List.nodup_cons.1 hkeys).1 (heq ▸ List.mem_cons_self)
    rw [List.lookup_cons, List.lookup_cons, List.lookup_cons, List.lookup_cons]
    by_cases hk : key = k
    · rw [hk, beq_false_of_ne hne, beq_self_eq_true]
    · rw [beq_false_of_ne hk]
  | trans h _ ih ih' => exact (ih hkeys).trans (ih' ((h.map Prod.fst).nodup_iff.1 hkeys))

/-- Members with different keys may be written in any order. -/
theorem Same.of_perm {ms ls : List (String × Json)} (h : ms.Perm ls)
    (hkeys : (ms.map Prod.fst).Nodup) : Same (.obj ms) (.obj ls) := by
  refine .obj h.length_eq fun key => ?_
  rw [lookup_eq_of_perm h hkeys]
  cases ls.lookup key with
  | none => exact .none
  | some j => exact .some (.refl j)

theorem Same.get? (h : Same j k) (key : String) :
    Option.Rel Same (j.get? key) (k.get? key) := by
  cases h with
  | obj _ h => exact h key
  | _ => exact .none

/-- What is made of a value does not depend on the order of members. -/
def Unordered (read : Json → α) : Prop := ∀ ⦃j k⦄, Same j k → read j = read k

theorem unordered_str? : Unordered str? := fun _ _ h => by cases h <;> rfl

theorem unordered_bool? : Unordered bool? := fun _ _ h => by cases h <;> rfl

theorem unordered_nat? (limit : Nat) : Unordered (nat? limit) := fun _ _ h => by cases h <;> rfl

/-- What is made of the value of a member, when this depends on no order within the value. -/
theorem Same.bind_get? (h : Same j k) {key : String} {read : Json → Option α}
    (hread : ∀ v w, j.get? key = some v → Same v w → read v = read w) :
    (j.get? key).bind read = (k.get? key).bind read := by
  have hvalue := h.get? key
  generalize j.get? key = v at hvalue hread
  generalize k.get? key = w at hvalue
  cases hvalue with
  | none => rfl
  | some hvalue => exact hread _ _ rfl hvalue

theorem Unordered.member {read : Json → Option α} (hread : Unordered read) (h : Same j k)
    (key : String) : (j.get? key).bind read = (k.get? key).bind read :=
  h.bind_get? fun _ _ _ hvalue => hread hvalue

/-- What is made of a member that may be left out. -/
theorem Unordered.getD? {read : Json → Option α} (hread : Unordered read) (h : Same j k)
    (key : String) (default : α) : j.getD? key default read = k.getD? key default read := by
  have hvalue := h.get? key
  unfold Json.getD?
  generalize j.get? key = v at hvalue
  generalize k.get? key = w at hvalue
  cases hvalue with
  | none => rfl
  | some hvalue => exact hread hvalue

theorem le_of_nat? {limit m : Nat} (h : j.nat? limit = some m) : m ≤ limit := by
  unfold nat? at h
  split at h
  · split at h
    · cases h
      assumption
    · cases h
  · cases h

end Json

/-! ### Parts of nodes -/

open Json (Same Unordered unordered_str? unordered_bool? unordered_nat?)

theorem GroupKind.unordered_nameOf? : Unordered GroupKind.nameOf? :=
  fun _ _ h => by cases h <;> rfl

theorem Node.unordered_boundOf? : Unordered Node.boundOf? := fun _ _ h => by cases h <;> rfl

theorem PatternChar.unordered_ofJson? : Unordered PatternChar.ofJson? := by
  intro j k h
  simp only [ofJson?, Option.bind_eq_bind, ← Option.bind_assoc, unordered_str?.member h,
    unordered_bool?.getD? h]

theorem GroupKind.unordered_ofJson? : Unordered GroupKind.ofJson? := by
  intro j k h
  simp only [ofJson?, Option.bind_eq_bind, ← Option.bind_assoc, unordered_str?.member h,
    (unordered_nat? _).member h, unordered_nameOf?.getD? h]

theorem RefTarget.ofJson?_singleton (key : String) (v : Json) :
    RefTarget.ofJson? (.obj [(key, v)]) =
      if key = "number" then (v.nat? Numeral.max64).map .number
      else if key = "name" then v.str?.map fun s => .name (Text.ofString s)
      else none := by
  by_cases hnumber : key = "number"
  · subst hnumber
    rfl
  by_cases hname : key = "name"
  · subst hname
    rfl
  rw [if_neg hnumber, if_neg hname]
  unfold RefTarget.ofJson?
  split
  · rename_i heq
    cases heq
    exact absurd rfl hnumber
  · rename_i heq
    cases heq
    exact absurd rfl hname
  · rfl

theorem RefTarget.ofJson?_of_length {ms : List (String × Json)} (h : ms.length ≠ 1) :
    RefTarget.ofJson? (.obj ms) = none := by
  unfold RefTarget.ofJson?
  split
  · rename_i heq
    cases heq
    exact absurd rfl h
  · rename_i heq
    cases heq
    exact absurd rfl h
  · rfl

theorem RefTarget.unordered_ofJson? : Unordered RefTarget.ofJson? := by
  intro j k h
  cases h with
  | @obj ms ls hlen hlookup =>
    by_cases hone : ms.length = 1
    · obtain ⟨⟨key, v⟩, rfl⟩ := List.length_eq_one_iff.1 hone
      obtain ⟨⟨key', w⟩, rfl⟩ := List.length_eq_one_iff.1 hlen.symm
      have hvalue := hlookup key
      rw [List.lookup_cons_self] at hvalue
      by_cases hkey : key = key'
      · subst hkey
        rw [List.lookup_cons_self] at hvalue
        cases hvalue with
        | some hvalue =>
          rw [ofJson?_singleton, ofJson?_singleton, unordered_nat? _ hvalue, unordered_str? hvalue]
      · rw [List.lookup_cons, beq_false_of_ne hkey] at hvalue
        cases hvalue
    · rw [ofJson?_of_length hone, ofJson?_of_length (by rwa [← hlen])]
  | _ => rfl

theorem GroupKind.le_of_ofJson? {j : Json} {number : Nat} {name : Option Text}
    (h : ofJson? j = some (.capturing number name)) : number ≤ Numeral.max64 := by
  simp only [ofJson?, Option.bind_eq_bind, Option.bind_eq_some_iff] at h
  obtain ⟨_, -, _, -, h⟩ := h
  split at h
  · simp only [Option.bind_eq_some_iff] at h
    obtain ⟨_, _, _, hnumber, _, _, heq⟩ := h
    cases heq
    exact Json.le_of_nat? hnumber
  all_goals cases h

theorem RefTarget.le_of_ofJson? {j : Json} {m : Nat} (h : ofJson? j = some (.number m)) :
    m ≤ Numeral.max64 := by
  unfold ofJson? at h
  split at h
  · obtain ⟨_, hm, heq⟩ := Option.map_eq_some_iff.1 h
    cases heq
    exact Json.le_of_nat? hm
  · obtain ⟨_, -, heq⟩ := Option.map_eq_some_iff.1 h
    cases heq
  · cases h

namespace Node

/-! ### Reading by the kind of a node -/

/-- The kind that an object names. -/
def typeOf? (j : Json) : Option NodeType :=
  (j.get? "type").bind fun v => v.str?.bind NodeType.ofName?

/-- The nodes of a list. -/
def listOf? : Json → Option (List Node)
  | .arr items => ofJsonList? items
  | _ => none

/-- The node of an object that names its kind. -/
def fieldsOf? (j : Json) : NodeType → Option Node
  | .regExp =>
    ((j.get? "flags").bind Json.str?).bind fun flags =>
      ((j.get? "body").bind ofJson?).bind fun body =>
        ((Flags.parse (Text.ofString flags)).toOption).map fun flags => .regExp body flags
  | .alternative => ((j.get? "expressions").bind listOf?).map .alternative
  | .disjunction => ((j.get? "branches").bind listOf?).map .disjunction
  | .group => (GroupKind.ofJson? j).bind fun kind =>
      ((j.get? "expression").bind ofJson?).map (.group kind)
  | .backreference => ((j.get? "target").bind RefTarget.ofJson?).bind fun target =>
      ((j.get? "number").bind (Json.nat? Numeral.max64)).map (.backreference target)
  | .assertion => (((j.get? "kind").bind Json.str?).bind AssertionKind.ofName?).map .assertion
  | .char => (PatternChar.ofJson? j).map .char
  | .charClass => (j.getD? "negated" false Json.bool?).bind fun negated =>
      ((j.get? "members").bind listOf?).map (.charClass negated)
  | .classRange => ((j.get? "from").bind PatternChar.ofJson?).bind fun low =>
      ((j.get? "to").bind PatternChar.ofJson?).map (.classRange low)
  | .repetition => ((j.get? "min").bind (Json.nat? Numeral.max32)).bind fun min =>
      (j.getD? "max" none boundOf?).bind fun max =>
        ((j.get? "greedy").bind Json.bool?).bind fun greedy =>
          ((j.get? "expression").bind ofJson?).map fun e => .repetition e min max greedy

theorem ofJson?_eq (j : Json) : ofJson? j = (typeOf? j).bind (fieldsOf? j) := by
  rw [ofJson?, typeOf?]
  simp only [Option.bind_eq_bind, Option.bind_assoc]
  refine congrArg (Option.bind _) (funext fun v => ?_)
  refine congrArg (Option.bind _) (funext fun s => ?_)
  refine congrArg (Option.bind _) (funext fun type => ?_)
  cases type
  all_goals simp only [fieldsOf?, Option.map_eq_bind, Option.bind_assoc]
  case regExp => cases j.get? "body" <;> rfl
  case group | repetition => cases j.get? "expression" <;> rfl
  case alternative => rcases j.get? "expressions" with _ | (_ | _ | _ | _ | _ | _ | _) <;> rfl
  case disjunction => rcases j.get? "branches" with _ | (_ | _ | _ | _ | _ | _ | _) <;> rfl
  case charClass => rcases j.get? "members" with _ | (_ | _ | _ | _ | _ | _ | _) <;> rfl
  all_goals rfl

theorem ofJsonList?_cons (j : Json) (js : List Json) :
    ofJsonList? (j :: js) = (ofJson? j).bind fun n => (ofJsonList? js).map (n :: ·) := by
  rw [ofJsonList?]
  cases ofJson? j with
  | none => rfl
  | some n => cases ofJsonList? js <;> rfl

/-! ### Order of members -/

theorem ofJsonList?_of_same {js ks : List Json} (h : List.Forall₂ Same js ks)
    (hread : ∀ j ∈ js, ∀ k, Same j k → ofJson? j = ofJson? k) :
    ofJsonList? js = ofJsonList? ks := by
  induction h with
  | nil => rfl
  | cons hsame _ ih =>
    obtain ⟨hfirst, hrest⟩ := List.forall_mem_cons.1 hread
    rw [ofJsonList?_cons, ofJsonList?_cons, hfirst _ hsame, ih hrest]

/-- Reading does not depend on the order of members at any depth. -/
theorem unordered_ofJson? : Unordered ofJson? := by
  intro j k h
  induction hn : sizeOf j using Nat.strongRecOn generalizing j k with
  | ind n ih =>
    have hchild : ∀ key, (j.get? key).bind ofJson? = (k.get? key).bind ofJson? := fun key =>
      h.bind_get? fun v w hv hsame => ih _ (hn ▸ Json.sizeOf_get?_lt hv) hsame rfl
    have hchildren : ∀ key, (j.get? key).bind listOf? = (k.get? key).bind listOf? := fun key => by
      refine h.bind_get? fun v w hv hsame => ?_
      have hlt := Json.sizeOf_get?_lt hv
      cases hsame with
      | arr hitems =>
        refine ofJsonList?_of_same hitems fun i hi i' hsame => ih _ ?_ hsame rfl
        have hitem := List.sizeOf_lt_of_mem hi
        rw [Json.arr.sizeOf_spec] at hlt
        omega
      | _ => rfl
    rw [ofJson?_eq, ofJson?_eq, typeOf?, typeOf?, ← Option.bind_assoc, ← Option.bind_assoc,
      unordered_str?.member h]
    refine congrArg (Option.bind _) (funext fun type => ?_)
    cases type <;> simp only [fieldsOf?, hchild, hchildren, unordered_str?.member h,
      GroupKind.unordered_ofJson? h, RefTarget.unordered_ofJson?.member h,
      PatternChar.unordered_ofJson? h, PatternChar.unordered_ofJson?.member h,
      (unordered_nat? _).member h, unordered_bool?.member h, unordered_bool?.getD? h,
      unordered_boundOf?.getD? h]

end Node

/-! ### Reading what is written -/

theorem Text.ofString_toString (t : Text) : Text.ofString t.toString = t := String.toList_ofList

/-- The kind of a node beside a character is not looked at. -/
theorem PatternChar.ofJson?_cons_type (v : Json) (ms : List (String × Json)) :
    ofJson? (.obj (("type", v) :: ms)) = ofJson? (.obj ms) := rfl

/-- The mark of an identity escape is supplied when it is left out. -/
theorem PatternChar.ofJson?_members (c : PatternChar) : ofJson? (.obj c.members) = some c := by
  obtain ⟨value, kind, escaped⟩ := c
  cases escaped <;>
    simp [ofJson?, members, List.lookup_cons, Json.getD?, Text.ofString_toString]

/-- Among the members of a group its kind is told, and a name is taken to be absent when it is left
out. -/
theorem GroupKind.ofJson?_members (kind : GroupKind)
    (h : ∀ number name, kind = .capturing number name → number ≤ Numeral.max64) (v w : Json) :
    ofJson? (.obj (("type", v) :: kind.members ++ [("expression", w)])) = some kind := by
  cases kind with
  | capturing number name =>
    have hnumber := Json.nat?_nat (h number name rfl)
    cases name <;>
      simp [ofJson?, members, List.lookup_cons, Json.getD?, nameOf?, hnumber,
        Text.ofString_toString]
  | _ => rfl

theorem GroupKind.lookup_expression (kind : GroupKind) (v w : Json) :
    (("type", v) :: kind.members ++ [("expression", w)]).lookup "expression" = some w := by
  rcases kind with ⟨_, _ | _⟩ | _ | _ | _ | _ | _ <;> rfl

theorem RefTarget.ofJson?_toJson (target : RefTarget)
    (h : ∀ m, target = .number m → m ≤ Numeral.max64) : ofJson? target.toJson = some target := by
  cases target with
  | number m =>
    rw [toJson, ofJson?_singleton, if_pos rfl, Json.nat?_nat (h m rfl)]
    rfl
  | name t =>
    have hname := ofJson?_singleton "name" (.str t.toString)
    rw [if_neg (by decide), if_pos rfl, Json.str?_str, Option.map_some, Text.ofString_toString]
      at hname
    exact hname

namespace Node

theorem typeOf?_toJson (n : Node) : typeOf? n.toJson = some n.type := by
  cases n <;> simp [typeOf?, toJson, type]

theorem ofJsonList?_toJsonList {ns : List Node} (h : ∀ n ∈ ns, ofJson? n.toJson = some n) :
    ofJsonList? (toJsonList ns) = some ns := by
  induction ns with
  | nil => rw [toJsonList, ofJsonList?]
  | cons n ns ih =>
    obtain ⟨hn, hns⟩ := List.forall_mem_cons.1 h
    rw [toJsonList, ofJsonList?_cons, hn, Option.bind_some, ih hns, Option.map_some]

/-- The numbers of a node fit into their words: those of groups into 64 bits, the bounds of
repetitions into 32. -/
def fitsWords : Node → Bool
  | group (.capturing number _) _ => number ≤ Numeral.max64
  | backreference (.number m) number => m ≤ Numeral.max64 && number ≤ Numeral.max64
  | backreference (.name _) number => number ≤ Numeral.max64
  | repetition _ min max _ => min ≤ Numeral.max32 && max.all (· ≤ Numeral.max32)
  | _ => true

/-- All numbers of a tree fit into their words. -/
def InWords (n : Node) : Prop := ∀ m ∈ n.preorder, m.fitsWords = true

instance : DecidablePred InWords := fun n =>
  inferInstanceAs (Decidable (∀ m ∈ n.preorder, m.fitsWords = true))

theorem inWords_iff {n : Node} : InWords n ↔ n.fitsWords = true ∧ ∀ c ∈ n.children, InWords c :=
  forall_preorder_iff

/-- What is written for a node is read as the node when this is so for its children. -/
theorem fieldsOf?_toJson {n : Node} (hfits : n.fitsWords = true)
    (hchildren : ∀ c ∈ n.children, ofJson? c.toJson = some c) :
    fieldsOf? n.toJson n.type = some n := by
  cases n with
  | regExp b flags =>
    have hb := hchildren b List.mem_cons_self
    simp [fieldsOf?, toJson, type, List.lookup_cons, hb, Text.ofString_toString, Flags.parse_text,
      Except.toOption]
  | alternative ns | disjunction ns =>
    have hns : ofJsonList? (toJsonList ns) = some ns := ofJsonList?_toJsonList hchildren
    simp [fieldsOf?, toJson, type, List.lookup_cons, listOf?, hns]
  | group kind e =>
    have he := hchildren e List.mem_cons_self
    have hkind := GroupKind.ofJson?_members kind (fun number name heq => by
      subst heq
      exact of_decide_eq_true hfits) (.str NodeType.group.name) e.toJson
    simp only [fieldsOf?, toJson, type, hkind, Json.get?_obj, GroupKind.lookup_expression,
      Option.bind_some, he, Option.map_some]
  | backreference target number =>
    have hwords : (∀ m, target = .number m → m ≤ Numeral.max64) ∧ number ≤ Numeral.max64 := by
      cases target <;> simpa [fitsWords] using hfits
    simp [fieldsOf?, toJson, type, List.lookup_cons, RefTarget.ofJson?_toJson target hwords.1,
      Json.nat?_nat hwords.2]
  | assertion kind => simp [fieldsOf?, toJson, type, List.lookup_cons]
  | char c =>
    simp [fieldsOf?, toJson, type, PatternChar.ofJson?_cons_type, PatternChar.ofJson?_members]
  | charClass negated ns =>
    have hns : ofJsonList? (toJsonList ns) = some ns := ofJsonList?_toJsonList hchildren
    simp [fieldsOf?, toJson, type, List.lookup_cons, listOf?, hns, Json.getD?]
  | classRange low high =>
    simp [fieldsOf?, toJson, type, List.lookup_cons, PatternChar.ofJson?_members]
  | repetition e min max greedy =>
    have he := hchildren e List.mem_cons_self
    have hwords : min ≤ Numeral.max32 ∧ max.all (· ≤ Numeral.max32) = true := by
      simpa [fitsWords] using hfits
    have hmin := Json.nat?_nat hwords.1
    cases max with
    | none => simp [fieldsOf?, toJson, type, List.lookup_cons, he, hmin, Json.getD?, boundOf?]
    | some x =>
      have hmax : boundOf? (.nat x) = some (some x) :=
        congrArg (Option.map some) (Json.nat?_nat (of_decide_eq_true hwords.2))
      simp [fieldsOf?, toJson, type, List.lookup_cons, he, hmin, Json.getD?, hmax]

/-- What is written for a tree is read as the tree. -/
theorem ofJson?_toJson {n : Node} (h : InWords n) : ofJson? n.toJson = some n := by
  induction hn : n.height using Nat.strongRecOn generalizing n with
  | ind k ih =>
    obtain ⟨hfits, hchildren⟩ := inWords_iff.1 h
    rw [ofJson?_eq, typeOf?_toJson, Option.bind_some]
    exact fieldsOf?_toJson hfits fun c hc =>
      ih _ (hn ▸ height_lt_of_mem_children hc) (hchildren c hc) rfl

/-! ### What is read -/

theorem boundOf?_eq_some {j : Json} {max : Option Nat} (h : boundOf? j = some max) :
    max.all (· ≤ Numeral.max32) = true := by
  unfold boundOf? at h
  split at h
  · cases h
    rfl
  · obtain ⟨x, hx, rfl⟩ := Option.map_eq_some_iff.1 h
    exact decide_eq_true (Json.le_of_nat? hx)

theorem listOf?_eq_some {j : Json} {ns : List Node} (h : listOf? j = some ns) :
    ∀ c ∈ ns, ∃ v, ofJson? v = some c := by
  cases j with
  | arr items =>
    simp only [listOf?] at h
    induction items generalizing ns with
    | nil =>
      rw [ofJsonList?] at h
      cases h
      exact List.forall_mem_nil _
    | cons j js ih =>
      rw [ofJsonList?_cons] at h
      obtain ⟨n, hn, hrest⟩ := Option.bind_eq_some_iff.1 h
      obtain ⟨ns, hns, rfl⟩ := Option.map_eq_some_iff.1 hrest
      exact List.forall_mem_cons.2 ⟨⟨j, hn⟩, ih hns⟩
  | _ => cases h

/-- The numbers of a node that is read fit into their words, and its children were read. -/
theorem fieldsOf?_eq_some {j : Json} {type : NodeType} {n : Node} (h : fieldsOf? j type = some n) :
    n.fitsWords = true ∧ ∀ c ∈ n.children, ∃ v, ofJson? v = some c := by
  cases type <;> simp only [fieldsOf?, Option.bind_eq_some_iff, Option.map_eq_some_iff] at h
  case regExp =>
    obtain ⟨_, -, b, ⟨v, -, hb⟩, _, -, rfl⟩ := h
    exact ⟨rfl, List.forall_mem_singleton.2 ⟨v, hb⟩⟩
  case alternative | disjunction =>
    obtain ⟨ns, ⟨v, -, hns⟩, rfl⟩ := h
    exact ⟨rfl, listOf?_eq_some hns⟩
  case group =>
    obtain ⟨kind, hkind, e, ⟨v, -, he⟩, rfl⟩ := h
    refine ⟨?_, List.forall_mem_singleton.2 ⟨v, he⟩⟩
    cases kind with
    | capturing number name => exact decide_eq_true (GroupKind.le_of_ofJson? hkind)
    | _ => rfl
  case backreference =>
    obtain ⟨target, ⟨_, -, htarget⟩, number, ⟨_, -, hnumber⟩, rfl⟩ := h
    refine ⟨?_, List.forall_mem_nil _⟩
    have hle := Json.le_of_nat? hnumber
    cases target with
    | number m => simp [fitsWords, RefTarget.le_of_ofJson? htarget, hle]
    | name t => exact decide_eq_true hle
  case assertion =>
    obtain ⟨kind, -, rfl⟩ := h
    exact ⟨rfl, List.forall_mem_nil _⟩
  case char =>
    obtain ⟨c, -, rfl⟩ := h
    exact ⟨rfl, List.forall_mem_nil _⟩
  case charClass =>
    obtain ⟨negated, -, ns, ⟨v, -, hns⟩, rfl⟩ := h
    exact ⟨rfl, listOf?_eq_some hns⟩
  case classRange =>
    obtain ⟨low, -, high, -, rfl⟩ := h
    exact ⟨rfl, List.forall_mem_nil _⟩
  case repetition =>
    obtain ⟨min, ⟨_, -, hmin⟩, max, hmax, greedy, -, e, ⟨v, -, he⟩, rfl⟩ := h
    refine ⟨?_, List.forall_mem_singleton.2 ⟨v, he⟩⟩
    have hbound : max.all (· ≤ Numeral.max32) = true := by
      unfold Json.getD? at hmax
      split at hmax
      · exact boundOf?_eq_some hmax
      · cases hmax
        rfl
    simp [fitsWords, Json.le_of_nat? hmin, hbound]

/-- Every tree that is read is in words. -/
theorem inWords_of_ofJson? {j : Json} {n : Node} (h : ofJson? j = some n) : InWords n := by
  induction hn : n.height using Nat.strongRecOn generalizing n j with
  | ind k ih =>
    rw [ofJson?_eq] at h
    obtain ⟨type, -, hfields⟩ := Option.bind_eq_some_iff.1 h
    obtain ⟨hfits, hchildren⟩ := fieldsOf?_eq_some hfields
    refine inWords_iff.2 ⟨hfits, fun c hc => ?_⟩
    obtain ⟨v, hv⟩ := hchildren c hc
    exact ih _ (hn ▸ height_lt_of_mem_children hc) hv rfl

/-! ### Trees and values -/

/-- The JSON form of trees loses nothing. A tree whose numbers fit into their words is read back
from what is written for it, in whatever order its members come, and so are all trees that are read
from anything. Two such trees are written alike, up to the order of members, only if they are the
same tree, although `escaped` is left out for a character exactly when it is false, and `name` for a
group exactly when it has none. -/
theorem toJson_loses_nothing :
    (∀ n, InWords n → ofJson? n.toJson = some n ∧ ∀ j, n.toJson.Same j → ofJson? j = some n) ∧
    (∀ n m, InWords n → InWords m → n.toJson.Same m.toJson → n = m) ∧
    (∀ j n, ofJson? j = some n → InWords n ∧ ofJson? n.toJson = some n) ∧
    (∀ c : PatternChar, c.members.lookup "escaped" = none ↔ c.escaped = false) ∧
    ∀ number name,
      (GroupKind.capturing number name).members.lookup "name" = none ↔ name = none := by
  have hback : ∀ n, InWords n → ∀ j, n.toJson.Same j → ofJson? j = some n := fun n hn j hj => by
    rw [← unordered_ofJson? hj, ofJson?_toJson hn]
  refine ⟨fun n hn => ⟨ofJson?_toJson hn, hback n hn⟩, fun n m hn hm hsame => ?_, fun j n h => ?_,
    fun c => ?_, fun number name => ?_⟩
  · exact Option.some.inj ((hback n hn _ hsame).symm.trans (ofJson?_toJson hm))
  · have hn := inWords_of_ofJson? h
    exact ⟨hn, ofJson?_toJson hn⟩
  · obtain ⟨value, kind, escaped⟩ := c
    cases escaped <;> simp [PatternChar.members, List.lookup_cons]
  · cases name <;> simp [GroupKind.members, List.lookup_cons]

/-- A named group with the largest number around a repetition with the largest bound, and its root
with the members in another order. -/
theorem toJson_loses_nothing_at_limits :
    let e : Node := .group (.capturing Numeral.max64 (some ['n']))
      (.repetition (.char (.identityEscape '-')) 0 (some Numeral.max32) false)
    let n : Node := .regExp e {}
    InWords n ∧ ofJson? n.toJson = some n ∧
      ofJson? (.obj [("flags", .str ""), ("body", e.toJson), ("type", .str "RegExp")]) =
        some n := by
  intro e n
  have hwords : InWords n := by decide +kernel
  obtain ⟨hread, horder⟩ := toJson_loses_nothing.1 n hwords
  have hagain := toJson_loses_nothing.2.2.1 _ _ hread
  refine ⟨hagain.1, hagain.2, horder _ ?_⟩
  have hwritten : n.toJson = .obj [("type", .str "RegExp"), ("body", e.toJson),
    ("flags", .str "")] := by
    rw [toJson]
    rfl
  rw [hwritten]
  exact .of_perm (List.reverse_perm _).symm (by decide)

end Node

end RegexKit
