/-! JSON values. Numbers are integers; a number written with a fraction or an exponent is
kept apart, because no integer field accepts it. Members of an object keep their order. -/

namespace RegexKit

/-- A JSON value. -/
inductive Json
  | null
  | bool (b : Bool)
  | int (n : Int)
  /-- A number that is not written as an integer. -/
  | fraction
  | str (s : String)
  | arr (items : List Json)
  | obj (members : List (String × Json))
  deriving Repr, Inhabited

namespace Json

/-- A natural number as a value. -/
def nat (n : Nat) : Json := .int n

/-- The value of a member; a value that is no object has none. -/
def get? (key : String) : Json → Option Json
  | obj members => members.lookup key
  | _ => none

def str? : Json → Option String
  | str s => some s
  | _ => none

def bool? : Json → Option Bool
  | bool b => some b
  | _ => none

/-- A natural number of at most `limit`. -/
def nat? (limit : Nat) : Json → Option Nat
  | int (.ofNat n) => if n ≤ limit then some n else none
  | _ => none

@[simp] theorem get?_obj (key : String) (members : List (String × Json)) :
    get? key (obj members) = members.lookup key := rfl

@[simp] theorem str?_str (s : String) : str? (str s) = some s := rfl

@[simp] theorem bool?_bool (b : Bool) : bool? (bool b) = some b := rfl

@[simp] theorem nat?_nat {limit n : Nat} (h : n ≤ limit) : nat? limit (nat n) = some n := by
  simp [nat, nat?, h]

/-- What `read` makes of a member that is present, and `default` when it is absent. -/
def getD? {α : Type} (key : String) (default : α) (read : Json → Option α) (j : Json) :
    Option α :=
  match j.get? key with
  | some v => read v
  | none => some default

theorem sizeOf_lookup_lt {key : String} {members : List (String × Json)} {j : Json}
    (h : members.lookup key = some j) : sizeOf j < sizeOf members := by
  induction members with
  | nil => simp at h
  | cons m ms ih =>
    obtain ⟨k, v⟩ := m
    simp only [List.lookup_cons] at h
    split at h
    · simp only [Option.some.injEq] at h
      subst h
      simp only [List.cons.sizeOf_spec, Prod.mk.sizeOf_spec]
      omega
    · have := ih h
      simp only [List.cons.sizeOf_spec]
      omega

theorem sizeOf_get?_lt {key : String} {v j : Json} (h : j.get? key = some v) :
    sizeOf v < sizeOf j := by
  cases j with
  | obj members =>
    have := sizeOf_lookup_lt h
    simp only [obj.sizeOf_spec]
    omega
  | _ => simp [get?] at h

end Json

end RegexKit
