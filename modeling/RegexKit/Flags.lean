import RegexKit.Text

/-! Pattern flags. A set of flags is written by its letters in the fixed order `gimsuy`;
reading accepts the letters in any order, each at most once, and names the first letter
that is unknown or repeated together with its byte offset. -/

namespace RegexKit

/-- A pattern flag. -/
inductive Flag
  | global
  | ignoreCase
  | multiline
  | dotAll
  | unicode
  | sticky
  deriving DecidableEq, Repr

namespace Flag

/-- All flags in the order in which they are written. -/
def all : List Flag := [global, ignoreCase, multiline, dotAll, unicode, sticky]

def letter : Flag → Char
  | global => 'g'
  | ignoreCase => 'i'
  | multiline => 'm'
  | dotAll => 's'
  | unicode => 'u'
  | sticky => 'y'

def ofLetter? : Char → Option Flag
  | 'g' => some global
  | 'i' => some ignoreCase
  | 'm' => some multiline
  | 's' => some dotAll
  | 'u' => some unicode
  | 'y' => some sticky
  | _ => none

/-- The weight of a flag in the numeric form of a set. -/
def bit : Flag → Nat
  | global => 1
  | ignoreCase => 2
  | multiline => 4
  | dotAll => 8
  | unicode => 16
  | sticky => 32

@[simp] theorem ofLetter?_letter (f : Flag) : ofLetter? f.letter = some f := by cases f <;> rfl

theorem letter_of_ofLetter? {c : Char} {f : Flag} (h : ofLetter? c = some f) : f.letter = c := by
  unfold ofLetter? at h
  split at h <;> cases h <;> rfl

theorem mem_all (f : Flag) : f ∈ all := by cases f <;> decide

theorem nodup_all : all.Nodup := by decide

end Flag

/-- A set of flags. -/
structure Flags where
  global : Bool := false
  ignoreCase : Bool := false
  multiline : Bool := false
  dotAll : Bool := false
  unicode : Bool := false
  sticky : Bool := false
  deriving DecidableEq, Repr

namespace Flags

/-- The set without flags. -/
def none : Flags := {}

def has (fs : Flags) : Flag → Bool
  | .global => fs.global
  | .ignoreCase => fs.ignoreCase
  | .multiline => fs.multiline
  | .dotAll => fs.dotAll
  | .unicode => fs.unicode
  | .sticky => fs.sticky

def insert (fs : Flags) : Flag → Flags
  | .global => { fs with global := true }
  | .ignoreCase => { fs with ignoreCase := true }
  | .multiline => { fs with multiline := true }
  | .dotAll => { fs with dotAll := true }
  | .unicode => { fs with unicode := true }
  | .sticky => { fs with sticky := true }

@[simp] theorem has_none (f : Flag) : none.has f = false := by cases f <;> rfl

@[simp] theorem has_insert (fs : Flags) (f g : Flag) :
    (fs.insert f).has g = (decide (f = g) || fs.has g) := by
  cases f <;> cases g <;> rfl

theorem has_foldl_insert (flags : List Flag) (seen : Flags) (f : Flag) :
    (flags.foldl insert seen).has f = (decide (f ∈ flags) || seen.has f) := by
  induction flags generalizing seen with
  | nil => simp
  | cons g flags ih =>
    rw [List.foldl_cons, ih, has_insert]
    by_cases hg : f = g
    · simp [hg]
    · simp [hg, Ne.symm hg]

/-- Sets with the same flags are the same. -/
theorem eq_of_has {fs gs : Flags} (h : ∀ f, fs.has f = gs.has f) : fs = gs := by
  obtain ⟨g, i, m, s, u, y⟩ := fs
  obtain ⟨g', i', m', s', u', y'⟩ := gs
  have hg : g = g' := h .global
  have hi : i = i' := h .ignoreCase
  have hm : m = m' := h .multiline
  have hs : s = s' := h .dotAll
  have hu : u = u' := h .unicode
  have hy : y = y' := h .sticky
  rw [hg, hi, hm, hs, hu, hy]

/-- The letters of the set in the order `gimsuy`. -/
def text (fs : Flags) : Text := (Flag.all.filter fs.has).map Flag.letter

/-- The sum of the weights of the flags in the set. -/
def bits (fs : Flags) : Nat := (Flag.all.filter fs.has).foldl (fun n f => n + f.bit) 0

end Flags

/-! ### Reading -/

/-- What is wrong with a flag letter. -/
inductive FlagCause
  | unknown
  | duplicate
  deriving DecidableEq, Repr

/-- The first bad letter of a flag text, with its byte offset in that text. -/
structure FlagError where
  cause : FlagCause
  letter : Char
  offset : Nat
  deriving DecidableEq, Repr

namespace Flags

/-- Adds the flags of a text that begins at `offset` to those already read. -/
def read (offset : Nat) (seen : Flags) : Text → Except FlagError Flags
  | [] => .ok seen
  | c :: cs =>
    match Flag.ofLetter? c with
    | .none => .error ⟨.unknown, c, offset⟩
    | some f =>
      if seen.has f then .error ⟨.duplicate, c, offset⟩
      else read (offset + c.utf8Size) (seen.insert f) cs

/-- Reads a flag text. -/
def parse (t : Text) : Except FlagError Flags := read 0 none t

variable {offset : Nat} {seen fs : Flags} {flags : List Flag} {t rest : Text} {c : Char}

/-- The letters of flags that come once each and were not there before are read, and the flags
are added. -/
theorem read_letters (hnodup : flags.Nodup) (hseen : ∀ f ∈ flags, seen.has f = false) :
    read offset seen (flags.map Flag.letter ++ rest) =
      read (offset + Text.bytes (flags.map Flag.letter)) (flags.foldl insert seen) rest := by
  induction flags generalizing offset seen with
  | nil => rfl
  | cons f flags ih =>
    obtain ⟨hf, hflags⟩ := List.forall_mem_cons.1 hseen
    obtain ⟨hnew, hnodup⟩ := List.nodup_cons.1 hnodup
    have hadded : ∀ g ∈ flags, (seen.insert f).has g = false := by
      intro g hg
      have hne : f ≠ g := fun h => hnew (h ▸ hg)
      rw [has_insert, hflags g hg, Bool.or_false, decide_eq_false hne]
    rw [List.map_cons, List.cons_append, read, Flag.ofLetter?_letter]
    simp only [hf, Bool.false_eq_true, if_false]
    rw [ih hnodup hadded, Text.bytes_cons, Nat.add_assoc, List.foldl_cons]

/-- The letter has the fault where the flags have been read. -/
def FaultOf (seen : Flags) (c : Char) : FlagCause → Prop
  | .unknown => Flag.ofLetter? c = Option.none
  | .duplicate => ∃ f : Flag, f.letter = c ∧ seen.has f = true

theorem read_of_faultOf {cause : FlagCause} (h : FaultOf seen c cause) :
    read offset seen (c :: rest) = .error ⟨cause, c, offset⟩ := by
  rw [read]
  cases cause with
  | unknown =>
    have hc : Flag.ofLetter? c = Option.none := h
    rw [hc]
  | duplicate =>
    obtain ⟨f, rfl, hf⟩ := h
    rw [Flag.ofLetter?_letter]
    simp [hf]

/-- A text is the letters of new flags, or it has a letter with a fault behind some of these. -/
theorem exists_letters (seen : Flags) (t : Text) :
    ∃ flags : List Flag, flags.Nodup ∧ (∀ f ∈ flags, seen.has f = false) ∧
      (flags.map Flag.letter = t ∨ ∃ c rest cause, flags.map Flag.letter ++ c :: rest = t ∧
        FaultOf (flags.foldl insert seen) c cause) := by
  induction t generalizing seen with
  | nil => exact ⟨[], .nil, List.forall_mem_nil _, .inl rfl⟩
  | cons c cs ih =>
    cases hc : Flag.ofLetter? c with
    | none =>
      exact ⟨[], .nil, List.forall_mem_nil _, .inr ⟨c, cs, .unknown, rfl, hc⟩⟩
    | some f =>
      obtain rfl := Flag.letter_of_ofLetter? hc
      cases hf : seen.has f with
      | true =>
        exact ⟨[], .nil, List.forall_mem_nil _, .inr ⟨f.letter, cs, .duplicate, rfl, f, rfl, hf⟩⟩
      | false =>
        obtain ⟨flags, hnodup, hadded, hflags⟩ := ih (seen.insert f)
        have hother : ∀ g ∈ flags, f ≠ g ∧ seen.has g = false := fun g hg => by
          simpa using hadded g hg
        refine ⟨f :: flags, List.nodup_cons.2 ⟨fun h => (hother f h).1 rfl, hnodup⟩,
          List.forall_mem_cons.2 ⟨hf, fun g hg => (hother g hg).2⟩, ?_⟩
        rcases hflags with rfl | ⟨c, rest, cause, rfl, hcause⟩
        · exact .inl rfl
        · exact .inr ⟨c, rest, cause, rfl, hcause⟩

/-- What reading says of the letters of flags that come once each. -/
theorem parse_letters (hnodup : flags.Nodup) :
    parse (flags.map Flag.letter ++ rest) =
      read (Text.bytes (flags.map Flag.letter)) (flags.foldl insert none) rest := by
  rw [parse, read_letters hnodup fun f _ => has_none f, Nat.zero_add]

/-- A text is read exactly when it is the letters of flags that come once each; these are the flags
of the set. -/
theorem parse_eq_ok_iff : parse t = .ok fs ↔
    ∃ flags : List Flag, flags.Nodup ∧ flags.map Flag.letter = t ∧
      flags.foldl insert none = fs := by
  constructor
  · intro h
    obtain ⟨flags, hnodup, -, rfl | ⟨c, rest, cause, rfl, hfault⟩⟩ := exists_letters none t
    · rw [← List.append_nil (flags.map _), parse_letters hnodup] at h
      exact ⟨flags, hnodup, rfl, Except.ok.inj h⟩
    · rw [parse_letters hnodup, read_of_faultOf hfault] at h
      cases h
  · rintro ⟨flags, hnodup, rfl, rfl⟩
    rw [← List.append_nil (flags.map _), parse_letters hnodup]
    rfl

/-- A text is refused exactly for its first letter that is no flag's or comes again, with the number
of bytes before it. -/
theorem parse_eq_error_iff {e : FlagError} : parse t = .error e ↔
    ∃ (flags : List Flag) (rest : Text), flags.Nodup ∧
      flags.map Flag.letter ++ e.letter :: rest = t ∧
      Text.bytes (flags.map Flag.letter) = e.offset ∧
      FaultOf (flags.foldl insert none) e.letter e.cause := by
  constructor
  · intro h
    obtain ⟨flags, hnodup, -, rfl | ⟨c, rest, cause, rfl, hfault⟩⟩ := exists_letters none t
    · rw [← List.append_nil (flags.map _), parse_letters hnodup] at h
      cases h
    · rw [parse_letters hnodup, read_of_faultOf hfault] at h
      cases h
      exact ⟨flags, rest, hnodup, rfl, rfl, hfault⟩
  · rintro ⟨flags, rest, hnodup, rfl, hoffset, hfault⟩
    rw [parse_letters hnodup, read_of_faultOf hfault, hoffset]

/-- A set is read back from its letters. -/
theorem parse_text (fs : Flags) : parse fs.text = .ok fs := by
  refine parse_eq_ok_iff.2 ⟨Flag.all.filter fs.has, Flag.nodup_all.filter _, rfl, ?_⟩
  exact eq_of_has fun f => by simp [has_foldl_insert, Flag.mem_all]

end Flags

end RegexKit
