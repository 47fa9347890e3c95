import RegexKit.Proofs.Grammar.WellFormed
import RegexKit.Proofs.Token.Characters

/-! Trees that can be printed and read back. They are built from characters that the lexer
makes, in any nesting, with groups and references numbered as the reader numbers them. -/

namespace RegexKit.Node

open Token (Lexical)

/-! ### Built trees -/

/-- A character that the lexer makes inside a class, other than an octal escape. -/
def InClass (c : PatternChar) : Prop := Lexical true c ∧ c.kind ≠ .octal

/-- A member of a class: such a character or a range of them in order. -/
def BuiltMember : Node → Prop
  | char c => InClass c
  | classRange low high => InClass low ∧ InClass high ∧
      ∃ x y, low.codePoint? = some x ∧ high.codePoint? = some y ∧ x ≤ y
  | _ => False

def isLookbehindGroup : Node → Bool
  | group kind _ => kind.isLookbehind
  | _ => false

mutual

/-- Sequences of any length, choices of at least one branch, repetitions with bounds that are
words in order over anything but a lookbehind, and classes of members, in any nesting. -/
def Built : Node → Prop
  | regExp _ _ => False
  | alternative es => BuiltAll es
  | disjunction bs => bs ≠ [] ∧ BuiltAll bs
  | group _ e => Built e
  | backreference _ _ | assertion _ => True
  | char c => Lexical false c
  | charClass _ ms => ∀ m ∈ ms, BuiltMember m
  | classRange _ _ => False
  | repetition e min max _ => Built e ∧ e.isLookbehindGroup = false ∧ inOrder min max = true ∧
      min ≤ Numeral.max32 ∧ max.all (· ≤ Numeral.max32) = true

def BuiltAll : List Node → Prop
  | [] => True
  | n :: ns => Built n ∧ BuiltAll ns

end

theorem builtAll_iff {ns : List Node} : BuiltAll ns ↔ ∀ n ∈ ns, n.Built := by
  induction ns with
  | nil => simp [BuiltAll]
  | cons n ns ih => simp [BuiltAll, ih]

/-! ### Nesting -/

/-- The largest number of parentheses around any place of a token list that begins inside `d`
of them. -/
def nesting (d : Nat) : List TokenKind → Nat
  | [] => d
  | .groupOpen _ :: ks => max d (nesting (d + 1) ks)
  | .groupClose :: ks => max d (nesting (d - 1) ks)
  | _ :: ks => nesting d ks

/-! ### Printable trees -/

/-- A root whose text is to be read back: built as above, its groups numbered in the order in
which they open and named with distinct identifiers, every reference carrying the number of the
group that it names, and its text nested no deeper than the reader goes. -/
structure Printable (body : Node) (flags : Flags) : Prop where
  built : body.Built
  numbers : body.captures.map Prod.fst = List.range' 1 body.captures.length
  names : ((groupNames body.captures).map Prod.fst).Nodup
  identifiers : ∀ p ∈ groupNames body.captures, Token.isIdentifier p.1 = true
  resolved : ∀ r ∈ body.references, targets body.captures r.1 r.2
  /-- Numbers that are written are words. -/
  words : ∀ m number, (.number m, number) ∈ body.references → m ≤ Numeral.max64
  nested : ∀ ts, Token.tokenize (pattern (regExp body flags)) = .ok ts →
    nesting 0 (ts.map Token.kind) ≤ Parser.maxDepth

end RegexKit.Node
