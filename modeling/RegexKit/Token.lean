import RegexKit.Node

/-! Tokens of a pattern body. A token has a kind, the text that it was read from and the
byte offset of that text. -/

namespace RegexKit

/-- How a group begins. -/
inductive GroupOpen
  | capturing
  | named (name : Text)
  | nonCapturing
  | lookahead
  | negativeLookahead
  | lookbehind
  | negativeLookbehind
  deriving DecidableEq, Repr

inductive TokenKind
  | char (c : PatternChar)
  | classOpen (negated : Bool)
  | classClose
  | groupOpen (how : GroupOpen)
  | groupClose
  /-- Between `min` and `max` copies, without upper bound when `max` is `none`. -/
  | quantifier (min : Nat) (max : Option Nat) (greedy : Bool)
  | bar
  | assertion (kind : AssertionKind)
  | backreference (target : RefTarget)
  deriving DecidableEq, Repr

structure Token where
  kind : TokenKind
  raw : Text
  offset : Nat
  deriving DecidableEq, Repr

/-- A dash written without a backslash, which joins the ends of a range. -/
def PatternChar.isDash (c : PatternChar) : Bool := !c.escaped && c.value == ['-']

/-! ### Errors -/

/-- Why a pattern body has no tokens. -/
inductive LexCause
  | danglingBackslash
  | unterminatedClass
  | invalidHexEscape
  | invalidUnicodeEscape
  | invalidControlEscape
  | invalidPropertyEscape
  | invalidNamedReference
  | invalidGroupSyntax
  | invalidGroupName (name : Text)
  | unterminatedGroupName
  | quantifierOverflow
  deriving DecidableEq, Repr

/-- A cause and the byte offset where the construct at fault begins. -/
structure LexError where
  cause : LexCause
  offset : Nat
  deriving DecidableEq, Repr

end RegexKit
