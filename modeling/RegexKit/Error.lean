import RegexKit.Host.Matcher
import RegexKit.Source

/-! Errors and their wording. Every error has a message; those that blame a place in a text
also have its byte offset, which for flags counts from the start of the flag text. -/

namespace RegexKit

/-! ### Wording -/

def FlagCause.adjective : FlagCause → String
  | unknown => "unknown"
  | duplicate => "duplicate"

def FlagError.message (e : FlagError) : String :=
  e.cause.adjective ++ " flag '" ++ e.letter.toString ++ "' at offset " ++ Nat.repr e.offset

def LexError.message (e : LexError) : String :=
  let place := " at offset " ++ Nat.repr e.offset
  match e.cause with
  | .danglingBackslash => "pattern ends with a dangling backslash" ++ place
  | .unterminatedClass => "character class opened" ++ place ++ " is never closed"
  | .invalidHexEscape => "malformed hexadecimal escape" ++ place
  | .invalidUnicodeEscape => "malformed unicode escape" ++ place
  | .invalidControlEscape => "malformed control escape" ++ place
  | .invalidPropertyEscape => "malformed unicode property escape" ++ place
  | .invalidNamedReference => "malformed named backreference" ++ place
  | .invalidGroupSyntax => "invalid group syntax" ++ place
  | .invalidGroupName name => "invalid group name '" ++ name.toString ++ "'" ++ place
  | .unterminatedGroupName => "group name starting" ++ place ++ " is never closed with '>'"
  | .quantifierOverflow => "quantifier bound" ++ place ++ " is too large"

/-- Bounds between braces. -/
def boundsInBraces (min max : Nat) : String :=
  "\x7b" ++ Nat.repr min ++ "," ++ Nat.repr max ++ "\x7d"

def ParseError.message (e : ParseError) : String :=
  let place := " at offset " ++ Nat.repr e.offset
  match e.cause with
  | .unterminatedGroup => "group opened" ++ place ++ " expected ')' but found end of input"
  | .unmatchedClosingParen => "unmatched ')'" ++ place
  | .unterminatedClass => "character class opened" ++ place ++ " is never closed"
  | .nothingToRepeat => "nothing to repeat" ++ place
  | .repetitionOutOfOrder min max =>
    "numbers out of order in quantifier " ++ boundsInBraces min max ++ place
  | .rangeOutOfOrder low high =>
    "range out of order in character class ('" ++ low.toString ++ "' > '" ++ high.toString ++
      "')" ++ place
  | .duplicateGroupName name =>
    "duplicate capture group name '" ++ name.toString ++ "'" ++ place
  | .unresolvedReference target =>
    "backreference \\" ++ target.text.toString ++ place ++ " does not name an existing group"
  | .nestingTooDeep => "groups nested deeper than " ++ Nat.repr Parser.maxDepth ++ place
  | .unexpectedToken found => "unexpected '" ++ found.toString ++ "'" ++ place

def SourceError.message : SourceError → String
  | missingDelimiter source => "pattern '" ++ source.toString ++ "' is not of the form /body/flags"
  | flag e => e.message
  | lex e => e.message
  | parse e => e.message

def SourceError.offset? : SourceError → Option Nat
  | missingDelimiter _ => none
  | flag e => some e.offset
  | lex e => some e.offset
  | parse e => some e.offset

def BoundsError.message (e : BoundsError) : String :=
  "repetition bounds out of order: " ++ boundsInBraces e.min e.max

def Host.Construct.name : Host.Construct → String
  | lookaround => "lookaround"
  | backreference => "backreference"

/-- The wording, which the host itself has for what it refuses. -/
def Host.MatcherError.message? : Host.MatcherError → Option String
  | notARoot found => some ("the pattern root must be a RegExp node, found " ++ found.name)
  | unsupported c i => some (c.name ++ " (node " ++ Nat.repr i ++
      ") cannot be compiled by the host regex engine")
  | build => none
  | bounds e => some e.message

end RegexKit
