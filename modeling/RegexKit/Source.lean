import RegexKit.Node.Parser

/-! Pattern sources. A pattern is written between slashes with its flags after the last
one, or given as a body and a flag text. Flags are read before the body. -/

namespace RegexKit

/-- Why a source has no tree. -/
inductive SourceError
  | missingDelimiter (source : Text)
  | flag (e : FlagError)
  | lex (e : LexError)
  | parse (e : ParseError)
  deriving DecidableEq, Repr

namespace Source

/-- The body and the flag text of a delimited source: it begins with a slash, and its last
slash, which is another one, ends the body. -/
def split : Text → Except SourceError (Text × Text)
  | '/' :: t =>
    match Text.splitAtLast? '/' t with
    | some parts => .ok parts
    | none => .error (.missingDelimiter ('/' :: t))
  | t => .error (.missingDelimiter t)

/-- The root of a body with flags that are already read. -/
def parseBody (body : Text) (flags : Flags) : Except SourceError Node := do
  let tokens ← (Token.tokenize body).mapError .lex
  let tree ← (Parser.parseTokens tokens).mapError .parse
  return .regExp tree flags

/-- The root of a body and a flag text. -/
def parseWithFlags (body flags : Text) : Except SourceError Node := do
  parseBody body (← (Flags.parse flags).mapError .flag)

/-- The root of a delimited source. -/
def parse (source : Text) : Except SourceError Node := do
  let (body, flags) ← split source
  parseWithFlags body flags

end Source

end RegexKit
