import RegexKit.Error
import RegexKit.Flags
import RegexKit.Host.Matcher
import RegexKit.Json
import RegexKit.Linear.Engine
import RegexKit.Match.Outcomes
import RegexKit.Node.Descent
import RegexKit.Node.Json
import RegexKit.Node.Parser
import RegexKit.Node.Printer
import RegexKit.Optimizer
import RegexKit.Optimizer.Json
import RegexKit.Session
import RegexKit.Source
import RegexKit.Token.Lexer
import RegexKit.Walk.Script
import RegexKit.Proofs.Match.Algebra
import RegexKit.Proofs.Optimizer.Rules
import RegexKit.Proofs.Node.Members
import RegexKit.Proofs.Optimizer.ClassMembers
import RegexKit.Proofs.Optimizer.Meaning
import RegexKit.Proofs.Grammar.Classes
import RegexKit.Proofs.Grammar.Completeness
import RegexKit.Proofs.Grammar.Soundness
import RegexKit.Proofs.Token.Escapes
import RegexKit.Proofs.Token.Characters
import RegexKit.Proofs.Token.Braces
import RegexKit.Proofs.Token.Produced
import RegexKit.Proofs.Printing.AsRead
import RegexKit.Proofs.Printing.Tokens
import RegexKit.Proofs.Printing.Printable
import RegexKit.Proofs.Printing.Splits
import RegexKit.Proofs.Printing.Reparse
import RegexKit.Proofs.Printing.Lexed
import RegexKit.Proofs.Printing.RoundTrip
import RegexKit.Proofs.Optimizer.Readable
import RegexKit.Proofs.Optimizer.Canonical
import RegexKit.Proofs.Optimizer.Weight
import RegexKit.Proofs.Walk.Places
import RegexKit.Proofs.Optimizer.Fixpoint
import RegexKit.Proofs.Walk.History
import RegexKit.Proofs.Walk.Bookkeeping
import RegexKit.Proofs.Token.Octal
import RegexKit.Proofs.Printing.Members
import RegexKit.Proofs.Printing.ClassText
import RegexKit.Proofs.Optimizer.Shown
import RegexKit.Proofs.Optimizer.Stable
import RegexKit.Proofs.Grammar.Blame
import RegexKit.Proofs.Token.Spelling
import RegexKit.Proofs.Host.Sets
import RegexKit.Proofs.Host.Dialect
import RegexKit.Proofs.Host.Operators
import RegexKit.Proofs.Printing.Acceptance
import RegexKit.Proofs.Optimizer.Growth
import RegexKit.Proofs.Token.Tiling
import RegexKit.Proofs.Optimizer.ClassOrder
import RegexKit.Proofs.Grammar.Operands
import RegexKit.Proofs.Printing.Numbered
import RegexKit.Proofs.Printing.Operands
import RegexKit.Proofs.Walk.Observing
import RegexKit.Proofs.Host.Support
import RegexKit.Proofs.Host.Matching
import RegexKit.Proofs.Grammar.Brackets
import RegexKit.Proofs.Grammar.Dashes
import RegexKit.Proofs.Optimizer.References
import RegexKit.Proofs.Optimizer.Bounds
import RegexKit.Proofs.Session
import RegexKit.Proofs.Walk.Simulation
import RegexKit.Proofs.Walk.RootRemoval
import RegexKit.Proofs.Walk.Scripted
import RegexKit.Proofs.Walk.Passes
import RegexKit.Proofs.Walk.Stopping
import RegexKit.Proofs.Token.Denotation
import RegexKit.Proofs.Token.Faults
import RegexKit.Proofs.Token.Quantifiers
import RegexKit.Proofs.Grammar.Prefixes
import RegexKit.Proofs.Node.Json
