import DotLang.Main
import DotLang.Proofs.Cursor
import DotLang.Proofs.Token.Trivia
import DotLang.Proofs.Token.Layout
import DotLang.Proofs.Grammar.Completeness
import DotLang.Proofs.Parser.Progress
import DotLang.Proofs.Grammar.Soundness
import DotLang.Proofs.Grammar.Uniqueness
import DotLang.Proofs.Grammar.Acceptance
import DotLang.Proofs.Parser.Braces
import DotLang.Proofs.Parser.Nesting
import DotLang.Proofs.Parser.Recovery
import DotLang.Proofs.Registry.Forest
import DotLang.Proofs.AttributeTable
import DotLang.Proofs.Partition
import DotLang.Proofs.Registry.Change
import DotLang.Proofs.Registry.Growth
import DotLang.Proofs.Registry.Scoping
import DotLang.Proofs.Registry.Linking
import DotLang.Proofs.Registry.Tables
import DotLang.Proofs.Registry.Built
import DotLang.Proofs.Parser.Values
import DotLang.Proofs.Token.Markup
import DotLang.Proofs.Token.Quoting
import DotLang.Proofs.Dot.Derivation
import DotLang.Proofs.Dot.Numbering
import DotLang.Proofs.Dot.Copy
import DotLang.Proofs.Dot.Step
import DotLang.Proofs.Dot.Run
import DotLang.Proofs.Dot.Isomorphism
import DotLang.Proofs.Dot.RoundTrip
import DotLang.Proofs.Registry.Chronicle
import DotLang.Proofs.Registry.ScopeRules
import DotLang.Proofs.Registry.Reachable
import DotLang.Proofs.Route.Correctness
import DotLang.Proofs.SpanningForest.Correctness
import DotLang.Proofs.Partition.Classes
import DotLang.Proofs.Partition.Ranks
import DotLang.Proofs.Registry.InStep
import DotLang.Proofs.Registry.Apart
import DotLang.Proofs.Registry.Strictness
import DotLang.Proofs.Route.Layers
import DotLang.Proofs.Parser.Limit
import DotLang.Proofs.Token.ReadBack
import DotLang.Proofs.Registry.Shadowing
import DotLang.Proofs.AttributeTable.History
import DotLang.Proofs.Registry.Csv
import DotLang.Proofs.Parser.Places
import DotLang.Proofs.Reader.Calls
import DotLang.Proofs.Route.EqualWeights
import DotLang.Proofs.SpanningForest.Idempotence
import DotLang.Proofs.SpanningForest.Ties
import DotLang.Proofs.Parser.Resumption
import DotLang.Proofs.Registry.Traversal
import DotLang.Proofs.Registry.Persistence
import DotLang.Proofs.Registry.Reopening
import DotLang.Proofs.Registry.Chains
import DotLang.Proofs.Registry.Inside
import DotLang.Proofs.Registry.FanOut
import DotLang.Proofs.Registry.Surroundings
import DotLang.Proofs.CommandLine.Lookup
import DotLang.Proofs.Registry.Warnings
import DotLang.Proofs.Token.Division
import DotLang.Proofs.Token.Marks
import DotLang.Proofs.Registry.DebugTrace
import DotLang.Proofs.Registry.InRange
