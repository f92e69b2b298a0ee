import LetDef.Analysis.Basic
import LetDef.Analysis.Expression
import LetDef.Analysis.Fault
import LetDef.Analysis.Listing
import LetDef.Analysis.Program
import LetDef.Analysis.Statement
import LetDef.CommandLine.Outcome
import LetDef.CommandLine.Request
import LetDef.CommandLine.Service
import LetDef.CommandLine.Word
import LetDef.Execution.Basic
import LetDef.Execution.Evaluation
import LetDef.Execution.Fault
import LetDef.Execution.Operator
import LetDef.Execution.Program
import LetDef.Host
import LetDef.Keyword
import LetDef.Main
import LetDef.Number.Decimal
import LetDef.Number.Digits
import LetDef.Number.Division
import LetDef.Parser.Basic
import LetDef.Parser.Expression
import LetDef.Parser.Fault
import LetDef.Parser.Literal
import LetDef.Parser.Program
import LetDef.Parser.Slot
import LetDef.Parser.Statement
import LetDef.Pipeline
import LetDef.Position
import LetDef.Proofs.Analysis.Completeness
import LetDef.Proofs.Analysis.Congruence
import LetDef.Proofs.Analysis.Expression
import LetDef.Proofs.Analysis.Footprint
import LetDef.Proofs.Analysis.Program
import LetDef.Proofs.Analysis.Step
import LetDef.Proofs.Binding
import LetDef.Proofs.Binding.Analysis
import LetDef.Proofs.Binding.Execution
import LetDef.Proofs.Binding.Invariant
import LetDef.Proofs.Binding.Origin
import LetDef.Proofs.Binding.Program
import LetDef.Proofs.Binding.Resolution
import LetDef.Proofs.Binding.Session
import LetDef.Proofs.Constants
import LetDef.Proofs.DepthGuard
import LetDef.Proofs.Execution.Conformance
import LetDef.Proofs.Execution.Congruence
import LetDef.Proofs.Execution.Footprint
import LetDef.Proofs.Execution.Invariant
import LetDef.Proofs.Execution.Journal
import LetDef.Proofs.Execution.Limits
import LetDef.Proofs.Execution.Native
import LetDef.Proofs.Execution.Order
import LetDef.Proofs.Execution.Preservation
import LetDef.Proofs.Execution.Program
import LetDef.Proofs.Execution.Simulation
import LetDef.Proofs.Execution.Step
import LetDef.Proofs.Lockstep
import LetDef.Proofs.LoopExpansion
import LetDef.Proofs.LoopExpansion.Analysis
import LetDef.Proofs.LoopExpansion.Execution
import LetDef.Proofs.LoopExpansion.Syntax
import LetDef.Proofs.MethodOrder
import LetDef.Proofs.NameLeaks
import LetDef.Proofs.Number.Division
import LetDef.Proofs.Number.Rational
import LetDef.Proofs.Parser.Completeness
import LetDef.Proofs.Parser.Grammar
import LetDef.Proofs.Parser.Reachable
import LetDef.Proofs.Parser.Soundness
import LetDef.Proofs.Phases
import LetDef.Proofs.Position.Analysis
import LetDef.Proofs.Position.Execution
import LetDef.Proofs.Position.Move
import LetDef.Proofs.Position.Parsing
import LetDef.Proofs.Reformatting
import LetDef.Proofs.ScopeTree
import LetDef.Proofs.ScopeTree.History
import LetDef.Proofs.Store.Chain
import LetDef.Proofs.Store.Closed
import LetDef.Proofs.Store.Keys
import LetDef.Proofs.Store.Layout
import LetDef.Proofs.Store.Similar
import LetDef.Proofs.Syntax.Slots
import LetDef.Proofs.Token.Segmentation
import LetDef.Proofs.Token.Separation
import LetDef.Proofs.TypeSafety
import LetDef.Report
import LetDef.Script
import LetDef.Session
import LetDef.Store.Basic
import LetDef.Store.NameError
import LetDef.Store.Scope
import LetDef.Store.Symbol
import LetDef.Syntax.Equality
import LetDef.Syntax.Node
import LetDef.Syntax.Numbering
import LetDef.Syntax.Outline
import LetDef.Syntax.Program
import LetDef.Text.Decoding
import LetDef.Text.Digit
import LetDef.Text.Distance
import LetDef.Text.Printable
import LetDef.Text.Quoted
import LetDef.Token
import LetDef.Token.Lexeme
import LetDef.Token.Scan
import LetDef.Ty
import LetDef.Value
import LetDef.Proofs.Number.Arithmetic
import LetDef.Proofs.Parser.Limits
import LetDef.Proofs.Parser.Lookahead
import LetDef.Proofs.ParseErrors
import LetDef.Proofs.Parser.LiteralText
import LetDef.Proofs.QuotedLiterals
import LetDef.Proofs.Number.Text
import LetDef.Proofs.NumberLiterals
import LetDef.Proofs.Decorations
import LetDef.Proofs.Analysis.Prefix
import LetDef.Proofs.CleanPrefix
import LetDef.Proofs.Outline.Data
import LetDef.Proofs.Outline.Nodes
import LetDef.Proofs.Outline.Layout
import LetDef.Proofs.Outline.Parsed
import LetDef.Proofs.FaithfulOutline
import LetDef.Proofs.Text.Edits
import LetDef.Proofs.EditDistance
import LetDef.Proofs.KeywordCorrections
import LetDef.Proofs.Suggestions
import LetDef.Proofs.Syntax.Twins
import LetDef.Proofs.Analysis.Twins
import LetDef.Proofs.Syntax.Equality
import LetDef.Proofs.StructuralEquality
