import Rill.Text.Blank
import Rill.Text.Case
import Rill.Text.Letter
import Rill.Text.Numeral
import Rill.Text.Quoted
import Rill.Number.Format
import Rill.Number.Reading
import Rill.Position
import Rill.Token.Lexeme
import Rill.Token.Lexer
import Rill.Syntax.Dump
import Rill.Grammar.Program
import Rill.Fault
import Rill.Fields
import Rill.Heap.Frames
import Rill.Matching
import Rill.Operation
import Rill.Module
import Rill.State
import Rill.Caught
import Rill.Files.Tree
import Rill.Main
import Rill.Proofs.Ordinary
import Rill.Proofs.Parts
import Rill.Proofs.Related
import Rill.Proofs.Related.Call
import Rill.Proofs.Related.Statement
import Rill.Proofs.Related.Engine
import Rill.Proofs.Depth
import Rill.Proofs.Kept
import Rill.Proofs.Visit
import Rill.Proofs.Confined
import Rill.Proofs.Confined.Evaluation
import Rill.Proofs.Bookkeeping
import Rill.Proofs.Raised
import Rill.Proofs.Backtrace
import Rill.Proofs.Transparency
import Rill.Proofs.Ends
import Rill.Proofs.Termination
import Rill.Proofs.CallGate
import Rill.Proofs.Endless
import Rill.Proofs.Passes
import Rill.Proofs.Events
import Rill.Proofs.Budget
import Rill.Proofs.Frames
import Rill.Proofs.Outward
import Rill.Proofs.Keeping
import Rill.Proofs.Scope
import Rill.Proofs.Via
import Rill.Proofs.Super
import Rill.Proofs.Barring
import Rill.Proofs.Bindings
import Rill.Proofs.Outside
import Rill.Proofs.Constants
import Rill.Proofs.Isolation
import Rill.Proofs.Modules
import Rill.Proofs.Imports
import Rill.Proofs.FrameTrees
import Rill.Proofs.Signals
import Rill.Proofs.Concatenation
import Rill.Proofs.Respelling
import Rill.Proofs.Pointing.Statement
import Rill.Proofs.Progress.Statement
import Rill.Proofs.Patterns
import Rill.Proofs.Holes
import Rill.Proofs.Guards
import Rill.Proofs.Climbing
import Rill.Proofs.Comments
import Rill.Proofs.Inheritance
import Rill.Proofs.PartialCalls
import Rill.Proofs.CompoundAssign
import Rill.Proofs.Indexing
import Rill.Proofs.Slices
import Rill.Proofs.RelativeImports
import Rill.Proofs.Separation
import Rill.Proofs.NumericKeys
import Rill.Proofs.Normalization
import Rill.Proofs.Signs
import Rill.Proofs.LimiterHistory
import Rill.Proofs.Rendering
