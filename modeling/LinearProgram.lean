import LinearProgram.OrderedMap
import LinearProgram.Decimal.Binary64
import LinearProgram.Decimal.Basic
import LinearProgram.Decimal.Shortest
import LinearProgram.Decimal.Notation
import LinearProgram.Decimal.Literal
import LinearProgram.Text.Blank
import LinearProgram.Text.CaseTable
import LinearProgram.Text.Lowercase
import LinearProgram.Fingerprint
import LinearProgram.Action
import LinearProgram.Scalar
import LinearProgram.Relation
import LinearProgram.Sense
import LinearProgram.Status
import LinearProgram.Feature
import LinearProgram.ModelError
import LinearProgram.Variable
import LinearProgram.Registry
import LinearProgram.VariableSet
import LinearProgram.Term
import LinearProgram.Operand
import LinearProgram.Constraint
import LinearProgram.Model
import LinearProgram.Solution
import LinearProgram.Backend
import LinearProgram.Loader
import LinearProgram.LpText.Token
import LinearProgram.LpText.Section
import LinearProgram.LpText.Statement
import LinearProgram.LpText.ReadError
import LinearProgram.LpText.Symbols
import LinearProgram.LpText.Expression
import LinearProgram.LpText.ConstraintStatement
import LinearProgram.LpText.BoundStatement
import LinearProgram.LpText.Document
import LinearProgram.LpText.Writer
import LinearProgram.Path
import LinearProgram.Storage
import LinearProgram.FileTree
import LinearProgram.SolutionFile
import LinearProgram.Cache
import LinearProgram.Config
import LinearProgram.Toml.Value
import LinearProgram.Toml.Text
import LinearProgram.Toml.Document
import LinearProgram.ConfigFile
import LinearProgram.CommandLine.Arguments
import LinearProgram.CommandLine.Run
import LinearProgram.Main
import LinearProgram.Solver
import LinearProgram.Proofs.Binary64.Bits
import LinearProgram.Proofs.Binary64.Arithmetic
import LinearProgram.Proofs.Binary64.Comparison
import LinearProgram.Proofs.Binary64.Order
import LinearProgram.Proofs.Binary64.Rounding
import LinearProgram.Proofs.Binary64.Whole
import LinearProgram.Proofs.Binary64.Exact
import LinearProgram.Proofs.Binary64.Extended
import LinearProgram.Proofs.Decimal.Nearest
import LinearProgram.Proofs.Decimal.ReadBack
import LinearProgram.Proofs.Model.Collisions
import LinearProgram.Proofs.Model.Occurrence
import LinearProgram.Proofs.Model.Renaming
import LinearProgram.Proofs.Model.Construction
import LinearProgram.Proofs.Model.Domains
import LinearProgram.Proofs.Text.Spaced
import LinearProgram.Proofs.LpText.Names
import LinearProgram.Proofs.LpText.Words
import LinearProgram.Proofs.LpText.Sections
import LinearProgram.Proofs.LpText.Unambiguous.Terms
import LinearProgram.Proofs.LpText.Unambiguous.Constraints
import LinearProgram.Proofs.LpText.Unambiguous.Domains
import LinearProgram.Proofs.LpText.Unambiguous.Models
import LinearProgram.Proofs.LpText.Unambiguous.Listings
import LinearProgram.Proofs.LpText.Reading.Tokens
import LinearProgram.Proofs.LpText.Reading.Items
import LinearProgram.Proofs.LpText.Reading.Headers
import LinearProgram.Proofs.LpText.Reading.Symbols
import LinearProgram.Proofs.LpText.Reading.Expressions
import LinearProgram.Proofs.LpText.Reading.Agreement
import LinearProgram.Proofs.LpText.Reading.Constraints
import LinearProgram.Proofs.LpText.Reading.Bounds
import LinearProgram.Proofs.LpText.Reading.Lines
import LinearProgram.Proofs.LpText.Reading.Settlement
import LinearProgram.Proofs.LpText.Reading.Documents
import LinearProgram.Proofs.LpText.Reading.Restoration
import LinearProgram.Proofs.LpText.Reading.RoundTrip
import LinearProgram.Proofs.LpText.Accepted.Names
import LinearProgram.Proofs.LpText.Accepted.Constraints
import LinearProgram.Proofs.LpText.Accepted.Documents
import LinearProgram.Proofs.LpText.Accepted.Guards
import LinearProgram.Proofs.LpText.Accepted.Rewriting
import LinearProgram.Proofs.LpText.Accounted.Passages
import LinearProgram.Proofs.LpText.Accounted.Outcomes
import LinearProgram.Proofs.LpText.Accounted.Declarations
import LinearProgram.Proofs.LpText.Accounted.Documents
import LinearProgram.Proofs.LpText.Expressible.Refusals
import LinearProgram.Proofs.LpText.Expressible.Forms
import LinearProgram.Proofs.LpText.Expressible.Models
import LinearProgram.Proofs.Solution.Vector
import LinearProgram.Proofs.Solution.Codec
import LinearProgram.Proofs.Solution.Torn
import LinearProgram.Proofs.Files.Laws
import LinearProgram.Proofs.Files.Tree
import LinearProgram.Proofs.Cache.ReadBack
import LinearProgram.Proofs.Cache.Beside
import LinearProgram.Proofs.Cache.BestOffer
import LinearProgram.Proofs.Solver.Admission
import LinearProgram.Proofs.Solver.Loading
import LinearProgram.Proofs.Solver.Solving
import LinearProgram.Proofs.Solver.Session
import LinearProgram.Proofs.Solver.UnambiguousNames
import LinearProgram.Proofs.Solver.Failures
import LinearProgram.Proofs.Solver.AlreadySolved
import LinearProgram.Proofs.Solver.Expressible
import LinearProgram.Proofs.Solver.Caching
import LinearProgram.Proofs.Cache.Incomplete
import LinearProgram.Proofs.Solver.Observation
import LinearProgram.Proofs.Solver.Calls
import LinearProgram.Proofs.Solver.Replay
import LinearProgram.Proofs.Solver.BestSolution
import LinearProgram.Proofs.Model.Composition
import LinearProgram.Proofs.Model.LinearForms
import LinearProgram.Proofs.Model.Meaning
import LinearProgram.Proofs.Model.Ranges
import LinearProgram.Proofs.Solver.Wrapping
import LinearProgram.Proofs.Fingerprint.Chunks
import LinearProgram.Proofs.Fingerprint.Lanes
import LinearProgram.Proofs.LpText.Canonical
import LinearProgram.Proofs.LpText.Rejected.Drafts
import LinearProgram.Proofs.LpText.Rejected.Statements
import LinearProgram.Proofs.LpText.Rejected.Traces
import LinearProgram.Proofs.LpText.Declared.Bounds
import LinearProgram.Proofs.LpText.Declared.Conflicts
import LinearProgram.Proofs.LpText.Declared.Directions
import LinearProgram.Proofs.LpText.Declared.Names
import LinearProgram.Proofs.LpText.Layout.Tokens
import LinearProgram.Proofs.LpText.Layout.Numbers
import LinearProgram.Proofs.LpText.Layout.Copies
import LinearProgram.Proofs.LpText.Layout.Lines
import LinearProgram.Proofs.LpText.Layout.Documents
import LinearProgram.Proofs.LpText.Grammar.Expressions
import LinearProgram.Proofs.LpText.Grammar.Values
import LinearProgram.Proofs.Loader.Search
import LinearProgram.Proofs.Solver.Settings
import LinearProgram.Proofs.LpText.Equality
import LinearProgram.Proofs.LpText.Located.Lines
import LinearProgram.Proofs.LpText.Located.Problems
