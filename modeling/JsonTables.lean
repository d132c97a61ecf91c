import JsonTables.Main
import JsonTables.Proofs.Aggregates
import JsonTables.Proofs.Binary64.Decimal
import JsonTables.Proofs.Binary64.Rounding
import JsonTables.Proofs.Buckets
import JsonTables.Proofs.Entries
import JsonTables.Proofs.Evaluation
import JsonTables.Proofs.Expr.RoundTrip
import JsonTables.Proofs.Grammar
import JsonTables.Proofs.Group
import JsonTables.Proofs.Join
import JsonTables.Proofs.Statement.Complete
import JsonTables.Proofs.Statement.Exact
import JsonTables.Proofs.Statement.Expressions
import JsonTables.Proofs.Statement.Readings
import JsonTables.Proofs.Statement.RoundTrip
import JsonTables.Proofs.Statement.Sound
import JsonTables.Proofs.Token.Lexing
import JsonTables.Proofs.Token.Numbers
import JsonTables.Proofs.Value.Order
import JsonTables.Proofs.Order
import JsonTables.Proofs.Query.Order
import JsonTables.Proofs.Window
import JsonTables.Proofs.Query.Projection
import JsonTables.Proofs.Query.SortColumn
import JsonTables.Proofs.Calls
import JsonTables.Proofs.Qualified
import JsonTables.Proofs.Value.Comparison
import JsonTables.Proofs.Provenance
import JsonTables.Proofs.Expr.Names
import JsonTables.Proofs.Query.Windows
import JsonTables.Proofs.Text.Trim
import JsonTables.Proofs.Numeral
import JsonTables.Proofs.Value.Key
import JsonTables.Proofs.Token.Spelling
import JsonTables.Proofs.Token.Scanning
import JsonTables.Proofs.TopLevel
import JsonTables.Proofs.Statement.Hinted
import JsonTables.Proofs.Hint
import JsonTables.Proofs.Statement.Gaps
import JsonTables.Proofs.Statement.Pieces
import JsonTables.Proofs.Script
import JsonTables.Proofs.Console.Script
import JsonTables.Proofs.Query.Check
import JsonTables.Proofs.Query.Registries
import JsonTables.Proofs.Regrouping
import JsonTables.Proofs.Function.OfGroup
import JsonTables.Proofs.Ends
import JsonTables.Proofs.Function.Faults
import JsonTables.Proofs.Query.Faults
import JsonTables.Proofs.Console.Faults
import JsonTables.Proofs.Statement.HintList
import JsonTables.Proofs.Query.Hints
import JsonTables.Proofs.Json.Strings
import JsonTables.Proofs.Json.Numbers
import JsonTables.Proofs.Json.RoundTrip
import JsonTables.Proofs.Dataset.Load
import JsonTables.Proofs.Query.Results
import JsonTables.Proofs.Console.Session
import JsonTables.Proofs.Value.Canonical
import JsonTables.Proofs.Query.Distinct
import JsonTables.Proofs.Dataset.Tables
import JsonTables.Proofs.Query.Refusals
import JsonTables.Proofs.Query.Star
import JsonTables.Proofs.Token.Places
import JsonTables.Proofs.Clause.Located
import JsonTables.Proofs.Statement.Clauses
import JsonTables.Proofs.Statement.Viable
import JsonTables.Proofs.Statement.SyntaxErrors
import JsonTables.Proofs.Expr.Unknown
import JsonTables.Proofs.Query.Warnings
import JsonTables.Proofs.Binary64.Remainder
import JsonTables.Proofs.Expr.Remainder
import JsonTables.Proofs.Expr.Comparisons
import JsonTables.Proofs.Function.Extremes
import JsonTables.Proofs.Script.Continues
import JsonTables.Proofs.Text.Search
import JsonTables.Proofs.Text.Lower
import JsonTables.Proofs.Function.Position
import JsonTables.Proofs.Value.Text
import JsonTables.Proofs.Table.Grid
import JsonTables.Proofs.Table.Pager
import JsonTables.Proofs.Token.Literal
import JsonTables.Proofs.Query.Names
import JsonTables.Proofs.Token.Lines
import JsonTables.Proofs.Hint.Extraction
import JsonTables.Proofs.Binary64.Nearest
import JsonTables.Proofs.Numeral.Recognition
import JsonTables.Proofs.Numeral.Denotation
