import TemplateExpr.Double.Bits
import TemplateExpr.Options.Reader
import TemplateExpr.Template.Engine
import TemplateExpr.Proofs.Grammar.Derivation
import TemplateExpr.Proofs.Grammar.Nested
import TemplateExpr.Proofs.Grammar.Sound
import TemplateExpr.Proofs.Grammar.Complete
import TemplateExpr.Proofs.Grammar.Reading
import TemplateExpr.Proofs.Nesting.Height
import TemplateExpr.Proofs.Token.Spaced
import TemplateExpr.Proofs.Nesting.Highest
import TemplateExpr.Proofs.Nesting.Limit
import TemplateExpr.Proofs.Nesting.Recursion
import TemplateExpr.Proofs.Nesting.Cut
import TemplateExpr.Proofs.Host.Closure
import TemplateExpr.Proofs.Host.Recording
import TemplateExpr.Proofs.Host.Check
import TemplateExpr.Proofs.Host.Provenance
import TemplateExpr.Proofs.Scope.Effective
import TemplateExpr.Proofs.Scope.SameRun
import TemplateExpr.Proofs.Template.Decomposition
import TemplateExpr.Proofs.Template.Execution
import TemplateExpr.Proofs.Template.Sources
import TemplateExpr.Proofs.Decimal.Rounding
import TemplateExpr.Proofs.Decimal.Written
import TemplateExpr.Proofs.Value.Coercion
import TemplateExpr.Proofs.Value.Visible
import TemplateExpr.Proofs.Scope.Similar
import TemplateExpr.Proofs.Template.Hidden
import TemplateExpr.Proofs.Template.Checks
import TemplateExpr.Proofs.Template.Overlooked
import TemplateExpr.Proofs.Template.Sequence
import TemplateExpr.Proofs.Grammar.Maximal
import TemplateExpr.Proofs.Grammar.Offending
import TemplateExpr.Proofs.Grammar.Printed
import TemplateExpr.Proofs.Grammar.Called
import TemplateExpr.Proofs.Token.Lexeme
import TemplateExpr.Proofs.Token.Tiling
import TemplateExpr.Proofs.Token.Separated
import TemplateExpr.Proofs.Token.Escapes
import TemplateExpr.Proofs.Expr.Nodes
import TemplateExpr.Proofs.Expr.Visits
import TemplateExpr.Proofs.Host.Calls
import TemplateExpr.Proofs.Value.Equality
import TemplateExpr.Proofs.Expr.Normal
import TemplateExpr.Proofs.Expr.Exact
import TemplateExpr.Proofs.Expr.Offsets
import TemplateExpr.Proofs.Double.Order
import TemplateExpr.Proofs.Value.Equivalence
import TemplateExpr.Proofs.Text.Order
import TemplateExpr.Proofs.Value.Relational
import TemplateExpr.Proofs.Decimal.Value
import TemplateExpr.Proofs.Decimal.Shortest
import TemplateExpr.Proofs.Decimal.Layout
import TemplateExpr.Proofs.Value.NumberText
import TemplateExpr.Proofs.Value.Spelled
import TemplateExpr.Proofs.Value.Interchange
import TemplateExpr.Proofs.Value.OwnProperty
import TemplateExpr.Proofs.Walk.Tokens
