import NullabilityCasts.CastPass
import NullabilityCasts.ClassTable
import NullabilityCasts.ClassTable.Builder
import NullabilityCasts.ClassTable.Denotable
import NullabilityCasts.ClassTable.Mismatch
import NullabilityCasts.ClassTable.Pairing
import NullabilityCasts.ClassTable.Projection
import NullabilityCasts.ClassTable.Supertype
import NullabilityCasts.Conversion
import NullabilityCasts.Conversion.Arguments
import NullabilityCasts.Conversion.Walk
import NullabilityCasts.Decimal.Shortest
import NullabilityCasts.Diagnostic
import NullabilityCasts.Diagnostic.Render
import NullabilityCasts.Double
import NullabilityCasts.Error
import NullabilityCasts.Event
import NullabilityCasts.Expr
import NullabilityCasts.Expr.Same
import NullabilityCasts.Expr.Text
import NullabilityCasts.Json
import NullabilityCasts.Json.Expr
import NullabilityCasts.Json.Source
import NullabilityCasts.Json.Span
import NullabilityCasts.Json.Ty
import NullabilityCasts.Member
import NullabilityCasts.Pipeline
import NullabilityCasts.Pipeline.Normalization
import NullabilityCasts.Settings
import NullabilityCasts.Source.Layout
import NullabilityCasts.SourceUnit
import NullabilityCasts.Span
import NullabilityCasts.Stmt
import NullabilityCasts.Text.Blank
import NullabilityCasts.Text.Literal
import NullabilityCasts.Ty
import NullabilityCasts.Ty.Subst
import NullabilityCasts.Ty.Text
import NullabilityCasts.Unvisited
import NullabilityCasts.Violation
import NullabilityCasts.Proofs.Conversion.Failed
import NullabilityCasts.Proofs.Conversion.Parameters
import NullabilityCasts.Proofs.Conversion.Sites
import NullabilityCasts.Proofs.Conversion.CastSites
import NullabilityCasts.Proofs.Conversion.Decisions
import NullabilityCasts.Proofs.Conversion.Outcome
import NullabilityCasts.Proofs.CastPass.Rule
import NullabilityCasts.Proofs.ClassTable.Agreement
import NullabilityCasts.Proofs.CastPass.Placement
import NullabilityCasts.Proofs.CastPass.Rerun
import NullabilityCasts.Proofs.CastPass.OwnType
import NullabilityCasts.Proofs.Pipeline.Success
import NullabilityCasts.Proofs.Conversion.Stops
import NullabilityCasts.Proofs.Conversion.Contents
import NullabilityCasts.Proofs.Conversion.Calls
import NullabilityCasts.Proofs.Conversion.Follow
import NullabilityCasts.Proofs.Conversion.Frame
import NullabilityCasts.Proofs.CastPass.Strictness
import NullabilityCasts.Proofs.Pipeline.Modes
import NullabilityCasts.Proofs.Pipeline.Stages
import NullabilityCasts.Proofs.ClassTable.Building
import NullabilityCasts.Proofs.Json.Types
import NullabilityCasts.Proofs.Json.Trees
import NullabilityCasts.Proofs.Conversion.Reached
import NullabilityCasts.Proofs.ClassTable.Denotability
import NullabilityCasts.Proofs.ClassTable.LowerBounds
import NullabilityCasts.Proofs.CastPass.Totality
import NullabilityCasts.Proofs.Conversion.Reuse
import NullabilityCasts.Proofs.CastPass.Rows
import NullabilityCasts.Proofs.ClassTable.Flags
import NullabilityCasts.Proofs.ClassTable.Hierarchy
import NullabilityCasts.Proofs.Ty.Substitution
import NullabilityCasts.Proofs.ClassTable.Instantiation
import NullabilityCasts.Proofs.ClassTable.Correspondence
import NullabilityCasts.Proofs.ClassTable.Projection
import NullabilityCasts.Proofs.ClassTable.Climb
import NullabilityCasts.Proofs.ClassTable.Nesting
import NullabilityCasts.Proofs.Depth
import NullabilityCasts.Proofs.ClassTable.Termination
import NullabilityCasts.Proofs.ClassTable.Marks
import NullabilityCasts.Proofs.Text.Escapes
import NullabilityCasts.Proofs.Source.OneLine
import NullabilityCasts.Proofs.Source.Pieces
import NullabilityCasts.Proofs.Expr.AsRead
import NullabilityCasts.Proofs.Expr.Reader
import NullabilityCasts.Proofs.Expr.ReadBack
import NullabilityCasts.Proofs.Expr.Unambiguous
