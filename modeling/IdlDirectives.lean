import IdlDirectives.Command.Folder
import IdlDirectives.Main
import IdlDirectives.Proofs.Check.Verdict
import IdlDirectives.Proofs.Expression.Language
import IdlDirectives.Proofs.Pass.Declarations
import IdlDirectives.Proofs.Pass.SharedNodes
import IdlDirectives.Proofs.Pass.Coverage
import IdlDirectives.Proofs.Json.Numbers
import IdlDirectives.Proofs.Json.Strings
import IdlDirectives.Proofs.Json.Values
import IdlDirectives.Proofs.Format.Codec
import IdlDirectives.Proofs.Format.Annotations
import IdlDirectives.Proofs.Format.Types
import IdlDirectives.Proofs.Format.Compilation
import IdlDirectives.Proofs.Format.Depth
import IdlDirectives.Proofs.Command.Annotate
import IdlDirectives.Proofs.Directive
import IdlDirectives.Proofs.Rule.Interleaving
import IdlDirectives.Proofs.Check.Merge
import IdlDirectives.Proofs.Command.Path
import IdlDirectives.Proofs.Types.Resolution
import IdlDirectives.Proofs.Expression.Errors
import IdlDirectives.Proofs.Pass.Locality
import IdlDirectives.Proofs.Command.Outcome
import IdlDirectives.Proofs.Command.Folder
import IdlDirectives.Proofs.Expression.Listing
import IdlDirectives.Proofs.Rule.Parameters
import IdlDirectives.Proofs.Rule.Pieces
import IdlDirectives.Proofs.Rule.Unrecognized
import IdlDirectives.Proofs.Rule.NameLists
import IdlDirectives.Proofs.Rule.Conflicts
import IdlDirectives.Proofs.Rule.Interval
import IdlDirectives.Proofs.Rule.Rejections
import IdlDirectives.Proofs.Rule.Filing
import IdlDirectives.Proofs.Rule.SearchPaths
import IdlDirectives.Proofs.Expression.Progress
import IdlDirectives.Proofs.Expression.Flags
import IdlDirectives.Proofs.Check.Aliases
import IdlDirectives.Proofs.Types.History
import IdlDirectives.Proofs.Report.Quoted
import IdlDirectives.Proofs.Report.Legible
import IdlDirectives.Proofs.Report.Log
