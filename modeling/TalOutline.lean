import TalOutline.Disk.Tree
import TalOutline.Editor.Message
import TalOutline.Main
import TalOutline.Proofs.Tree.Descent
import TalOutline.Proofs.Keyword.Junction
import TalOutline.Proofs.Comment.Bracketed
import TalOutline.Proofs.Outline.Extent
import TalOutline.Proofs.Outline.Tiling
import TalOutline.Proofs.Outline.OwnLines
import TalOutline.Proofs.Outline.Wellformed
import TalOutline.Proofs.Outline.Visits
import TalOutline.Proofs.Outline.Nodes
import TalOutline.Proofs.Outline.Headings
import TalOutline.Proofs.Outline.Coverage
import TalOutline.Proofs.Outline.Locality
import TalOutline.Proofs.Outline.Sources
import TalOutline.Proofs.Fold.Matching
import TalOutline.Proofs.Fold.Passes
import TalOutline.Proofs.Fold.Nesting
import TalOutline.Proofs.Fold.CommentRuns
import TalOutline.Proofs.Fold.Bodies
import TalOutline.Proofs.Fold.Toggles
import TalOutline.Proofs.Fold.ToggleIds
import TalOutline.Proofs.Scanner.Kept
import TalOutline.Proofs.Scanner.Cancelled
import TalOutline.Proofs.Scanner.Requests
import TalOutline.Proofs.Scanner.Memory
import TalOutline.Proofs.Scanner.Narrowing
import TalOutline.Proofs.Editor.Replies
import TalOutline.Proofs.Editor.InFlight
import TalOutline.Proofs.Keyword.Segments
import TalOutline.Proofs.Keyword.Runs
import TalOutline.Proofs.Comment.Pieces
import TalOutline.Proofs.Comment.Quoted
import TalOutline.Proofs.Declaration.Grammar
import TalOutline.Proofs.Directive.Grammar
import TalOutline.Proofs.Comment.Trailing
import TalOutline.Proofs.Case.Line
import TalOutline.Proofs.Case.Document
import TalOutline.Proofs.Declaration.Live
import TalOutline.Proofs.Json.Grammar
import TalOutline.Proofs.Json.Reader
import TalOutline.Proofs.Outline.MainPart
import TalOutline.Proofs.Json.Printing
import TalOutline.Proofs.Report.Records
import TalOutline.Proofs.Outline.Labels
import TalOutline.Proofs.Report.Rows
import TalOutline.Proofs.Document.Breaks
import TalOutline.Proofs.Editor.Conversion
import TalOutline.Proofs.Disk.Parent
import TalOutline.Proofs.Disk.Walk
import TalOutline.Proofs.Report.Outcome
import TalOutline.Proofs.Settings.Decoding
import TalOutline.Proofs.Settings.Counterpart
import TalOutline.Proofs.Cache.History
import TalOutline.Proofs.Pattern.Basic
import TalOutline.Proofs.Pattern.Comments
import TalOutline.Proofs.Pattern.Declarations
import TalOutline.Proofs.Pattern.Directives
import TalOutline.Proofs.Pattern.Keywords
