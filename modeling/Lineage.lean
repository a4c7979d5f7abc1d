import Lineage.Bag
import Lineage.Changes
import Lineage.CodeTree
import Lineage.Codec
import Lineage.CommandLine
import Lineage.Comparison
import Lineage.Config
import Lineage.Decimal
import Lineage.Disk
import Lineage.Error
import Lineage.JavaScript.Declaration
import Lineage.JavaScript.Outline
import Lineage.JavaScript.SyntaxTree
import Lineage.Json.Lexeme
import Lineage.Json.Record
import Lineage.Json.Text
import Lineage.Json.Value
import Lineage.Location
import Lineage.Main
import Lineage.Matching
import Lineage.Name
import Lineage.Path
import Lineage.Program
import Lineage.Proofs.Accounting
import Lineage.Proofs.Ancestry
import Lineage.Proofs.BagRuns
import Lineage.Proofs.Bags
import Lineage.Proofs.BuilderRuns
import Lineage.Proofs.CallEdges
import Lineage.Proofs.ClosedForm
import Lineage.Proofs.Confirmation
import Lineage.Proofs.Construction
import Lineage.Proofs.Copies
import Lineage.Proofs.DirectoryTrees
import Lineage.Proofs.Entries
import Lineage.Proofs.Erasure
import Lineage.Proofs.ExactWeights
import Lineage.Proofs.Exhaustion
import Lineage.Proofs.Explanations
import Lineage.Proofs.Faults
import Lineage.Proofs.Filing
import Lineage.Proofs.Finding
import Lineage.Proofs.Formatting
import Lineage.Proofs.Formulas
import Lineage.Proofs.Frequencies
import Lineage.Proofs.JavaScript.Acceptance
import Lineage.Proofs.JavaScript.CallResolution
import Lineage.Proofs.JavaScript.CommentFree
import Lineage.Proofs.JavaScript.Comments
import Lineage.Proofs.JavaScript.Composition
import Lineage.Proofs.JavaScript.Extent
import Lineage.Proofs.JavaScript.FilePairing
import Lineage.Proofs.JavaScript.Laminarity
import Lineage.Proofs.JavaScript.Listing
import Lineage.Proofs.JavaScript.Nesting
import Lineage.Proofs.JavaScript.Outlines
import Lineage.Proofs.JavaScript.Positions
import Lineage.Proofs.JavaScript.Recognition
import Lineage.Proofs.JavaScript.Snapshots
import Lineage.Proofs.JavaScript.Tokenization
import Lineage.Proofs.JavaScript.Walk
import Lineage.Proofs.JoinedPaths
import Lineage.Proofs.JsonText
import Lineage.Proofs.Justification
import Lineage.Proofs.Juxtaposition
import Lineage.Proofs.LastItem
import Lineage.Proofs.Loading
import Lineage.Proofs.MovedCode
import Lineage.Proofs.NameDepth
import Lineage.Proofs.Namesakes
import Lineage.Proofs.NoChanges
import Lineage.Proofs.Outcomes
import Lineage.Proofs.Paths
import Lineage.Proofs.Placement
import Lineage.Proofs.PreOrder
import Lineage.Proofs.ReadingOnce
import Lineage.Proofs.Reportable
import Lineage.Proofs.Reporting
import Lineage.Proofs.Resemblance
import Lineage.Proofs.RoundTrip
import Lineage.Proofs.Saturation
import Lineage.Proofs.ScoreLaws
import Lineage.Proofs.Scoring
import Lineage.Proofs.Segments
import Lineage.Proofs.SelfComparison
import Lineage.Proofs.Tokenless
import Lineage.Proofs.Typing
import Lineage.Proofs.Windows
import Lineage.Relationship
import Lineage.Report
import Lineage.Similarity
import Lineage.Similarity.Profile
import Lineage.Similarity.Ratio
import Lineage.Snapshot
import Lineage.Table
import Lineage.Text.Casing
import Lineage.Text.CharWidth
import Lineage.Text.Emoji
import Lineage.Text.Ligature
import Lineage.Text.Runs
import Lineage.Text.Utf8
import Lineage.Text.Width
import Lineage.Token
import Lineage.View
