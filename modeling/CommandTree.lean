import CommandTree.Main
import CommandTree.Diagnostic.Label
import CommandTree.Json.Reader
import CommandTree.Tree.Alias
import CommandTree.Proofs.Format.Formatting
import CommandTree.Proofs.Parsing.TreeShape
import CommandTree.Proofs.Diagnostics.Placement
import CommandTree.Proofs.Diagnostics.DamagedSources
import CommandTree.Proofs.Diagnostics.EarliestToken
import CommandTree.Proofs.Types.NumberRanges
import CommandTree.Proofs.Types.Precedence
import CommandTree.Proofs.Parsing.DepthLimit
import CommandTree.Proofs.Layout.Independence
import CommandTree.Proofs.Format.Drafts
import CommandTree.Proofs.Diagnostics.UnreadInput
import CommandTree.Proofs.Session.ReadFailures
import CommandTree.Proofs.Stream.Counting
import CommandTree.Proofs.Types.OwnWords
import CommandTree.Proofs.Types.Declarations
import CommandTree.Proofs.Comparison.ShownDifferences
import CommandTree.Proofs.Session.CheckedFiles
import CommandTree.Proofs.Format.Quoting
import CommandTree.Proofs.Lexis.Joining
import CommandTree.Proofs.Diagnostics.Labels
import CommandTree.Proofs.Diagnostics.EarlierPlaces
import CommandTree.Proofs.Trees.Paths
import CommandTree.Proofs.Trees.Serialization
import CommandTree.Proofs.Trees.Aliases
import CommandTree.Proofs.Types.IntegerBounds
import CommandTree.Proofs.Files.PathOrder
import CommandTree.Proofs.Files.Collecting
import CommandTree.Proofs.Types.KeyForms
import CommandTree.Proofs.Source.ReaderCalls
import CommandTree.Proofs.Source.FailedCalls
import CommandTree.Proofs.Parsing.Progress
