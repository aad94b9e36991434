import Devicetree.Machine.Disk
import Devicetree.Main
import Devicetree.Proofs.Text.LineFeeds
import Devicetree.Proofs.Text.Trimming
import Devicetree.Proofs.Value.HexLiterals
import Devicetree.Proofs.Document.Canonical
import Devicetree.Proofs.Document.Enclosure
import Devicetree.Proofs.Document.Idempotence
import Devicetree.Proofs.Document.Reordering
import Devicetree.Proofs.Document.Contents
import Devicetree.Proofs.Source.Variants
import Devicetree.Proofs.Source.Separation
import Devicetree.Proofs.Document.Variants
import Devicetree.Proofs.Profile.Lookup
import Devicetree.Proofs.Profile.Effects
import Devicetree.Proofs.Blob.Flattening
import Devicetree.Proofs.Blob.Trees
import Devicetree.Proofs.Blob.Damage
import Devicetree.Proofs.Blob.PropertyLines
import Devicetree.Proofs.Command.Answers
import Devicetree.Proofs.Command.Checks
import Devicetree.Proofs.Command.Invocations
import Devicetree.Proofs.Command.Sides
import Devicetree.Proofs.Command.SavedRuns
import Devicetree.Proofs.Diff.Hunks
import Devicetree.Proofs.Diff.Patches
import Devicetree.Proofs.Source.Layouts
import Devicetree.Proofs.Document.Division
import Devicetree.Proofs.Source.Evening
import Devicetree.Proofs.Source.Literals
import Devicetree.Proofs.Value.HexValues
import Devicetree.Proofs.Source.NodeTrees
import Devicetree.Proofs.Document.Plans
import Devicetree.Proofs.Value.RuleOrder
import Devicetree.Proofs.Source.RecordEnds
import Devicetree.Proofs.Diff.Changes
import Devicetree.Proofs.Document.LineNumbers
import Devicetree.Proofs.Blob.Offsets
import Devicetree.Proofs.Blob.Walks
import Devicetree.Proofs.Command.Refreshing
import Devicetree.Proofs.Json.Limits
import Devicetree.Proofs.Profile.Loading
import Devicetree.Proofs.Source.Openings
