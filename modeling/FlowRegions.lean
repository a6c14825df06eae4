import FlowRegions.Main
import FlowRegions.Shell.Machine
import FlowRegions.Proofs.Description.Validity
import FlowRegions.Proofs.Dot.ClusterTree
import FlowRegions.Proofs.Dot.SameShape
import FlowRegions.Proofs.Dot.EdgeSection
import FlowRegions.Proofs.Dot.AcceptedTree
import FlowRegions.Proofs.Shell.PrintEffects
import FlowRegions.Proofs.Shell.DotEffects
import FlowRegions.Proofs.Description.Documents
import FlowRegions.Proofs.Shell.FailedLoading
import FlowRegions.Proofs.Shell.PrintStatus
import FlowRegions.Proofs.Region.Laminar
import FlowRegions.Proofs.Cfg.History
import FlowRegions.Proofs.Dot.ClusterLines
import FlowRegions.Proofs.Dot.WiredClusters
import FlowRegions.Proofs.Region.Editing
import FlowRegions.Proofs.Dot.Undisturbed
import FlowRegions.Proofs.Shell.Passes
import FlowRegions.Proofs.Shell.SameDrawings
import FlowRegions.Proofs.Dot.LabelUnits
import FlowRegions.Proofs.Dot.HeaderEdges
import FlowRegions.Proofs.Region.Containment
import FlowRegions.Proofs.Description.Selection
import FlowRegions.Proofs.Dot.LabelLines
import FlowRegions.Proofs.Sexp.Joining
import FlowRegions.Proofs.Description.Appending
import FlowRegions.Proofs.Description.RegionForms
import FlowRegions.Proofs.Description.Reordering
import FlowRegions.Proofs.Dot.HiddenNodes
import FlowRegions.Proofs.Dot.LabelJoints
import FlowRegions.Proofs.Region.EdgeCut
import FlowRegions.Proofs.Region.Intervals
