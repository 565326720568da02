import OpGraph.Binary64.Basic
import OpGraph.Binary64.Rounding
import OpGraph.Command.Arguments
import OpGraph.Command.Host
import OpGraph.Command.Run
import OpGraph.Command.Settings
import OpGraph.Container.Basic
import OpGraph.Container.Header
import OpGraph.Decimal.Layout
import OpGraph.Decimal.Shortest
import OpGraph.Digest.Sha256
import OpGraph.Edge.Basic
import OpGraph.Edge.Id
import OpGraph.Files.Error
import OpGraph.Files.Path
import OpGraph.Files.Tree
import OpGraph.Graph.Basic
import OpGraph.Graph.Builder
import OpGraph.Graph.Comparison
import OpGraph.Graph.EdgeIds
import OpGraph.Graph.Edit
import OpGraph.Graph.Error
import OpGraph.Graph.Fingerprint
import OpGraph.Graph.PortSpec
import OpGraph.Graph.Reachable
import OpGraph.Graph.Summary
import OpGraph.Graph.Text
import OpGraph.Graph.TopologicalOrder
import OpGraph.Graph.Validate
import OpGraph.Graph.WellFormed
import OpGraph.Hex
import OpGraph.Inference.Basic
import OpGraph.Json.Document
import OpGraph.Json.Extract
import OpGraph.Json.Numeral
import OpGraph.Json.Ordered
import OpGraph.Json.Value
import OpGraph.Json.Writer
import OpGraph.Main
import OpGraph.Node.Basic
import OpGraph.Node.Kind
import OpGraph.Node.Text
import OpGraph.Pass.Basic
import OpGraph.Pass.Cleanup
import OpGraph.Pass.Error
import OpGraph.Pass.FrontPhase
import OpGraph.Pass.Insertion
import OpGraph.Pass.RankDecomposition
import OpGraph.Pass.Report
import OpGraph.Pass.Stats
import OpGraph.Proofs.Acyclicity
import OpGraph.Proofs.ChainValues
import OpGraph.Proofs.Cleanup
import OpGraph.Proofs.ComparedValues
import OpGraph.Proofs.Comparison
import OpGraph.Proofs.Decomposition
import OpGraph.Proofs.Edits
import OpGraph.Proofs.Evaluation
import OpGraph.Proofs.FrontPhase
import OpGraph.Proofs.FrontPhaseOutcome
import OpGraph.Proofs.Histories
import OpGraph.Proofs.Insertion
import OpGraph.Proofs.JsonDocuments
import OpGraph.Proofs.JsonNumbers
import OpGraph.Proofs.JsonStrings
import OpGraph.Proofs.JsonTexts
import OpGraph.Proofs.MemberOrder
import OpGraph.Proofs.Pairing
import OpGraph.Proofs.Producers
import OpGraph.Proofs.Queries
import OpGraph.Proofs.RankPass
import OpGraph.Proofs.Reachability
import OpGraph.Proofs.Rebuilding
import OpGraph.Proofs.RecursiveEvaluation
import OpGraph.Proofs.Rewriting
import OpGraph.Proofs.Storage
import OpGraph.Proofs.StoredParts
import OpGraph.Proofs.TopologicalOrder
import OpGraph.Proofs.UnusedIds
import OpGraph.Tensor.Basic
import OpGraph.Tensor.ElementType
import OpGraph.Tensor.Text
import OpGraph.Toml.Document
import OpGraph.Toml.Item
import OpGraph.Toml.Lexeme
import OpGraph.Utf8
import OpGraph.Proofs.Expansion
import OpGraph.Proofs.MovedConsumers
import OpGraph.Proofs.RewriteOrder
import OpGraph.Proofs.Loading
import OpGraph.Proofs.SameStructure
import OpGraph.Proofs.StructuralEdits
import OpGraph.Proofs.CanonicalOrder
import OpGraph.Proofs.Substitution
import OpGraph.Proofs.PassBalance
import OpGraph.Proofs.RefusedCalls
import OpGraph.Proofs.StuckNodes
import OpGraph.Proofs.LiveNodes
import OpGraph.Proofs.CleanupBalance
import OpGraph.Proofs.MovedConnections
import OpGraph.Proofs.Removal
import OpGraph.Proofs.Sealing
import OpGraph.Proofs.Damage
import OpGraph.Proofs.RoundingIntervals
import OpGraph.Proofs.NumberTexts
import OpGraph.Proofs.CompactTexts
import OpGraph.Proofs.Fingerprints
import OpGraph.Proofs.MadeValues
import OpGraph.Proofs.TensorConstruction
import OpGraph.Proofs.Squeezing
import OpGraph.Proofs.ReportedShapes
import OpGraph.Proofs.SqueezedAxes
import OpGraph.Proofs.Catalog
import OpGraph.Proofs.PortTexts
import OpGraph.Proofs.Building
import OpGraph.Proofs.Summaries
import OpGraph.Proofs.BackwardSearch
