import ModuleRecovery.CallGraph
import ModuleRecovery.ClassModel
import ModuleRecovery.ClassModel.Document
import ModuleRecovery.Cluster
import ModuleRecovery.Cohesion
import ModuleRecovery.Command.Line
import ModuleRecovery.Command.Options
import ModuleRecovery.Coupling
import ModuleRecovery.Decimal.Binary
import ModuleRecovery.Decimal.Layout
import ModuleRecovery.Decimal.Reader
import ModuleRecovery.Decimal.Shortest
import ModuleRecovery.Dendrogram
import ModuleRecovery.Engine
import ModuleRecovery.Engine.Error
import ModuleRecovery.Identification
import ModuleRecovery.Json.Number
import ModuleRecovery.Json.Parser
import ModuleRecovery.Json.Reader
import ModuleRecovery.Json.Record
import ModuleRecovery.Json.SignatureText
import ModuleRecovery.Json.Skip
import ModuleRecovery.Json.Text
import ModuleRecovery.Json.Value
import ModuleRecovery.Linkage
import ModuleRecovery.Main
import ModuleRecovery.Report
import ModuleRecovery.Report.Terminal
import ModuleRecovery.Resolution
import ModuleRecovery.Score
import ModuleRecovery.Session
import ModuleRecovery.Signature
import ModuleRecovery.TestCode
import ModuleRecovery.Text.Blank
import ModuleRecovery.Text.CharClass
import ModuleRecovery.Text.DecimalDigit
import ModuleRecovery.Text.Lowercase
import ModuleRecovery.Text.Numeral
import ModuleRecovery.Text.Utf8
import ModuleRecovery.ToolServer
import ModuleRecovery.ToolServer.Message
import ModuleRecovery.Web.MediaType
import ModuleRecovery.Web.Query
import ModuleRecovery.Web.Router
import ModuleRecovery.Proofs.Dendrogram.Run
import ModuleRecovery.Proofs.Dendrogram.Partition
import ModuleRecovery.Proofs.Score.Order
import ModuleRecovery.Proofs.Score.Rounding
import ModuleRecovery.Proofs.Score.Magnitude
import ModuleRecovery.Proofs.Dendrogram.Greedy
import ModuleRecovery.Proofs.Coupling.Counting
import ModuleRecovery.Proofs.Session.Freshness
import ModuleRecovery.Proofs.Score.Rational
import ModuleRecovery.Proofs.Dendrogram.Monotone
import ModuleRecovery.Proofs.Coupling.Invariance
import ModuleRecovery.Proofs.Score.Ranking
import ModuleRecovery.Proofs.Identification.Cache
import ModuleRecovery.Proofs.Identification.Thresholds
import ModuleRecovery.Proofs.Score.Positive
import ModuleRecovery.Proofs.Dendrogram.Components
import ModuleRecovery.Proofs.Coupling.Edges
import ModuleRecovery.Proofs.Coupling.Ranked
import ModuleRecovery.Proofs.Engine.Reachable
import ModuleRecovery.Proofs.Engine.CouplingViews
import ModuleRecovery.Proofs.Identification.Strict
import ModuleRecovery.Proofs.Engine.Strict
import ModuleRecovery.Proofs.Json.Scalars
import ModuleRecovery.Proofs.Json.Spelling
import ModuleRecovery.Proofs.Json.Reading
import ModuleRecovery.Proofs.Document.Signatures
import ModuleRecovery.Proofs.Document.RoundTrip
import ModuleRecovery.Proofs.Dendrogram.Numbering
import ModuleRecovery.Proofs.Identification.SharedCache
import ModuleRecovery.Proofs.Identification.Selection
import ModuleRecovery.Proofs.Coupling.Sums
import ModuleRecovery.Proofs.Score.Nearest
import ModuleRecovery.Proofs.Coupling.ExactRanking
import ModuleRecovery.Proofs.Dendrogram.Bystander
import ModuleRecovery.Proofs.Identification.Ceiling
import ModuleRecovery.Proofs.Lists
import ModuleRecovery.Proofs.CallGraph.History
import ModuleRecovery.Proofs.CallGraph.Numbered
import ModuleRecovery.Proofs.CallGraph.Capacity
import ModuleRecovery.Proofs.ClassModel.Collection
import ModuleRecovery.Proofs.Engine.Exclusion
import ModuleRecovery.Proofs.Resolution.Search
import ModuleRecovery.Proofs.Resolution.Strict
import ModuleRecovery.Proofs.Identification.Laminar
import ModuleRecovery.Proofs.Signature.Grammar
import ModuleRecovery.Proofs.TestCode.Packages
import ModuleRecovery.Proofs.Dendrogram.Tree
