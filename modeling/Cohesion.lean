/-
Cohesion: modules from the coupling of classes.
-/
import Cohesion.Json.Equality
import Cohesion.Main
import Cohesion.Proofs.Coupling.PairSum
import Cohesion.Proofs.Coupling.Weights
import Cohesion.Proofs.Clustering.BestPair
import Cohesion.Proofs.Clustering.Linkage
import Cohesion.Proofs.Coupling.Build
import Cohesion.Proofs.Clustering.PlainLinkage
import Cohesion.Proofs.Clustering.TreeShape
import Cohesion.Proofs.Clustering.Cut
import Cohesion.Proofs.Clustering.Accounting
import Cohesion.Proofs.Clustering.Components
import Cohesion.Proofs.Clustering.Traffic
import Cohesion.Proofs.Clustering.Exactness
import Cohesion.Proofs.Coupling.Acceptance
import Cohesion.Proofs.Number.Quotient
import Cohesion.Proofs.Clustering.Extension
import Cohesion.Proofs.Clustering.Scaling
import Cohesion.Proofs.Clustering.Bystander
import Cohesion.Proofs.Clustering.UnitOrder
import Cohesion.Proofs.Resolution.Calls
import Cohesion.Proofs.Files.PathText
import Cohesion.Proofs.Indexing.Completion
import Cohesion.Proofs.CallGraph.Entries
import Cohesion.Proofs.Coupling.Rejection
import Cohesion.Proofs.CallGraph.Documents
import Cohesion.Proofs.Text.Utf8
import Cohesion.Proofs.Json.Limits
import Cohesion.Proofs.CommandLine.Faults
import Cohesion.Proofs.Java.Layout
import Cohesion.Proofs.Clustering.Inversions
import Cohesion.Proofs.Clustering.Selection
import Cohesion.Proofs.Clustering.Accesses
import Cohesion.Proofs.Resolution.WrittenTypes
import Cohesion.Proofs.CallGraph.Reading
import Cohesion.Proofs.Clustering.Capacity
import Cohesion.Proofs.Resolution.Preference
import Cohesion.Proofs.Resolution.Superclasses
import Cohesion.Proofs.Resolution.Newcomer
import Cohesion.Proofs.Resolution.InheritedFields
import Cohesion.Proofs.Resolution.NestedClasses
import Cohesion.Proofs.Resolution.LocalVariables
import Cohesion.Proofs.Resolution.MethodCalls
import Cohesion.Proofs.Java.LocalTypes
import Cohesion.Proofs.Indexing.Spelling
import Cohesion.Proofs.Files.Location
import Cohesion.Proofs.Configuration.Loading
import Cohesion.Proofs.Clustering.Slots
import Cohesion.Proofs.Report.Rankings
import Cohesion.Proofs.CommandLine.Precedence
import Cohesion.Proofs.Json.Strings
import Cohesion.Proofs.Json.Numbers
import Cohesion.Proofs.Json.Letters
import Cohesion.Proofs.Json.RoundTrip
import Cohesion.Proofs.Report.Decoding
import Cohesion.Proofs.Clustering.DoubleLoop
