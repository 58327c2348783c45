import LogGateway.Http.Response
import LogGateway.Json.Check
import LogGateway.Main
import LogGateway.Query.Script
import LogGateway.Proofs.Query.Rounds
import LogGateway.Proofs.OrderedMap
import LogGateway.Proofs.Ring.Claims
import LogGateway.Proofs.Ring.Lookup
import LogGateway.Proofs.Ring.Holdings
import LogGateway.Proofs.Ring.Labels
import LogGateway.Proofs.Chain.Matching
import LogGateway.Proofs.Chain.StoredForm
import LogGateway.Proofs.Chain.Range
import LogGateway.Proofs.Query.Boundary
import LogGateway.Proofs.Store.Changes
import LogGateway.Proofs.Store.Contiguous
import LogGateway.Proofs.Query.Attempt
import LogGateway.Proofs.Store.Appending
import LogGateway.Proofs.Query.Moving
import LogGateway.Proofs.Query.BlockHash
import LogGateway.Proofs.Query.Endings
import LogGateway.Proofs.Query.FirstBlock
import LogGateway.Proofs.Cluster.Replicas
import LogGateway.Proofs.Cluster.Sticky
import LogGateway.Proofs.Cluster.Shrinking
import LogGateway.Proofs.Cluster.Epochs
import LogGateway.Proofs.Json.Grammar
import LogGateway.Proofs.Json.Objects
import LogGateway.Proofs.Json.Members
import LogGateway.Proofs.Json.Local
import LogGateway.Proofs.Json.Closing
import LogGateway.Proofs.Json.Integers
import LogGateway.Proofs.Wire.RoundTrip
import LogGateway.Proofs.Wire.Filters
import LogGateway.Proofs.Rpc.Replies
import LogGateway.Proofs.Settings
import LogGateway.Proofs.Cluster.Configured
import LogGateway.Proofs.Chain.Splitting
import LogGateway.Proofs.Store.Finding
import LogGateway.Proofs.Query.Bounded
import LogGateway.Proofs.Query.Counting
import LogGateway.Proofs.Cluster.Routing
import LogGateway.Proofs.Cluster.Printed
import LogGateway.Proofs.Cluster.Draining
import LogGateway.Proofs.Cluster.Visit
import LogGateway.Proofs.CommandLine.Environment
import LogGateway.Proofs.Chain.StoredMatching
import LogGateway.Proofs.Chain.Selectors
import LogGateway.Proofs.Cluster.Spreading
import LogGateway.Proofs.Wire.Lines
import LogGateway.Proofs.Gateway.Fetching
