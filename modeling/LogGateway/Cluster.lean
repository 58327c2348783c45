/-
The cluster: the nodes under management, the ring that spreads keys over them, the epochs they reported,
and the bindings that keep keys where they are.
-/
import LogGateway.Cluster.Bindings
import LogGateway.Cluster.Node

namespace LogGateway

structure Cluster where
  /-- The managed nodes by name. -/
  members : Std.TreeMap String Node
  ring : Ring Node
  /-- The last epoch reported for each managed node that reported one. -/
  epochs : Std.TreeMap String UInt64
  /-- The upper median of the reported epochs as of the last time it was taken. -/
  midEpoch : UInt64
  bindings : Bindings
  closures : Closures
  /-- The serial number of the next node to join. -/
  nextSerial : Nat

namespace Cluster

def empty (placement : Placement) (bindings : Bindings) : Cluster :=
  ⟨∅, .empty placement, ∅, 0, bindings, .empty, 0⟩

/-- The node at a URL, if it is managed. -/
def get? (cluster : Cluster) (url : String) : Option Node := cluster.members[nodeName url]?

/-- The managed nodes in the order of their names. -/
def toList (cluster : Cluster) : List Node := cluster.members.values

/-- The names of the managed nodes in order. -/
def names (cluster : Cluster) : List String := cluster.members.keys

def size (cluster : Cluster) : Nat := cluster.members.size

def isEmpty (cluster : Cluster) : Bool := cluster.members.isEmpty

/-- Takes the node at a URL under management, unless one of its name is. -/
def add (cluster : Cluster) (url : String) : Cluster :=
  if cluster.members.contains (nodeName url) then cluster
  else
    let node := Node.make url cluster.nextSerial
    { cluster with
      members := cluster.members.insert (nodeName url) node
      ring := cluster.ring.add node
      nextSerial := cluster.nextSerial + 1 }

/-- The cluster of the nodes at these URLs; of spellings of one name the first counts. -/
def ofUrls (placement : Placement) (bindings : Bindings) (urls : List String) : Cluster :=
  urls.foldl add (empty placement bindings)

/-- The upper median of epochs, or zero if there are none. -/
def upperMedian (epochs : List UInt64) : UInt64 :=
  let sorted := epochs.mergeSort fun a b => a ≤ b
  sorted[sorted.length / 2]?.getD 0

/-- The median without the epoch of a name. It is taken again only if the name had one. -/
def midWithout (cluster : Cluster) (name : String) : UInt64 :=
  if cluster.epochs.contains name then upperMedian (cluster.epochs.erase name).values else cluster.midEpoch

/-- Closes the node at a URL and lets it go, with the epoch it reported. -/
def remove (cluster : Cluster) (url : String) : Cluster :=
  let name := nodeName url
  match cluster.members[name]? with
  | none => cluster
  | some node =>
    { cluster with
      members := cluster.members.erase name
      ring := cluster.ring.remove name
      epochs := cluster.epochs.erase name
      midEpoch := cluster.midWithout name
      closures := cluster.closures.close node }

/-- Notes the epoch of a managed node; an unmanaged one is ignored. -/
def reportEpoch (cluster : Cluster) (url : String) (epoch : UInt64) : Cluster :=
  let name := nodeName url
  if cluster.members.contains name then
    { cluster with
      epochs := cluster.epochs.insert name epoch
      midEpoch := upperMedian (cluster.epochs.insert name epoch).values }
  else cluster

/-- The last epoch reported for the node at a URL. -/
def nodeEpoch? (cluster : Cluster) (url : String) : Option UInt64 := cluster.epochs[nodeName url]?

/-- Whether a node was closed. -/
def isClosed (cluster : Cluster) (node : Node) : Bool := cluster.closures.isClosed node

/-- The node that a key is routed to. A bound key goes to the managed node of the bound name and nowhere
else; any other key follows the ring and is bound. -/
def distribute (cluster : Cluster) (key : ByteArray) : Option Node × Cluster :=
  let hash := cluster.ring.placement.hash key
  match cluster.bindings.get? hash with
  | some name => (cluster.members[name]?, cluster)
  | none =>
    match cluster.ring.locate key with
    | none => (none, cluster)
    | some node => (some node, { cluster with bindings := cluster.bindings.put hash node.name })

/-- The URL that a key is routed to, empty if there is none. -/
def route (cluster : Cluster) (key : ByteArray) : String × Cluster :=
  let (node, cluster) := cluster.distribute key
  ((node.map Node.url).getD "", cluster)

end Cluster

end LogGateway
