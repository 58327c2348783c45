/-
The distribution report: how many of a series of sample keys each node gets, one row for each URL in
order, and how many keys go nowhere.
-/
import LogGateway.Cluster
import LogGateway.Number.Binary64

namespace LogGateway

/-- How sample keys spread. -/
structure Spread where
  /-- The keys that each URL got. -/
  counts : Std.TreeMap String Nat
  unrouted : Nat

namespace Spread

/-- No keys yet; every managed node has a row. -/
def start (cluster : Cluster) : Spread where
  counts := cluster.toList.foldl (fun counts node => counts.insert node.url 0) ∅
  unrouted := 0

/-- With one more key, routed to `node`. -/
def count (spread : Spread) (node : Option Node) : Spread :=
  match node with
  | some node => { spread with counts := spread.counts.alter node.url fun n => some (n.getD 0 + 1) }
  | none => { spread with unrouted := spread.unrouted + 1 }

/-- The sample key of that number. -/
def sampleKey (i : Nat) : ByteArray := s!"sample-{i}".toUTF8

/-- Routes this many sample keys, one after another. -/
def sample (cluster : Cluster) (samples : Nat) : Spread × Cluster :=
  Nat.fold samples
    (fun i _ (spread, cluster) =>
      let (node, cluster) := cluster.distribute (sampleKey i)
      (spread.count node, cluster))
    (start cluster, cluster)

/-- A text with blanks before it up to that width. -/
def padLeft (width : Nat) (text : String) : String :=
  String.ofList (List.replicate (width - text.length) ' ') ++ text

/-- What percentage `count` is of `samples`, with two places. -/
def share (count samples : Nat) : String :=
  let percent :=
    if samples = 0 then 0.0 else count.toUInt64.toFloat * 100.0 / samples.toUInt64.toFloat
  (Number.Binary64.ofFloat percent).twoPlaces

/-- A row of the report. -/
def row (samples : Nat) (url : String) (count : Nat) : String :=
  s!"{padLeft 8 (toString count)} {padLeft 6 (share count samples)}%  {url}\n"

/-- The report. -/
def text (spread : Spread) (samples : Nat) : String :=
  let rows := spread.counts.toList.map fun (url, count) => row samples url count
  let rest :=
    if spread.unrouted = 0 then ""
    else s!"{padLeft 8 (toString spread.unrouted)}          (no node available)\n"
  String.join rows ++ rest

end Spread

end LogGateway
