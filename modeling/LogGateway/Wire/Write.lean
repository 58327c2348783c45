/-
The JSON forms of filters, logs and block summaries, as they travel between the gateway and a node. Bounds
and lists that ask nothing are left out of a filter.
-/
import LogGateway.Chain.Filter
import LogGateway.Json.Write

namespace LogGateway.Wire

open LogGateway.Json

/-- A byte string as a text. -/
def bytes (data : List UInt8) : List Char := Write.text (Hex.chars data)

/-- A hash or address as a text. -/
def fixed {n : Nat} (data : Vector UInt8 n) : List Char := bytes data.toList

/-- A number as a text. -/
def quantity (n : UInt64) : List Char := Write.text (Quantity.chars n)

/-- A block selector as a text. -/
def selector (s : BlockSelector) : List Char := Write.text s.text.toList

/-- What is asked of one topic. -/
def criterion (c : TopicCriterion) : List Char :=
  Write.optional (c.map fun hashes => Write.list (hashes.map fixed))

/-- What is asked of the topics. -/
def topics (criteria : List TopicCriterion) : List Char := Write.list (criteria.map criterion)

/-- The members that give a filter's blocks. -/
def selectionMembers : Selection → List (String × List Char)
  | .block hash => [("blockHash", fixed hash)]
  | .range first last =>
    (first.map fun s => ("fromBlock", selector s)).toList
      ++ (last.map fun s => ("toBlock", selector s)).toList

/-- The members that give a filter's criteria. -/
def criteriaMembers (criteria : Criteria) : List (String × List Char) :=
  (if criteria.addresses.isEmpty then []
    else [("address", Write.list (criteria.addresses.map fixed))])
    ++ (if criteria.topics.isEmpty then [] else [("topics", topics criteria.topics)])

/-- A filter. -/
def filter (f : LogFilter) : List Char :=
  Write.object (selectionMembers f.selection ++ criteriaMembers f.criteria)

/-- A log. -/
def log (l : Log) : List Char :=
  Write.object
    [("address", fixed l.address),
     ("topics", Write.list (l.topics.map fixed)),
     ("data", bytes l.data),
     ("blockHash", fixed l.blockHash),
     ("blockNumber", quantity l.blockNumber),
     ("transactionHash", fixed l.transactionHash),
     ("transactionIndex", quantity l.transactionIndex),
     ("logIndex", quantity l.logIndex),
     ("removed", Write.boolean l.removed)]

/-- A list of logs. -/
def logs (ls : List Log) : List Char := Write.list (ls.map log)

/-- A block summary. -/
def summary (b : BlockSummary) : List Char :=
  Write.object
    [("hash", fixed b.hash),
     ("number", quantity b.number),
     ("parentHash", fixed b.parentHash)]

end LogGateway.Wire
