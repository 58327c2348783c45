/-
Event logs, as nodes report them and as the store keeps them. The stored form has four topic slots and no
mark of removal; what it gives back is the log up to its first empty slot.
-/
import LogGateway.Chain.Block

namespace LogGateway

/-- An event log. -/
structure Log where
  address : Address
  topics : List Hash
  data : List UInt8
  blockHash : Hash
  blockNumber : UInt64
  transactionHash : Hash
  transactionIndex : UInt64
  logIndex : UInt64
  removed : Bool
  deriving DecidableEq, Repr

/-- The values before the first missing one. -/
def untilMissing {α : Type} : List (Option α) → List α
  | some a :: rest => a :: untilMissing rest
  | _ => []

/-- A log as the store keeps it. -/
structure StoredLog where
  blockNumber : UInt64
  blockHash : Hash
  transactionHash : Hash
  transactionIndex : UInt64
  logIndex : UInt64
  address : Address
  slots : Vector (Option Hash) 4
  data : List UInt8
  deriving DecidableEq, Repr

namespace StoredLog

/-- The stored form of a log. Topics after the fourth are dropped. -/
def ofLog (log : Log) : StoredLog where
  blockNumber := log.blockNumber
  blockHash := log.blockHash
  transactionHash := log.transactionHash
  transactionIndex := log.transactionIndex
  logIndex := log.logIndex
  address := log.address
  slots := Vector.ofFn fun i => log.topics[i.val]?
  data := log.data

/-- The topics up to the first empty slot. -/
def topics (log : StoredLog) : List Hash := untilMissing log.slots.toList

/-- The log that the stored form gives back. -/
def toLog (log : StoredLog) : Log where
  address := log.address
  topics := log.topics
  data := log.data
  blockHash := log.blockHash
  blockNumber := log.blockNumber
  transactionHash := log.transactionHash
  transactionIndex := log.transactionIndex
  logIndex := log.logIndex
  removed := false

end StoredLog

end LogGateway
