/-
The log store: a gap-free run of blocks with the logs of each, and a version that counts the
reorganisations applied. Appending leaves the version; dropping blocks raises it.
-/
import LogGateway.Chain.Filter
import LogGateway.Error
import Std.Data.TreeMap

namespace LogGateway

structure Store where
  /-- The logs of each block, in the order of their index. -/
  blocks : Std.TreeMap UInt64 (List StoredLog)
  /-- How many reorganisations were applied. -/
  version : UInt64

namespace Store

def empty : Store := ⟨∅, 0⟩

/-- The highest stored block. -/
def highest? (store : Store) : Option UInt64 := store.blocks.maxKey?

/-- How many blocks are stored. -/
def blockCount (store : Store) : Nat := store.blocks.size

/-- Logs in the order of their index; logs of equal index keep their order. -/
def sortLogs (logs : List StoredLog) : List StoredLog :=
  logs.mergeSort fun a b => a.logIndex ≤ b.logIndex

/-- Stores a block, which replaces one of the same number. It may not lie more than one above the
highest; the number after the last one is zero. -/
def persist (store : Store) (block : UInt64) (logs : List StoredLog) : Except StoreFault Store :=
  let stored : Store := { store with blocks := store.blocks.insert block (sortLogs logs) }
  match store.highest? with
  | none => .ok stored
  | some highest =>
    if highest + 1 < block then .error (.gap block highest) else .ok stored

/-- Drops the blocks from `first` on and raises the version. -/
def reorg (store : Store) (first : UInt64) : Store where
  blocks := store.blocks.filter fun block _ => block < first
  version := store.version + 1

/-- The stored logs that satisfy a filter, by block and then by index. -/
def query (store : Store) (filter : StoreFilter) : List StoredLog :=
  let blocks := store.blocks.toList.filter fun (block, _) => filter.first ≤ block && block ≤ filter.last
  (blocks.flatMap fun (_, logs) => logs).filter filter.accept

end Store

end LogGateway
