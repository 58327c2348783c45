/-
Log filters: which blocks they cover, and what they ask of a log's address and topics. A filter of the
store covers a range of block numbers.
-/
import LogGateway.Chain.Log

namespace LogGateway

/-- Which blocks a filter covers: one by its hash, or a range whose ends may be left to the node. -/
inductive Selection where
  | block (hash : Hash)
  | range (first last : Option BlockSelector)
  deriving DecidableEq, Repr

/-- What is asked of a topic: nothing, or to be one of a list. -/
abbrev TopicCriterion := Option (List Hash)

/-- What a filter asks of a log besides its block. No addresses means any address. -/
structure Criteria where
  addresses : List Address
  topics : List TopicCriterion
  deriving DecidableEq, Repr

/-- Whether topics meet the criteria at their positions. An empty list asks nothing; a list that asks
something is not met by a missing topic. -/
def topicsMatch : List TopicCriterion → List Hash → Bool
  | [], _ => true
  | none :: criteria, topics => topicsMatch criteria topics.tail
  | some [] :: criteria, topics => topicsMatch criteria topics.tail
  | some (_ :: _) :: _, [] => false
  | some (a :: as) :: criteria, topic :: topics =>
    (a :: as).contains topic && topicsMatch criteria topics

/-- Whether an address and topics meet the criteria. -/
def Criteria.accept (criteria : Criteria) (address : Address) (topics : List Hash) : Bool :=
  (criteria.addresses.isEmpty || criteria.addresses.contains address)
    && topicsMatch criteria.topics topics

/-- A filter as clients pose it. -/
structure LogFilter where
  selection : Selection
  criteria : Criteria
  deriving DecidableEq, Repr

/-- The same criteria over another range. -/
def LogFilter.withRange (filter : LogFilter) (first : BlockSelector) (last : Option BlockSelector) :
    LogFilter :=
  { filter with selection := .range (some first) last }

/-- A filter over the blocks from `first` to `last`. -/
structure StoreFilter where
  first : UInt64
  last : UInt64
  criteria : Criteria
  deriving DecidableEq, Repr

/-- Whether a stored log satisfies the filter. -/
def StoreFilter.accept (filter : StoreFilter) (log : StoredLog) : Bool :=
  filter.first ≤ log.blockNumber && log.blockNumber ≤ filter.last
    && filter.criteria.accept log.address log.topics

end LogGateway
