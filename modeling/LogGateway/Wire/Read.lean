/-
Reading logs, block selectors and block summaries from their JSON forms.
-/
import LogGateway.Chain.Filter
import LogGateway.Json.Record

namespace LogGateway.Wire

open LogGateway.Json

/-- Reads a number written as a quantity. -/
def readQuantity : Reader UInt64 :=
  parsed fun raw => (Quantity.read raw).mapError (.quantity raw)

/-- Reads a block selector. -/
def readSelector : Reader BlockSelector :=
  parsed fun raw => (BlockSelector.read raw).mapError (.quantity raw)

/-- The fields of a log. -/
inductive LogField where
  | address
  | topics
  | data
  | blockHash
  | blockNumber
  | transactionHash
  | transactionIndex
  | logIndex
  | removed
  deriving DecidableEq, Repr

namespace LogField

def name : LogField → String
  | .address => "address"
  | .topics => "topics"
  | .data => "data"
  | .blockHash => "blockHash"
  | .blockNumber => "blockNumber"
  | .transactionHash => "transactionHash"
  | .transactionIndex => "transactionIndex"
  | .logIndex => "logIndex"
  | .removed => "removed"

/-- What a field holds. -/
abbrev Value : LogField → Type
  | .address => Address
  | .topics => List Hash
  | .data => List UInt8
  | .blockHash => Hash
  | .blockNumber => UInt64
  | .transactionHash => Hash
  | .transactionIndex => UInt64
  | .logIndex => UInt64
  | .removed => Bool

def read : (f : LogField) → Reader f.Value
  | .address => fixedBytes 20
  | .topics => list (fixedBytes 32)
  | .data => anyBytes
  | .blockHash => fixedBytes 32
  | .blockNumber => readQuantity
  | .transactionHash => fixedBytes 32
  | .transactionIndex => readQuantity
  | .logIndex => readQuantity
  | .removed => boolean

/-- A log that does not say so is not removed; nothing else may be left out. -/
def leftOut : (f : LogField) → Option f.Value
  | .removed => some false
  | _ => none

end LogField

/-- Logs as records. -/
def logRecord : Record LogField where
  title := "Log"
  fields :=
    [.address, .topics, .data, .blockHash, .blockNumber, .transactionHash, .transactionIndex,
      .logIndex, .removed]
  all_mem := by intro f; cases f <;> simp
  name := LogField.name
  Value := LogField.Value
  read := LogField.read
  absent := LogField.leftOut
  cutOff := LogField.leftOut

/-- The log with these fields. -/
def logOfFields (v : logRecord.Fields) : Log where
  address := v .address
  topics := v .topics
  data := v .data
  blockHash := v .blockHash
  blockNumber := v .blockNumber
  transactionHash := v .transactionHash
  transactionIndex := v .transactionIndex
  logIndex := v .logIndex
  removed := v .removed

/-- Reads a log. -/
def readLog : Reader Log := logOfFields <$> logRecord.reader

/-- Reads a list of logs. -/
def readLogs : Reader (List Log) := list readLog

/-- The fields of a block summary. -/
inductive SummaryField where
  | hash
  | number
  | parentHash
  deriving DecidableEq, Repr

namespace SummaryField

def name : SummaryField → String
  | .hash => "hash"
  | .number => "number"
  | .parentHash => "parentHash"

/-- What a field holds. -/
abbrev Value : SummaryField → Type
  | .hash => Hash
  | .number => UInt64
  | .parentHash => Hash

def read : (f : SummaryField) → Reader f.Value
  | .hash => fixedBytes 32
  | .number => readQuantity
  | .parentHash => fixedBytes 32

end SummaryField

/-- Block summaries as records. -/
def summaryRecord : Record SummaryField where
  title := "BlockSummary"
  fields := [.hash, .number, .parentHash]
  all_mem := by intro f; cases f <;> simp
  name := SummaryField.name
  Value := SummaryField.Value
  read := SummaryField.read
  absent := fun _ => none
  cutOff := fun _ => none

/-- The block summary with these fields. -/
def summaryOfFields (v : summaryRecord.Fields) : BlockSummary where
  hash := v .hash
  number := v .number
  parentHash := v .parentHash

/-- Reads a block summary. -/
def readSummary : Reader BlockSummary := summaryOfFields <$> summaryRecord.reader

end LogGateway.Wire
