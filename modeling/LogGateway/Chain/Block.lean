/-
Blocks of the chain: their hashes, how a block is selected by number or by name, and the summary that
places a hash on the chain.
-/
import LogGateway.Bytes
import LogGateway.Number.Quantity

namespace LogGateway

/-- A block, transaction or topic hash. -/
abbrev Hash := Vector UInt8 32

/-- A contract address. -/
abbrev Address := Vector UInt8 20

/-- The hexadecimal form of a byte string of fixed length. -/
def hexText {n : Nat} (bytes : Vector UInt8 n) : String := Hex.text bytes.toList

/-- The hash that a text gives in hexadecimal. -/
def Hash.read (s : String) : Except HexFault Hash := Hex.readExact 32 (Utf8.encode s)

/-- The names of blocks that move as the chain grows. -/
inductive BlockTag where
  | earliest
  | latest
  | safe
  | finalized
  | pending
  deriving DecidableEq, Repr

def BlockTag.text : BlockTag → String
  | .earliest => "earliest"
  | .latest => "latest"
  | .safe => "safe"
  | .finalized => "finalized"
  | .pending => "pending"

/-- All block names. -/
def BlockTag.all : List BlockTag := [.earliest, .latest, .safe, .finalized, .pending]

/-- The block name written so. -/
def BlockTag.ofText? (s : String) : Option BlockTag := BlockTag.all.find? fun tag => tag.text = s

/-- One end of a block range. -/
inductive BlockSelector where
  | number (n : UInt64)
  | tag (name : BlockTag)
  deriving DecidableEq, Repr

namespace BlockSelector

/-- The block number, if it is one. -/
def number? : BlockSelector → Option UInt64
  | .number n => some n
  | .tag _ => none

def text : BlockSelector → String
  | .number n => Quantity.text n
  | .tag name => name.text

/-- Reads a block name or a quantity. -/
def read (s : String) : Except QuantityFault BlockSelector :=
  match BlockTag.ofText? s with
  | some name => .ok (.tag name)
  | none => (Quantity.read s).map .number

end BlockSelector

/-- A block's place on the chain. -/
structure BlockSummary where
  hash : Hash
  number : UInt64
  parentHash : Hash
  deriving DecidableEq, Repr

end LogGateway
