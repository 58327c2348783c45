/-
What can go wrong with a query or a configuration, and the messages that say so. Failures of transport
and of reply texts are told by their kind alone.
-/
import LogGateway.Chain.Block
import LogGateway.Json.Fault

namespace LogGateway

/-- Why the store refuses or fails. -/
inductive StoreFault where
  /-- The block is not next to the highest stored one. -/
  | gap (block highest : UInt64)
  | other (message : String)
  deriving DecidableEq, Repr

def StoreFault.message : StoreFault → String
  | .gap block highest => s!"block {block} would leave a gap after {highest}"
  | .other message => message

/-- Which setting has a bad value. -/
inductive ConfigFault where
  | timeout (raw : String)
  | repartition (raw : String)
  | other (message : String)
  deriving DecidableEq, Repr

def ConfigFault.message : ConfigFault → String
  | .timeout raw => s!"GET_LOGS_TIMEOUT_MS must be milliseconds, got {Text.quoted raw}"
  | .repartition raw => s!"HASH_RING_REPARTITION must be true/false, got {Text.quoted raw}"
  | .other message => message

inductive Error where
  | unknownBlock (hash : Hash)
  | reorgTimeout
  | deadlineExceeded
  | store (fault : StoreFault)
  | fullNode (message : String)
  /-- The transport failed, or the reply had this status. -/
  | http (status : Option Nat)
  | rpc (code : Int64) (message : String)
  | json (fault : Json.Fault)
  | config (fault : ConfigFault)
  deriving DecidableEq, Repr

namespace Error

def message : Error → String
  | .unknownBlock hash => s!"unknown block {hexText hash}"
  | .reorgTimeout => "get logs timed out: reorg version kept changing"
  | .deadlineExceeded => "get logs deadline exceeded"
  | .store fault => s!"Store error: {fault.message}"
  | .fullNode message => s!"Full node error: {message}"
  | .http _ => "HTTP error"
  | .rpc code message => s!"RPC error {code}: {message}"
  | .json _ => "JSON error"
  | .config fault => s!"Configuration error: {fault.message}"

/-- Whether time ran out. -/
def isTimeout : Error → Bool
  | .reorgTimeout => true
  | .deadlineExceeded => true
  | _ => false

end Error

end LogGateway
