/-
What can be wrong with a JSON text: it is malformed, it ends too early, or it is well formed so far and
holds something other than what was wanted. Only the last kind has a message.
-/
import LogGateway.Bytes
import LogGateway.Number.Binary64
import LogGateway.Number.Quantity

namespace LogGateway.Json

/-- What stands where something else was wanted. -/
inductive Found where
  | null
  | boolean (value : Bool)
  | whole (value : Int)
  | real (value : Number.Binary64)
  | text (value : String)
  | sequence
  | map
  deriving DecidableEq, Repr

def Found.describe : Found → String
  | .null => "null"
  | .boolean true => "boolean `true`"
  | .boolean false => "boolean `false`"
  | .whole n => s!"integer `{n}`"
  | .real x => s!"floating point `{x.shortestText}`"
  | .text s => s!"string {Text.quoted s}"
  | .sequence => "sequence"
  | .map => "map"

/-- How a well-formed part differs from what was wanted. -/
inductive Mismatch where
  | kind (found : Found) (wanted : String)
  | value (found : Found) (wanted : String)
  | length (count : Nat) (wanted : String)
  | missing (field : String)
  | repeated (field : String)
  | hex (fault : HexFault)
  | quantity (raw : String) (fault : QuantityFault)
  deriving DecidableEq, Repr

def Mismatch.message : Mismatch → String
  | .kind found wanted => s!"invalid type: {found.describe}, expected {wanted}"
  | .value found wanted => s!"invalid value: {found.describe}, expected {wanted}"
  | .length count wanted => s!"invalid length {count}, expected {wanted}"
  | .missing field => s!"missing field `{field}`"
  | .repeated field => s!"duplicate field `{field}`"
  | .hex fault => fault.message
  | .quantity raw fault => fault.message raw

/-- Why a JSON text is refused. -/
inductive Fault where
  | malformed
  | truncated
  | mismatch (cause : Mismatch)
  deriving DecidableEq, Repr

end LogGateway.Json
