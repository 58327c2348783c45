/-
The gateway's settings, as the environment gives them. A variable whose value is no UTF-8 counts as unset.
A bad timeout or repartition flag is refused; a bad number of virtual nodes falls back to the default.
-/
import LogGateway.Bytes
import LogGateway.Cluster
import LogGateway.Digest
import LogGateway.Error

namespace LogGateway

/-- The raw values of the variables that are set. -/
abbrev Environment := String → Option (List UInt8)

/-- The value of a variable that is set to a text. -/
def Environment.text? (env : Environment) (name : String) : Option String :=
  (env name).bind Utf8.decode?

structure Settings where
  nodeUrls : List String
  /-- How long a log query may take, retries included. -/
  timeoutMs : UInt64
  /-- Whether keys stay with the node they were first routed to. -/
  repartition : Bool
  /-- How many points of the ring each node claims. -/
  virtualNodes : UInt64
  deriving DecidableEq, Repr

namespace Settings

def defaultVirtualNodes : UInt64 := 160

/-- No nodes, a minute for a query, no bindings. -/
def default : Settings := ⟨[], 60000, false, defaultVirtualNodes⟩

/-- Texts without the blanks around them, those left empty dropped. -/
def nonBlank (texts : List String) : List String :=
  (texts.map Text.trim).filter fun text => text ≠ ""

/-- The URLs in a list with commas between them. -/
def parseUrls (raw : String) : List String := nonBlank (Text.splitAt ',' raw)

/-- A decimal number with blanks allowed around it. -/
def parseNumber (raw : String) : Option UInt64 := Number.decimal? (Text.trim raw)

/-- The flag that one of the words for yes and no gives, in any case and with blanks around it. -/
def parseFlag (raw : String) : Option Bool :=
  let word := (Text.trim raw).map Char.toLower
  if ["1", "true", "yes", "on"].contains word then some true
  else if ["0", "false", "no", "off"].contains word then some false
  else none

/-- The number of virtual nodes that the environment gives. -/
def virtualNodesOf (env : Environment) : UInt64 :=
  match (env.text? "HASH_RING_VIRTUAL_NODES").bind parseNumber with
  | some n => if 0 < n then n else defaultVirtualNodes
  | none => defaultVirtualNodes

/-- The settings that the environment gives. -/
def ofEnvironment (env : Environment) : Except ConfigFault Settings := do
  let nodeUrls := ((env.text? "FULLNODE_URLS").map parseUrls).getD default.nodeUrls
  let timeoutMs ←
    match env.text? "GET_LOGS_TIMEOUT_MS" with
    | none => pure default.timeoutMs
    | some raw =>
      match parseNumber raw with
      | some ms => pure ms
      | none => throw (.timeout raw)
  let repartition ←
    match env.text? "HASH_RING_REPARTITION" with
    | none => pure default.repartition
    | some raw =>
      match parseFlag raw with
      | some flag => pure flag
      | none => throw (.repartition raw)
  return { nodeUrls, timeoutMs, repartition, virtualNodes := virtualNodesOf env }

/-- Where members and keys fall on the ring. -/
def placement (settings : Settings) : Placement :=
  .make digest settings.virtualNodes.toNat

/-- The cluster of the configured nodes. -/
def cluster (settings : Settings) : Cluster :=
  .ofUrls settings.placement (.make settings.repartition) settings.nodeUrls

end Settings

end LogGateway
