/-
The client of a full node: it numbers its requests from one, posts them to the node's URL, waits for each so
long and no longer, and reads what comes back.
-/
import LogGateway.Http.Transport
import LogGateway.Rpc.Message

namespace LogGateway.Rpc

structure Client where
  url : String
  /-- How long it waits for a reply, in milliseconds. -/
  limit : Nat
  /-- The number of the next request. -/
  nextId : UInt64
  deriving DecidableEq, Repr

namespace Client

/-- How long a client waits unless it is told otherwise, in milliseconds. -/
def defaultLimit : Nat := 30000

def make (url : String) : Client := ⟨url, defaultLimit, 1⟩

/-- Posts a question; it takes a number even if it fails. -/
def post {σ : Type} (transport : Http.Transport σ) (client : Client) (question : Question) (s : σ) :
    Http.Posted σ × Client :=
  ((transport client.url (question.request client.nextId) s).within client.limit,
    { client with nextId := client.nextId + 1 })

end Client

/-- The block that a delivery brings, if the node knows it. -/
def readBlock (delivery : Http.Delivery) : Except Error (Option BlockSummary) := do
  readResponse Wire.readSummary (← delivery.body)

/-- The logs that a delivery brings; no result means no logs. -/
def readLogs (delivery : Http.Delivery) : Except Error (List Log) := do
  return (← readResponse Wire.readLogs (← delivery.body)).getD []

end LogGateway.Rpc
