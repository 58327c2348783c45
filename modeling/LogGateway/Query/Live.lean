/-
The sources of a running gateway: a log store in memory, whose calls take no time, and a full node behind
a transport.
-/
import LogGateway.Query.Sources
import LogGateway.Rpc.Client
import LogGateway.Store

namespace LogGateway

/-- The state of live sources over a transport with state `σ`. -/
structure Live (σ : Type) where
  store : Store
  client : Rpc.Client
  wire : σ

namespace Live

variable {σ : Type}

/-- Asks the node, and reads what is delivered. -/
def askNode {α : Type} (transport : Http.Transport σ) (live : Live σ) (question : Rpc.Question)
    (read : Http.Delivery → Except Error α) : Nat × Except Error α × Live σ :=
  let (posted, client) := live.client.post transport question live.wire
  (posted.delay, read posted.delivery, { live with client, wire := posted.state })

/-- The store and the node. -/
def sources (transport : Http.Transport σ) : Sources (Live σ) := fun call live =>
  match call with
  | .version => ⟨0, .ok live.store.version, live⟩
  | .highest => ⟨0, .ok live.store.highest?, live⟩
  | .stored filter => ⟨0, .ok (live.store.query filter), live⟩
  | .block hash =>
    let (delay, outcome, live) := askNode transport live (.block hash) Rpc.readBlock
    ⟨delay, outcome, live⟩
  | .logs filter =>
    let (delay, outcome, live) := askNode transport live (.logs filter) Rpc.readLogs
    ⟨delay, outcome, live⟩

end Live

end LogGateway
