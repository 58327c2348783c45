/-
Log queries guarded against reorganisations. A query is split between store and node; the store's version
is read before and after, and the whole query is run again until both readings agree or time runs out.
-/
import LogGateway.Metrics
import LogGateway.Query.Sources

namespace LogGateway

/-- What a query fetched. -/
structure Fetched where
  logs : List Log
  /-- Whether the store was asked. -/
  hitStore : Bool
  deriving DecidableEq, Repr

namespace Query

variable {σ : Type} (sources : Sources σ) (deadline : Nat) (filter : LogFilter)

/-- Decides who is asked for what. An empty store is asked for nothing, and a block hash is looked up on
the node. -/
def divide : Step σ Split := do
  match ← ask sources deadline .highest with
  | none => return .nodeOnly filter
  | some highest =>
    match filter.selection with
    | .block hash =>
      match ← ask sources deadline (.block hash) with
      | none => throw (.unknownBlock hash)
      | some block => return .ofBlock filter block.number highest
    | .range _ _ => return .ofRange filter highest

/-- Runs the query once: the store's logs, then the node's. -/
def attempt : Step σ Fetched := do
  let split ← divide sources deadline filter
  let stored ←
    match split.store with
    | none => pure []
    | some part => (·.map StoredLog.toLog) <$> ask sources deadline (.stored part)
  let live ←
    match split.node with
    | none => pure []
    | some part => ask sources deadline (.logs part)
  return { logs := stored ++ live, hitStore := split.hitsStore }

/-- After a retry, running out of time is put down to the reorganisations. -/
def blame (attempts : UInt32) : Error → Error
  | .deadlineExceeded => if 1 < attempts then .reorgTimeout else .deadlineExceeded
  | e => e

/-- A step of the attempt with that number. -/
def within {α : Type} (attempts : UInt32) (step : Step σ α) : Step σ α :=
  EStateM.adaptExcept (blame attempts) step

/-- Runs the query until the version read after it is the one read before it, at most `limit` times.
Gives nothing when the limit is reached. -/
def rounds : Nat → UInt32 → UInt64 → Step σ (Option Fetched)
  | 0, _, _ => pure none
  | limit + 1, attempts, before => do
    let fetched ← within attempts (attempt sources deadline filter)
    let after ← within attempts (ask sources deadline .version)
    if after = before then return some fetched
    modify fun p => { p with retries := p.retries + 1 }
    if deadline ≤ (← get).now then throw .reorgTimeout
    rounds limit (attempts + 1) after

/-- Reads the version and runs the query. -/
def guarded (limit : Nat) : Step σ (Option Fetched) := do
  let before ← ask sources deadline .version
  rounds sources deadline filter limit 1 before

/-- How a query ended. -/
structure Outcome (σ : Type) where
  result : Except Error Fetched
  state : σ
  finish : Nat
  asked : List Asked
  retries : Nat

/-- A query from `start` on, unless it takes more than `limit` rounds. -/
def run (start : Nat) (state : σ) (limit : Nat) : Option (Outcome σ) :=
  match guarded sources deadline filter limit ⟨state, start, [], 0⟩ with
  | .ok none _ => none
  | .ok (some fetched) p => some ⟨.ok fetched, p.state, p.now, p.asked, p.retries⟩
  | .error e p => some ⟨.error e, p.state, p.now, p.asked, p.retries⟩

end Query

/-- The counters after one more query. -/
def Metrics.count {σ : Type} (metrics : Metrics) (outcome : Query.Outcome σ) : Metrics where
  total := metrics.total + 1
  storeHits :=
    match outcome.result with
    | .ok fetched => if fetched.hitStore then metrics.storeHits + 1 else metrics.storeHits
    | .error _ => metrics.storeHits
  reorgRetries := metrics.reorgRetries + outcome.retries.toUInt64
  timeouts :=
    match outcome.result with
    | .ok _ => metrics.timeouts
    | .error e => if e.isTimeout then metrics.timeouts + 1 else metrics.timeouts

end LogGateway
