/-
Where log queries get their answers: a store and a node, asked by calls that take time. A call either ends
in time or is cut at the deadline.
-/
import LogGateway.Chain.Split
import LogGateway.Error

namespace LogGateway

/-- A question to the store or to the node. -/
inductive Call where
  /-- The store's reorganisation version. -/
  | version
  /-- The store's highest block. -/
  | highest
  /-- The store's logs. -/
  | stored (filter : StoreFilter)
  /-- The node's block of a hash. -/
  | block (hash : Hash)
  /-- The node's logs. -/
  | logs (filter : LogFilter)
  deriving DecidableEq, Repr

/-- What answers a call. -/
abbrev Call.Answer : Call → Type
  | .version => UInt64
  | .highest => Option UInt64
  | .stored _ => List StoredLog
  | .block _ => Option BlockSummary
  | .logs _ => List Log

/-- How a call ends if it is left to end. -/
structure Reply (σ : Type) (call : Call) where
  /-- How long it takes, in milliseconds. -/
  delay : Nat
  outcome : Except Error call.Answer
  /-- The state of the sources after the call was made. -/
  state : σ

/-- A store and a node with state `σ`. -/
abbrev Sources (σ : Type) := (call : Call) → σ → Reply σ call

/-- A call that was made. -/
structure Asked where
  call : Call
  start : Nat
  /-- Its outcome, unless the deadline cut it. -/
  outcome : Option (Except Error call.Answer)

/-- How far a query has come. -/
structure Progress (σ : Type) where
  state : σ
  now : Nat
  /-- The calls made so far, in order. -/
  asked : List Asked
  /-- How often the query was retried. -/
  retries : Nat

/-- A step of a query. -/
abbrev Step (σ α : Type) := EStateM Error (Progress σ) α

/-- Makes a call. One that takes no time always ends; one that would end after the deadline is cut at
the deadline, or at once if that has passed. -/
def ask {σ : Type} (sources : Sources σ) (deadline : Nat) (call : Call) : Step σ call.Answer := fun p =>
  let reply := sources call p.state
  if reply.delay = 0 ∨ p.now + reply.delay ≤ deadline then
    let p : Progress σ :=
      { p with
        state := reply.state
        now := p.now + reply.delay
        asked := p.asked ++ [⟨call, p.now, some reply.outcome⟩] }
    match reply.outcome with
    | .ok answer => .ok answer p
    | .error e => .error e p
  else
    .error .deadlineExceeded
      { p with
        state := reply.state
        now := max p.now deadline
        asked := p.asked ++ [⟨call, p.now, none⟩] }

end LogGateway
