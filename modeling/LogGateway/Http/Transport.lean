/-
Posting a text to a URL: what comes back, and a server that answers from a list of replies.
-/
import LogGateway.Error
import LogGateway.Http.Url

namespace LogGateway.Http

/-- What comes back for a request. -/
inductive Delivery where
  /-- Nothing. -/
  | failed
  /-- A status and a body, unless the body broke off. -/
  | reply (status : Nat) (body : Option (List UInt8))
  deriving DecidableEq, Repr

/-- The body, unless the status or the transport says that there is none to be used. -/
def Delivery.body : Delivery → Except Error (List UInt8)
  | .failed => .error (.http none)
  | .reply status body =>
    if 400 ≤ status ∧ status < 600 then .error (.http (some status))
    else
      match body with
      | some bytes => .ok bytes
      | none => .error (.http none)

/-- A request that was posted. -/
structure Posted (σ : Type) where
  /-- How long the answer took, in milliseconds. -/
  delay : Nat
  delivery : Delivery
  state : σ

/-- What a client sees that waits for so long: nothing, unless the answer is there before. -/
def Posted.within {σ : Type} (limit : Nat) (posted : Posted σ) : Posted σ :=
  if posted.delay < limit then posted else { posted with delay := limit, delivery := .failed }

/-- Posts a body to a URL, with state `σ`. A post is one request; an answer that points to another URL is delivered
like any other. -/
abbrev Transport (σ : Type) := (url body : String) → σ → Posted σ

/-- A request as it arrives. -/
structure Request where
  line : String
  body : String
  deriving DecidableEq, Repr

/-- A reply that a server has ready. -/
structure ReadyReply where
  delay : Nat
  delivery : Delivery
  deriving DecidableEq, Repr

/-- A server at an address with replies to give in turn. -/
structure Server where
  host : String
  port : Nat
  replies : List ReadyReply
  /-- The requests that arrived, in order. -/
  received : List Request
  deriving DecidableEq, Repr

/-- Posts to a server. Nothing arrives at another address, or when no reply is left. -/
def Server.transport : Transport Server := fun url body server =>
  match Url.read url, server.replies with
  | some target, reply :: rest =>
    if target.host = server.host ∧ target.port = server.port then
      let request : Request := ⟨s!"POST {target.target} HTTP/1.1", body⟩
      ⟨reply.delay, reply.delivery,
        { server with replies := rest, received := server.received ++ [request] }⟩
    else ⟨0, .failed, server⟩
  | _, _ => ⟨0, .failed, server⟩

/-- Replies that came in so far, and the request that waits for the next one. -/
structure Replay where
  replies : List ReadyReply
  waiting : Option (String × String)
  deriving DecidableEq, Repr

/-- Gives the replies that came in, in turn. The first request past them is noted and fails, so that a run
can be repeated once its reply is there. -/
def Replay.transport : Transport Replay := fun url body replay =>
  match replay.replies with
  | reply :: rest => ⟨reply.delay, reply.delivery, { replay with replies := rest }⟩
  | [] => ⟨0, .failed, { replay with waiting := replay.waiting.or (some (url, body)) }⟩

end LogGateway.Http
