/-
Messages of JSON-RPC 2.0: the text of a request and the record of a response. An error in a response wins
over a result.
-/
import LogGateway.Error
import LogGateway.Wire.Read
import LogGateway.Wire.Write

namespace LogGateway.Rpc

open LogGateway.Json

/-- What a node is asked. -/
inductive Question where
  | block (hash : Hash)
  | logs (filter : LogFilter)
  deriving DecidableEq, Repr

namespace Question

def method : Question → String
  | .block _ => "eth_getBlockByHash"
  | .logs _ => "eth_getLogs"

/-- The written parameters. A block is asked for without its transactions. -/
def params : Question → List (List Char)
  | .block hash => [Wire.fixed hash, Write.boolean false]
  | .logs filter => [Wire.filter filter]

/-- The text of the request with that number. -/
def request (question : Question) (id : UInt64) : String :=
  String.ofList <| Write.object
    [("jsonrpc", Write.text "2.0".toList),
     ("id", Write.nat id.toNat),
     ("method", Write.text question.method.toList),
     ("params", Write.list question.params)]

end Question

/-- The fields of an error. -/
inductive ErrorField where
  | code
  | message
  deriving DecidableEq, Repr

/-- What a field of an error holds. -/
abbrev ErrorField.Value : ErrorField → Type
  | .code => Int64
  | .message => String

/-- Errors as records. -/
def errorRecord : Record ErrorField where
  title := "JsonRpcErrorObject"
  fields := [.code, .message]
  all_mem := by intro f; cases f <;> simp
  name
    | .code => "code"
    | .message => "message"
  Value := ErrorField.Value
  read
    | .code => int64
    | .message => string
  absent := fun _ => none
  cutOff := fun _ => none

/-- Reads an error. -/
def readError : Reader Error :=
  (fun v : errorRecord.Fields => .rpc (v .code) (v .message)) <$> errorRecord.reader

/-- The fields of a response. -/
inductive ResponseField where
  | result
  | error
  deriving DecidableEq, Repr

/-- What a field of a response with results of type `α` holds. -/
abbrev ResponseField.Value (α : Type) : ResponseField → Type
  | .result => Option α
  | .error => Option Error

/-- Responses as records. Either field may be missing from an object, but not from a list. -/
def responseRecord {α : Type} (result : Reader α) : Record ResponseField where
  title := "JsonRpcResponse"
  fields := [.result, .error]
  all_mem := by intro f; cases f <;> simp
  name
    | .result => "result"
    | .error => "error"
  Value := ResponseField.Value α
  read
    | .result => optional result
    | .error => optional readError
  absent
    | .result => some none
    | .error => some none
  cutOff := fun _ => none

/-- The result that a response gives, if any. -/
def outcome {α : Type} (result : Option α) : Option Error → Except Error (Option α)
  | some e => .error e
  | none => .ok result

/-- Reads the text of a response. -/
def readResponse {α : Type} (result : Reader α) (body : List UInt8) : Except Error (Option α) :=
  match Reader.run (responseRecord result).reader body with
  | .error fault => .error (.json fault)
  | .ok v => outcome (v .result) (v .error)

end LogGateway.Rpc
