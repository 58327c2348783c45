/-
The program: it takes its words, its environment and an environment file from the system, posts over TCP,
and prints what a run gives.
-/
import LogGateway.Gateway
import LogGateway.Http.Response
import Std.Async.DNS
import Std.Async.TCP
import Std.Async.Timer

namespace LogGateway.Main

open Std.Async

/-- Receives until the response is complete or the connection is closed. -/
partial def receive (socket : TCP.Socket.Client) (got : List UInt8) : Async Http.Delivery := do
  match ← socket.recv? 65536 with
  | some part =>
    let got := got ++ part.data.toList
    match Http.Response.read false got with
    | some delivery => return delivery
    | none => receive socket got
  | none => return (Http.Response.read true got).getD .failed

/-- The address of a server. -/
def addressOf (address : Std.Net.IPAddr) (port : Nat) : Std.Net.SocketAddress :=
  match address with
  | .v4 address => .v4 ⟨address, port.toUInt16⟩
  | .v6 address => .v6 ⟨address, port.toUInt16⟩

/-- Posts a text and receives the response. -/
def exchange (url : Http.Url) (body : String) : Async Http.Delivery := do
  let name := String.ofList (url.host.toList.filter fun c => c ≠ '[' && c ≠ ']')
  let addresses ← DNS.getAddrInfo name ""
  match addresses[0]? with
  | none => return .failed
  | some address =>
    let socket ← TCP.Socket.Client.mk
    socket.connect (addressOf address url.port)
    socket.send (Http.Response.request url body)
    receive socket []

/-- Posts a text, for at most `limit` milliseconds. -/
def post (limit : Nat) (url body : String) : IO Http.ReadyReply := do
  match Http.Url.read url with
  | none => return ⟨0, .failed⟩
  | some target =>
    let wait := min limit Rpc.Client.defaultLimit
    let start ← IO.monoMsNow
    let delivery ←
      try
        Async.block <| Async.race (some <$> exchange target body) do
          sleep (.ofNat wait)
          return none
      catch _ => pure (some .failed)
    match delivery with
    | some delivery => return ⟨(← IO.monoMsNow) - start, delivery⟩
    | none => return ⟨wait + 1, .failed⟩

/-- Runs the command line with the replies so far, until no request waits for one. -/
partial def runAll (env : Environment) (words : List String) (replies : List Http.ReadyReply) :
    IO (Gateway.Ended Http.Replay) := do
  let ended := Gateway.run Http.Replay.transport env words ⟨replies, none⟩
  match ended.wire.waiting with
  | none => return ended
  | some (url, body) =>
    let reply ← post (Gateway.patience env words) url body
    runAll env words (replies ++ [reply])

/-- The variables of the process. -/
def processEnvironment : IO Environment := do
  let raw ← try IO.FS.readBinFile "/proc/self/environ" catch _ => pure ByteArray.empty
  let entries := (raw.data.toList.splitBy fun a _ => a ≠ 0).map fun e => e.filter (· ≠ 0)
  let pairs := entries.map fun e =>
    (Utf8.decode? (e.takeWhile (· ≠ 0x3d)), (e.dropWhile (· ≠ 0x3d)).drop 1)
  return fun name => pairs.lookup (some name)

/-- The environment file of a directory or of the closest one above it that has one. -/
partial def findEnvFile (directory : String) : IO (Option ByteArray) := do
  let found ← try some <$> IO.FS.readBinFile (directory ++ "/.env") catch _ => pure none
  match found with
  | some bytes => return some bytes
  | none =>
    if directory = "" then return none
    findEnvFile ("/".intercalate (directory.splitOn "/").dropLast)

end LogGateway.Main

open LogGateway in
def main (words : List String) : IO UInt32 := do
  let env ← Main.processEnvironment
  let env := match ← Main.findEnvFile (← IO.currentDir).toString with
    | some bytes => EnvFile.load env bytes.data.toList
    | none => env
  let ended ← Main.runAll env words []
  (← IO.getStdout).putStr ended.stdout
  (← IO.getStderr).putStr ended.stderr
  return ended.code.toUInt32
