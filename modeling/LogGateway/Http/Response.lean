/-
Reading a response from the bytes that came over a connection: the status, and a body that is framed by
its length, by chunks, or by the end of the connection.
-/
import LogGateway.Http.Transport

namespace LogGateway.Http.Response

/-- The line up to the next line feed, without the carriage return before it, and what follows. -/
def splitLine (bytes : List UInt8) : Option (List UInt8 × List UInt8) :=
  match bytes.dropWhile (· ≠ 0x0a) with
  | [] => none
  | _ :: rest =>
    let line := bytes.takeWhile (· ≠ 0x0a)
    some (if line.getLast? = some 0x0d then line.dropLast else line, rest)

/-- The lines up to the first empty one, and what follows it. -/
def splitHead : Nat → List UInt8 → Option (List (List UInt8) × List UInt8)
  | 0, _ => none
  | bound + 1, bytes =>
    match splitLine bytes with
    | none => none
    | some ([], rest) => some ([], rest)
    | some (line, rest) => (splitHead bound rest).map fun (lines, rest) => (line :: lines, rest)

/-- The characters of a line, read byte by byte. -/
def lineChars (line : List UInt8) : List Char := line.map fun b => Char.ofNat b.toNat

/-- The status that a status line gives. -/
def status? (line : List UInt8) : Option Nat :=
  match Text.pieces ' ' (lineChars line) with
  | protocol :: code :: _ =>
    if "HTTP/1.".toList.isPrefixOf protocol ∧ code.length = 3 then
      (Number.readDigits 10 0 code).toOption
    else none
  | _ => none

/-- A header's name in lower case and its value. -/
def header? (line : List UInt8) : Option (List Char × List Char) :=
  (Text.cutOnce [':'] (lineChars line)).map fun (name, value) =>
    (name.map Char.toLower, (value.dropWhile (· = ' ')).map Char.toLower)

/-- How the end of a body is told. -/
inductive Framing where
  | length (count : Nat)
  | chunks
  | close
  deriving DecidableEq, Repr

/-- The framing that the headers give. -/
def framing (headers : List (List Char × List Char)) : Framing :=
  if (headers.lookup "transfer-encoding".toList).any fun v => "chunked".toList.isSuffixOf v then .chunks
  else
    match (headers.lookup "content-length".toList).bind fun v => (Number.readDigits 10 0 v).toOption with
    | some count => .length count
    | none => .close

/-- The data of all chunks, if the last one is there. -/
def joinChunks : Nat → List UInt8 → Option (List UInt8)
  | 0, _ => none
  | bound + 1, bytes => do
    let (line, rest) ← splitLine bytes
    let size := (lineChars line).takeWhile fun c => c ≠ ';' && c ≠ ' '
    let count ← (Number.readDigits 16 0 size).toOption
    if count = 0 then some []
    else if rest.length < count then none
    else
      let (_, after) ← splitLine (rest.drop count)
      return rest.take count ++ (← joinChunks bound after)

/-- The body in what followed the head, if it is complete. -/
def body? (framing : Framing) (closed : Bool) (bytes : List UInt8) : Option (List UInt8) :=
  match framing with
  | .length count => if count ≤ bytes.length then some (bytes.take count) else none
  | .chunks => joinChunks (bytes.length + 1) bytes
  | .close => if closed then some bytes else none

/-- What was delivered, if that can be told yet. Once the connection is closed it always can. -/
def read (closed : Bool) (bytes : List UInt8) : Option Delivery :=
  match splitHead (bytes.length + 1) bytes with
  | some (first :: lines, rest) =>
    match status? first with
    | none => some .failed
    | some status =>
      match body? (framing (lines.filterMap header?)) closed rest with
      | some body => some (.reply status (some body))
      | none => if closed then some (.reply status none) else none
  | _ => if closed then some .failed else none

/-- The bytes of a request that posts a JSON text. -/
def request (url : Url) (body : String) : ByteArray :=
  let bytes := body.toUTF8
  let head :=
    "\r\n".intercalate
      [s!"POST {url.target} HTTP/1.1",
       s!"Host: {url.host}:{url.port}",
       "Content-Type: application/json",
       "Accept: */*",
       s!"Content-Length: {bytes.size}",
       "Connection: close",
       "",
       ""]
  head.toUTF8 ++ bytes

end LogGateway.Http.Response
