/-
Absolute http URLs: the server they name and the target of a request to it. Empty and dot segments of the
path are resolved, what may not stand in a target is escaped by its bytes, and a fragment is dropped.
-/
import LogGateway.Bytes
import LogGateway.Number.Digits
import LogGateway.Text.Pieces

namespace LogGateway.Http

/-- A server and a target. -/
structure Url where
  host : String
  port : Nat
  /-- The path and the query. -/
  target : String
  deriving DecidableEq, Repr

namespace Url

/-- A byte by its two upper-case digits behind a percent sign. -/
def escapedByte (b : UInt8) : List Char :=
  ['%', (Nat.digitChar (b.toNat / 16)).toUpper, (Nat.digitChar (b.toNat % 16)).toUpper]

/-- Characters escaped in every part: controls, blanks and all beyond ASCII. -/
def alwaysEscaped (c : Char) : Bool := c.toNat ≤ 0x20 || 0x7f ≤ c.toNat

/-- Escapes those characters and the `special` ones. -/
def escape (special : List Char) (cs : List Char) : List Char :=
  cs.flatMap fun c =>
    if alwaysEscaped c || special.contains c then (String.utf8EncodeChar c).flatMap escapedByte
    else [c]

/-- Characters escaped in a path. -/
def pathSpecial : List Char := ['"', '#', '<', '>', '?', '`', '\x7b', '\x7d']

/-- Characters escaped in a query. -/
def querySpecial : List Char := ['"', '#', '<', '>', '\'']

/-- A path segment with its escaped dots resolved, for comparison with dots. -/
def dots (segment : List Char) : List Char :=
  match segment with
  | '%' :: '2' :: c :: rest => if c = 'e' || c = 'E' then '.' :: dots rest else segment
  | '.' :: rest => '.' :: dots rest
  | _ => segment

/-- Whether a segment names a drive: a letter with a colon or a bar behind it. -/
def isDrive : List Char → Bool
  | [letter, mark] => letter.isAlpha && (mark = ':' || mark = '|')
  | _ => false

/-- The segments above the last one, which comes first. Nothing lies above a drive. -/
def parent : List (List Char) → List (List Char)
  | [] => []
  | segment :: above => if isDrive segment then segment :: above else above

/-- Resolves dot segments. `done` holds the segments before, the last one first. -/
def resolve (done : List (List Char)) : List (List Char) → List (List Char)
  | [] => done.reverse
  | segment :: rest =>
    if dots segment = ['.', '.'] then
      resolve (if rest.isEmpty then [] :: parent done else parent done) rest
    else if dots segment = ['.'] then
      resolve (if rest.isEmpty then [] :: done else done) rest
    else resolve (segment :: done) rest

/-- The target that path and query make. -/
def targetOf (cs : List Char) : List Char :=
  let beforeFragment := cs.takeWhile (· ≠ '#')
  let path := (beforeFragment.takeWhile (· ≠ '?')).map fun c => if c = '\\' then '/' else c
  let query := beforeFragment.dropWhile (· ≠ '?')
  let segments := resolve [] (Text.pieces '/' (path.drop 1))
  let written := segments.flatMap fun s => '/' :: escape pathSpecial s
  let written := if written.isEmpty then ['/'] else written
  match query with
  | [] => written
  | _ :: rest => written ++ '?' :: escape querySpecial rest

/-- Characters that may not stand in a host name. -/
def isForbiddenInHost (c : Char) : Bool :=
  c.toNat ≤ 0x20 || c.toNat = 0x7f || "#/:<>?@[\\]^|%".toList.contains c

/-- A host name and what follows it; an address in brackets may hold colons. -/
def splitHost (cs : List Char) : Option (List Char × List Char) :=
  match cs with
  | '[' :: rest =>
    match rest.dropWhile (· ≠ ']') with
    | ']' :: after => some ('[' :: rest.takeWhile (· ≠ ']') ++ [']'], after)
    | _ => none
  | _ =>
    let host := cs.takeWhile (· ≠ ':')
    if host.isEmpty || host.any isForbiddenInHost then none
    else some (host, cs.dropWhile (· ≠ ':'))

/-- A port behind a colon; without one it is 80. -/
def readPort : List Char → Option Nat
  | [] => some 80
  | ':' :: digits =>
    if digits.isEmpty then some 80
    else
      match Number.readDigits 10 0 digits with
      | .ok n => if n < 65536 then some n else none
      | .error _ => none
  | _ => none

/-- What follows the last `@`, if there is one. -/
def withoutUser (authority : List Char) : List Char :=
  (authority.reverse.takeWhile (· ≠ '@')).reverse

/-- Whether a character ends the authority. -/
def endsAuthority (c : Char) : Bool := c = '/' || c = '\\' || c = '?' || c = '#'

/-- Reads an absolute http URL. Controls and blanks around it, and tabs and line ends within it, do not
count. -/
def read (s : String) : Option Url :=
  let isEdge (c : Char) : Bool := c.toNat ≤ 0x20
  let cs := (s.toList.dropWhile isEdge).reverse.dropWhile isEdge |>.reverse
  let cs := cs.filter fun c => c ≠ '\t' && c ≠ '\n' && c ≠ '\r'
  if (cs.take 5).map Char.toLower ≠ "http:".toList then none
  else
    let rest := (cs.drop 5).dropWhile fun c => c = '/' || c = '\\'
    let authority := rest.takeWhile fun c => !endsAuthority c
    match splitHost (withoutUser authority) with
    | none => none
    | some (host, port) =>
      (readPort port).map fun port =>
        { host := String.ofList (host.map Char.toLower)
          port
          target := String.ofList (targetOf (rest.dropWhile fun c => !endsAuthority c)) }

end Url

end LogGateway.Http
