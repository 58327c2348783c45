/-
Full nodes. A node is known by a normal form of its URL, so that spellings of one address name one node,
and by a serial number, so that a node that comes back is told apart from the one that left.
-/
import LogGateway.Ring
import LogGateway.Text.Pieces
import LogGateway.Text.Quoted

namespace LogGateway

/-- Up to the first slash, and from it on. -/
def splitPath (cs : List Char) : List Char × List Char :=
  (cs.takeWhile (· ≠ '/'), cs.dropWhile (· ≠ '/'))

/-- ASCII letters in lower case. -/
def lowerCase (cs : List Char) : List Char := cs.map Char.toLower

/-- The normal form of an address without a scheme: the authority in lower case, the path as it is. -/
def normalAddress (cs : List Char) : List Char :=
  lowerCase (splitPath cs).1 ++ (splitPath cs).2

/-- The normal form of a URL: without blanks around it and slashes at its end, with scheme and authority
in lower case. -/
def normalUrl (cs : List Char) : List Char :=
  let url := Text.dropEndWhile (· = '/') (Text.trimChars cs)
  match Text.cutOnce "://".toList url with
  | some (scheme, rest) => lowerCase scheme ++ "://".toList ++ normalAddress rest
  | none => normalAddress url

/-- The name of the node at a URL. -/
def nodeName (url : String) : String := String.ofList (normalUrl url.toList)

/-- A node of the cluster. -/
structure Node where
  name : String
  /-- The URL as given, without blanks around it. -/
  url : String
  serial : Nat
  deriving DecidableEq, Repr

instance : Named Node := ⟨Node.name⟩

/-- The node at a URL. -/
def Node.make (url : String) (serial : Nat) : Node := ⟨nodeName url, Text.trim url, serial⟩

/-- Which nodes were closed, by serial number. -/
structure Closures where
  serials : List Nat
  deriving DecidableEq, Repr

namespace Closures

def empty : Closures := ⟨[]⟩

def isClosed (closures : Closures) (node : Node) : Bool := closures.serials.contains node.serial

/-- Closes a node; closing it again changes nothing. -/
def close (closures : Closures) (node : Node) : Closures :=
  if closures.isClosed node then closures else ⟨node.serial :: closures.serials⟩

end Closures

/-- A node's state in a line. -/
def Node.describe (node : Node) (closed : Bool) : String :=
  "Node \x7b name: " ++ Text.quoted node.name ++ ", url: " ++ Text.quoted node.url
    ++ ", closed: " ++ toString closed ++ " \x7d"

end LogGateway
