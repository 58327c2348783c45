/-
Bindings of key digests to node names. Without them every key follows the ring; with them a key stays
with the node it was first routed to, or was pinned to, until its binding is dropped.
-/
import Std.Data.TreeMap

namespace LogGateway

/-- The bound digests and the names they are bound to. -/
abbrev BindingTable := Std.TreeMap UInt64 String

namespace BindingTable

/-- Drops all bindings to a name. -/
def withoutNode (table : BindingTable) (name : String) : BindingTable :=
  Std.TreeMap.filter (fun _ bound => bound ≠ name) table

end BindingTable

/-- The bindings of a cluster, if it keeps any. -/
inductive Bindings where
  | off
  | sticky (table : BindingTable)

namespace Bindings

/-- No bindings yet, kept or not. -/
def make (keep : Bool) : Bindings := if keep then .sticky ∅ else .off

/-- The bound digests and their names. -/
def table : Bindings → BindingTable
  | .off => ∅
  | .sticky table => table

/-- The name that a digest is bound to. -/
def get? (bindings : Bindings) (hash : UInt64) : Option String := bindings.table[hash]?

/-- How many digests are bound. -/
def size (bindings : Bindings) : Nat := bindings.table.size

/-- Binds a digest, in place of any binding it had. -/
def put (bindings : Bindings) (hash : UInt64) (name : String) : Bindings :=
  match bindings with
  | .off => .off
  | .sticky table => .sticky (table.insert hash name)

/-- Drops the binding of a digest. -/
def drop (bindings : Bindings) (hash : UInt64) : Bindings :=
  match bindings with
  | .off => .off
  | .sticky table => .sticky (table.erase hash)

/-- Drops all bindings to a name. -/
def dropNode (bindings : Bindings) (name : String) : Bindings :=
  match bindings with
  | .off => .off
  | .sticky table => .sticky (table.withoutNode name)

/-- How many bindings are dropped with a name. -/
def droppedWith (bindings : Bindings) (name : String) : Nat := bindings.size - (bindings.dropNode name).size

end Bindings

end LogGateway
