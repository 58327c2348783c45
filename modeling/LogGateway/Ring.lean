/-
The hash ring. Every member claims a number of points, the digests of its name with a counter. A key
belongs to the owner of the first point at or after its own digest, past the end of the first point of
all. Where claims meet, the smallest name owns the point and the others wait for it.
-/
import Std.Data.TreeMap

namespace LogGateway

/-- Members are known by name. -/
class Named (M : Type) where
  name : M → String

/-- Where members and keys fall on the ring. -/
structure Placement where
  hash : ByteArray → UInt64
  /-- How many points each member claims. -/
  claims : Nat

namespace Placement

/-- A member claims at least one point. -/
def make (hash : ByteArray → UInt64) (virtualNodes : Nat) : Placement := ⟨hash, max virtualNodes 1⟩

/-- What is hashed for a claim: the name, a number sign and the counter. -/
def label (name : String) (i : Nat) : String := name ++ "#" ++ toString i

/-- The point of a claim. -/
def point (placement : Placement) (name : String) (i : Nat) : UInt64 :=
  placement.hash (label name i).toUTF8

end Placement

structure Ring (M : Type) where
  placement : Placement
  /-- The owner of each point. -/
  points : Std.TreeMap UInt64 M
  /-- The other claims to a point, in the order in which they lost it. -/
  waiting : Std.TreeMap UInt64 (List M)
  /-- The members by name. -/
  members : Std.TreeMap String M

namespace Ring

variable {M : Type}

def empty (placement : Placement) : Ring M := ⟨placement, ∅, ∅, ∅⟩

def get? (ring : Ring M) (name : String) : Option M := ring.members[name]?

def contains (ring : Ring M) (name : String) : Bool := ring.members.contains name

def size (ring : Ring M) : Nat := ring.members.size

def isEmpty (ring : Ring M) : Bool := ring.members.isEmpty

/-- The members in the order of their names. -/
def toList (ring : Ring M) : List M := ring.members.values

variable [Named M]

/-- Claims a point. An owner whose name is not above the newcomer's keeps it. -/
def place (ring : Ring M) (m : M) (point : UInt64) : Ring M :=
  match ring.points[point]? with
  | none => { ring with points := ring.points.insert point m }
  | some owner =>
    let waiting := ring.waiting.getD point []
    if Named.name owner ≤ Named.name m then
      { ring with waiting := ring.waiting.insert point (waiting ++ [m]) }
    else
      { ring with
        points := ring.points.insert point m
        waiting := ring.waiting.insert point (waiting ++ [owner]) }

/-- Sets the claims that wait for a point. -/
def setWaiting (ring : Ring M) (point : UInt64) (claims : List M) : Ring M :=
  if claims.isEmpty then { ring with waiting := ring.waiting.erase point }
  else { ring with waiting := ring.waiting.insert point claims }

/-- Gives up a point. An owner is followed by the smallest name that waits; one who waits withdraws
all its claims to the point. -/
def unplace (ring : Ring M) (name : String) (point : UInt64) : Ring M :=
  let waiting := ring.waiting.getD point []
  if ring.points[point]?.any fun owner => Named.name owner = name then
    match waiting.mergeSort fun a b => Named.name a ≤ Named.name b with
    | [] => { ring with points := ring.points.erase point }
    | heir :: rest => { ring.setWaiting point rest with points := ring.points.insert point heir }
  else ring.setWaiting point (waiting.filter fun m => Named.name m ≠ name)

/-- The points that a name claims. -/
def claimed (ring : Ring M) (name : String) : List UInt64 :=
  (List.range ring.placement.claims).map (ring.placement.point name)

/-- Adds a member, unless its name is taken. -/
def add? (ring : Ring M) (m : M) : Option (Ring M) :=
  let name := Named.name m
  if ring.contains name then none
  else
    let placed := (ring.claimed name).foldl (fun r point => r.place m point) ring
    some { placed with members := placed.members.insert name m }

/-- Adds a member; a member whose name is taken changes nothing. -/
def add (ring : Ring M) (m : M) : Ring M := (ring.add? m).getD ring

/-- Removes the member of that name, if there is one. -/
def remove? (ring : Ring M) (name : String) : Option (Ring M) :=
  if ring.contains name then
    let left : Ring M := { ring with members := ring.members.erase name }
    some ((left.claimed name).foldl (fun r point => r.unplace name point) left)
  else none

/-- Removes the member of that name; an unknown name changes nothing. -/
def remove (ring : Ring M) (name : String) : Ring M := (ring.remove? name).getD ring

/-- The ring with these members; of members of one name the first counts. -/
def ofList (placement : Placement) (members : List M) : Ring M :=
  members.foldl (fun ring m => ring.add m) (empty placement)

/-- The owner of the first point at or after `hash`, or else of the first point. -/
def ownerFrom (ring : Ring M) (hash : UInt64) : Option M :=
  ((ring.points.getEntryGE? hash).or ring.points.minEntry?).map Prod.snd

/-- The member that a key belongs to. -/
def locate (ring : Ring M) (key : ByteArray) : Option M := ring.ownerFrom (ring.placement.hash key)

end Ring

end LogGateway
