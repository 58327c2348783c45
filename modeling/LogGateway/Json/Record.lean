/-
Readers of records with named fields. A record is written as an object, with its fields in any order and
with any others among them, which are skipped, or as a list in the order of declaration.
-/
import LogGateway.Json.Sequence
import LogGateway.Json.Skip

namespace LogGateway.Json

/-- What a record is called, what its fields are called and hold, how each is read, and which may be
left out. -/
structure Record (F : Type) where
  title : String
  /-- The fields in the order of declaration. -/
  fields : List F
  all_mem : ∀ f, f ∈ fields
  name : F → String
  Value : F → Type
  read : (f : F) → Reader (Value f)
  /-- What a field holds that an object leaves out. -/
  absent : (f : F) → Option (Value f)
  /-- What a field holds before which a list ends. -/
  cutOff : (f : F) → Option (Value f)

namespace Record

variable {F : Type} [DecidableEq F] (R : Record F)

/-- The values of all fields. -/
abbrev Fields : Type := (f : F) → R.Value f

/-- The values of the fields read so far. -/
abbrev Draft : Type := (f : F) → Option (R.Value f)

/-- No field has been read. -/
def blank : R.Draft := fun _ => none

variable {R} in
/-- With one more field read. -/
def Draft.set (draft : R.Draft) (f : F) (value : R.Value f) : R.Draft := fun g =>
  if h : f = g then some (h ▸ value) else draft g

/-- The field of that name. -/
def field? (key : String) : Option F := R.fields.find? fun f => R.name f = key

variable {R} in
/-- The values of all fields, or the first one that was neither read nor may be left out. -/
def Draft.finish (draft : R.Draft) : Except F R.Fields :=
  let value (f : F) : Option (R.Value f) := (draft f).or (R.absent f)
  if h : ∀ f ∈ R.fields, (value f).isSome then
    .ok fun f => (value f).get (h f (R.all_mem f))
  else
    match R.fields.find? fun f => (value f).isNone with
    | some f => .error f
    | none => .error (R.fields.head (by rintro hn; simp [hn] at h))

/-- The complete record. -/
def complete (draft : R.Draft) : Reader R.Fields :=
  match draft.finish with
  | .ok fields => pure fields
  | .error f => mismatch (.missing (R.name f))

/-- Reads the items of the record written as a list. -/
def items : List F → Nat → R.Draft → Reader R.Draft
  | [], _, draft => pure draft
  | f :: fs, index, draft => do
    match (← nextItem (index = 0) (R.read f)).or (R.cutOff f) with
    | some value => items fs (index + 1) (draft.set f value)
    | none =>
      mismatch (.length index s!"struct {R.title} with {R.fields.length} elements")

/-- Reads the next key of an object unless the object ends, whose bracket is left. -/
def nextKey (isFirst : Bool) : Reader (Option String) := do
  match ← peek with
  | none => throw .truncated
  | some b =>
    if b = 0x7d then pure none
    else if isFirst then key b
    else if b = 0x2c then
      advance
      match ← peek with
      | none => throw .truncated
      | some b => key b
    else throw .malformed
where
  /-- Reads the key whose first byte is `b`. -/
  key (b : UInt8) : Reader (Option String) := do
    if b = 0x22 then
      advance
      some <$> text
    else throw .malformed

/-- Reads the colon between a key and its value. -/
def colon : Reader Unit := do
  match ← peek with
  | none => throw .truncated
  | some b => if b = 0x3a then advance else throw .malformed

/-- Reads the members left in an object. Each takes at least one byte, so a bound above the length of the
text is never reached. -/
def members : Nat → Bool → R.Draft → Reader R.Draft
  | 0, _, _ => throw .truncated
  | bound + 1, isFirst, draft => do
    match ← nextKey isFirst with
    | none => pure draft
    | some key =>
      match R.field? key with
      | none =>
        colon
        skip
        members bound false draft
      | some f =>
        if (draft f).isSome then mismatch (.repeated key)
        else
          colon
          let value ← R.read f
          members bound false (draft.set f value)

/-- Reads a record in either form. -/
def reader : Reader R.Fields := do
  match ← peek with
  | none => throw .truncated
  | some b =>
    if b = 0x5b then
      advance
      let draft ← R.items R.fields 0 R.blank
      let fields ← R.complete draft
      closeList
      pure fields
    else if b = 0x7b then
      advance
      let draft ← R.members ((← get).length + 1) true R.blank
      let fields ← R.complete draft
      advance
      pure fields
    else refuse s!"struct {R.title}"

end Record

end LogGateway.Json
