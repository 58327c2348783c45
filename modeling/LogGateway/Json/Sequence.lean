/-
Readers of lists, and of byte strings, which may be written as a text or as a list of numbers.
-/
import LogGateway.Json.Scalar

namespace LogGateway.Json

/-- Reads the next item of a list unless the list ends, whose bracket is left. -/
def nextItem {α : Type} (isFirst : Bool) (item : Reader α) : Reader (Option α) := do
  match ← peek with
  | none => throw .truncated
  | some b =>
    if b = 0x5d then pure none
    else if isFirst then some <$> item
    else if b = 0x2c then
      advance
      match ← peek with
      | none => throw .truncated
      | some b => if b = 0x5d then throw .malformed else some <$> item
    else throw .malformed

/-- Reads the bracket that ends a list. -/
def closeList : Reader Unit := do
  match ← peek with
  | none => throw .truncated
  | some b => if b = 0x5d then advance else throw .malformed

/-- Reads the items left in a list. Each takes at least one byte, so a bound above the length of the text
is never reached. -/
def items {α : Type} (item : Reader α) : Nat → Bool → List α → Reader (List α)
  | 0, _, _ => throw .truncated
  | bound + 1, isFirst, done => do
    match ← nextItem isFirst item with
    | none => pure done.reverse
    | some a => items item bound false (a :: done)

/-- Reads the items of a list after its opening bracket. -/
def allItems {α : Type} (item : Reader α) : Reader (List α) := do
  items item ((← get).length + 1) true []

/-- Reads a list. -/
def list {α : Type} (item : Reader α) : Reader (List α) := do
  match ← peek with
  | none => throw .truncated
  | some b =>
    if b = 0x5b then
      advance
      let as ← allItems item
      closeList
      pure as
    else refuse "a sequence"

/-- Reads what may be a text or a list; all else is refused. -/
def textOr {α : Type} (wanted : String) (ofText : String → Except Mismatch α) (ofList : Reader α) :
    Reader α := do
  match ← peek with
  | none => throw .truncated
  | some b =>
    if b = 0x22 then parsed ofText
    else if b = 0x5b then
      advance
      let a ← ofList
      closeList
      pure a
    else refuse wanted

/-- Reads `count` more bytes of a list; `done` holds those before, the last one first. -/
def exactBytes (wanted : String) : Nat → List UInt8 → Reader (List UInt8)
  | 0, done => pure done.reverse
  | count + 1, done => do
    match ← nextItem done.isEmpty byte with
    | none => mismatch (.length done.length wanted)
    | some b => exactBytes wanted count (b :: done)

/-- Reads a byte string of exactly `n` bytes. One byte more is refused as such; anything else after the
last byte is taken off as far as it can be read, and decides only whether the list ends behind it. -/
def fixedBytes (n : Nat) : Reader (Vector UInt8 n) :=
  let wanted := s!"{n} bytes, represented as a hex string of length {2 * n}, an array of u8, or raw bytes"
  let ofText (s : String) : Except Mismatch (Vector UInt8 n) :=
    (Hex.readExact n (Utf8.encode s)).mapError .hex
  let ofList : Reader (Vector UInt8 n) := do
    let bytes ← exactBytes s!"exactly {n} bytes" n []
    let extra ← tryCatch (nextItem bytes.isEmpty byte) fun _ => pure none
    if extra.isSome then mismatch (.length (n + 1) s!"exactly {n} bytes")
    match Bytes.ofLength? n bytes with
    | some fixed => pure fixed
    | none => mismatch (.length bytes.length s!"exactly {n} bytes")
  textOr wanted ofText ofList

/-- Reads a byte string of any length. -/
def anyBytes : Reader (List UInt8) :=
  textOr "a variable number of bytes represented as a hex string, an array of u8, or raw bytes"
    (fun s => (Hex.read (Utf8.encode s)).mapError fun _ =>
      .value (.text s) "a valid hex string")
    (allItems byte)

end LogGateway.Json
