/-
Readers of single values: texts, booleans, whole numbers. Where something else stands it is read far
enough to say what it is.
-/
import LogGateway.Json.Numeral
import LogGateway.Json.Text

namespace LogGateway.Json

/-- Refuses what stands next, which is not what was wanted. A bracket is named without looking inside. -/
def refuse {α : Type} (wanted : String) : Reader α := do
  match ← peek with
  | none => throw .malformed
  | some b =>
    if b = 0x6e then
      advance
      word [0x75, 0x6c, 0x6c]
      mismatch (.kind .null wanted)
    else if b = 0x74 then
      advance
      word [0x72, 0x75, 0x65]
      mismatch (.kind (.boolean true) wanted)
    else if b = 0x66 then
      advance
      word [0x61, 0x6c, 0x73, 0x65]
      mismatch (.kind (.boolean false) wanted)
    else if b = 0x2d || isDigit b then
      let n ← signedNumeral
      mismatch (.kind n.found wanted)
    else if b = 0x22 then
      advance
      let s ← text
      mismatch (.kind (.text s) wanted)
    else if b = 0x5b then mismatch (.kind .sequence wanted)
    else if b = 0x7b then mismatch (.kind .map wanted)
    else throw .malformed

/-- Reads a text. -/
def string : Reader String := do
  match ← peek with
  | none => throw .truncated
  | some b =>
    if b = 0x22 then
      advance
      text
    else refuse "a string"

/-- Reads a text and what it stands for. -/
def parsed {α : Type} (read : String → Except Mismatch α) : Reader α := do
  match read (← string) with
  | .ok a => pure a
  | .error cause => mismatch cause

/-- Reads a truth value. -/
def boolean : Reader Bool := do
  match ← peek with
  | none => throw .truncated
  | some b =>
    if b = 0x74 then
      advance
      word [0x72, 0x75, 0x65]
      pure true
    else if b = 0x66 then
      advance
      word [0x61, 0x6c, 0x73, 0x65]
      pure false
    else refuse "a boolean"

/-- Reads a whole number between `low` and `high`. -/
def integer (wanted : String) (low high : Int) : Reader Int := do
  match ← peek with
  | none => throw .truncated
  | some b =>
    if b = 0x2d || isDigit b then
      match ← signedNumeral with
      | .whole n =>
        if low ≤ n ∧ n ≤ high then pure n else mismatch (.value (.whole n) wanted)
      | .real x => mismatch (.kind (.real x) wanted)
    else refuse wanted

/-- Reads a byte. -/
def byte : Reader UInt8 := do
  return (← integer "u8" 0 255).toNat.toUInt8

/-- Reads a signed 64-bit number. -/
def int64 : Reader Int64 := do
  return Int64.ofInt (← integer "i64" (-0x8000000000000000) 0x7fffffffffffffff)

/-- Reads a value or `null`. -/
def optional {α : Type} (reader : Reader α) : Reader (Option α) := do
  match ← peek with
  | some 0x6e =>
    advance
    word [0x75, 0x6c, 0x6c]
    pure none
  | _ => some <$> reader

end LogGateway.Json
