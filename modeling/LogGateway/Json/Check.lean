/-
Checking a whole text of any kind, all of it used: every text inside it must be sound and every number
within range, and brackets are nested to a limited depth.
-/
import LogGateway.Json.Record

namespace LogGateway.Json

/-- Reads the members left in an object whose values are read by `value`. -/
def anyMembers (value : Reader Unit) : Nat → Bool → Reader Unit
  | 0, _ => throw .truncated
  | bound + 1, isFirst => do
    match ← Record.nextKey isFirst with
    | none => advance
    | some _ =>
      Record.colon
      value
      anyMembers value bound false

/-- Reads a value; what stands inside its brackets is read by `inner`, without which no bracket may
open. -/
def valueWith (inner : Option (Reader Unit)) : Reader Unit := do
  match ← peek with
  | none => throw .truncated
  | some b =>
    if b = 0x22 then discard string
    else if b = 0x6e then
      advance
      word [0x75, 0x6c, 0x6c]
    else if b = 0x74 || b = 0x66 then discard boolean
    else if b = 0x2d || isDigit b then discard signedNumeral
    else if b = 0x5b || b = 0x7b then
      match inner with
      | none => throw .malformed
      | some inner =>
        advance
        if b = 0x5b then
          discard (allItems inner)
          closeList
        else anyMembers inner ((← get).length + 1) true
    else throw .malformed

/-- Reads a value with at most `depth` brackets open at a time. -/
def anyValue : Nat → Reader Unit
  | 0 => valueWith none
  | depth + 1 => valueWith (some (anyValue depth))

/-- How many brackets may be open at a time. -/
def depthLimit : Nat := 127

/-- Why a text is no JSON text, if it is none. -/
def check (bytes : List UInt8) : Option Fault :=
  match (anyValue depthLimit).run bytes with
  | .ok () => none
  | .error fault => some fault

end LogGateway.Json
