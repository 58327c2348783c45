/-
Readers: they take bytes off the front of a JSON text and give a value or a fault, and in both cases
what is left of the text.
-/
import LogGateway.Json.Fault

namespace LogGateway.Json

/-- A reader of values of type `α`. -/
abbrev Reader (α : Type) := EStateM Fault (List UInt8) α

/-- Space, line feed, carriage return and tab stand between the parts of a text. -/
def isBlank (b : UInt8) : Bool := b = 0x20 || b = 0x0a || b = 0x0d || b = 0x09

/-- An ASCII digit. -/
def isDigit (b : UInt8) : Bool := 0x30 ≤ b && b ≤ 0x39

/-- The next byte after blanks, which are taken off. -/
def peek : Reader (Option UInt8) := fun s =>
  let rest := s.dropWhile isBlank
  .ok rest.head? rest

/-- Takes one byte off. -/
def advance : Reader Unit := fun s => .ok () s.tail

/-- Takes one byte off and gives it. -/
def next : Reader (Option UInt8) := fun s => .ok s.head? s.tail

/-- Takes the digits at the front off and gives them. -/
def digits : Reader (List UInt8) := fun s => .ok (s.takeWhile isDigit) (s.dropWhile isDigit)

/-- Fails because of what was read. -/
def mismatch {α : Type} (cause : Mismatch) : Reader α := throw (.mismatch cause)

/-- Takes off the rest of a fixed word; the byte that differs is taken too. -/
def word : List UInt8 → Reader Unit
  | [] => pure ()
  | w :: ws => do
    match ← next with
    | none => throw .truncated
    | some b => if b = w then word ws else throw .malformed

/-- After the last value only blanks may follow. -/
def finish : Reader Unit := do
  match ← peek with
  | none => pure ()
  | some _ => throw .malformed

/-- Reads a whole text. -/
def Reader.run {α : Type} (reader : Reader α) (bytes : List UInt8) : Except Fault α :=
  match (do let a ← reader; finish; pure a : Reader α) bytes with
  | .ok a _ => .ok a
  | .error fault _ => .error fault

end LogGateway.Json
