/-
Numbers in JSON texts. A number without fraction or exponent that fits in 64 bits is whole; all others
are floating point, computed from the digits that fit in 64 bits and a power of ten.
-/
import LogGateway.Json.Reader

namespace LogGateway.Json

/-- A number as a reader sees it. -/
inductive Numeral where
  | whole (value : Int)
  | real (value : Number.Binary64)
  deriving DecidableEq, Repr

def Numeral.found : Numeral → Found
  | .whole n => .whole n
  | .real x => .real x

/-- The value of an ASCII digit. -/
def digitOf (b : UInt8) : Nat := b.toNat - 0x30

/-- Appends digits to `value` as long as it stays below `2^64`, and gives those left over. -/
def absorb (value : Nat) : List UInt8 → Nat × List UInt8
  | [] => (value, [])
  | d :: ds =>
    if value * 10 + digitOf d < UInt64.size then absorb (value * 10 + digitOf d) ds
    else (value, d :: ds)

/-- `x * 10^exponent`, by one multiplication or by divisions of at most `10^308`; nothing when it is
infinite. -/
def scaled : Nat → Float → Int → Option Float
  | 0, x, _ => some x
  | fuel + 1, x, exponent =>
    if exponent.natAbs ≤ 308 then
      if 0 ≤ exponent then
        let y := x * Float.ofScientific 1 false exponent.natAbs
        if y.isInf then none else some y
      else some (x / Float.ofScientific 1 false exponent.natAbs)
    else if x == 0 then some x
    else if 0 ≤ exponent then none
    else scaled fuel (x / Float.ofScientific 1 false 308) (exponent + 308)

/-- A floating point number from its sign, its first digits and its power of ten. -/
def real (negative : Bool) (significand : Nat) (exponent : Int) : Reader Numeral :=
  match scaled 4 significand.toUInt64.toFloat exponent with
  | none => throw .malformed
  | some x => pure (.real (.ofFloat (if negative then -x else x)))

/-- The digits of an exponent as long as they stay below `2^31`, and those left over. -/
def absorbExponent (value : Nat) : List UInt8 → Nat × List UInt8
  | [] => (value, [])
  | d :: ds =>
    if value * 10 + digitOf d < 0x80000000 then absorbExponent (value * 10 + digitOf d) ds
    else (value, d :: ds)

/-- Reads an exponent; its mark `e` is the next byte. -/
def exponentPart (negative : Bool) (significand : Nat) (start : Int) : Reader Numeral := do
  advance
  let sign := (← get).head?
  if sign = some 0x2b || sign = some 0x2d then advance
  match ← next with
  | none => throw .truncated
  | some d =>
    if isDigit d then
      let rest ← get
      match absorbExponent 0 (d :: rest.takeWhile isDigit) with
      | (value, []) =>
        set (rest.dropWhile isDigit)
        real negative significand (if sign = some 0x2d then start - value else start + value)
      | (_, left) =>
        if significand ≠ 0 ∧ sign ≠ some 0x2d then
          set (left.tail ++ rest.dropWhile isDigit)
          throw .malformed
        else
          set (rest.dropWhile isDigit)
          pure (.real (.ofFloat (if negative then -0.0 else 0.0)))
    else throw .malformed

/-- After the integer and fraction digits: an exponent or the end of the number. -/
def afterDigits (negative : Bool) (significand : Nat) (exponent : Int) : Reader Numeral := do
  let mark := (← get).head?
  if mark = some 0x65 || mark = some 0x45 then exponentPart negative significand exponent
  else real negative significand exponent

/-- Reads a fraction; its point is the next byte. -/
def fractionPart (negative : Bool) (significand : Nat) (exponent : Int) : Reader Numeral := do
  advance
  let places ← digits
  if places.isEmpty then
    throw (if (← get).isEmpty then .truncated else .malformed)
  let (value, left) := absorb significand places
  afterDigits negative value (exponent - (places.length - left.length : Nat))

/-- A number without fraction and exponent: whole if it fits, with a negative zero as the exception. -/
def wholeOrReal (negative : Bool) (value : Nat) : Reader Numeral :=
  if !negative then pure (.whole value)
  else if 1 ≤ value ∧ value ≤ 0x8000000000000000 then pure (.whole (-value))
  else pure (.real (.ofFloat (-value.toUInt64.toFloat)))

/-- Reads a number after its sign. -/
def numeral (negative : Bool) : Reader Numeral := do
  match ← next with
  | none => throw .truncated
  | some d =>
    if !isDigit d then throw .malformed
    else
      if d = 0x30 then
        if (← get).head?.any isDigit then throw .malformed
      let more ← if d = 0x30 then pure [] else digits
      let (value, left) := absorb 0 (d :: more)
      let mark := (← get).head?
      if mark = some 0x2e then fractionPart negative value left.length
      else if mark = some 0x65 || mark = some 0x45 then exponentPart negative value left.length
      else if left.isEmpty then wholeOrReal negative value
      else real negative value left.length

/-- Reads a number, whose first byte is a sign or a digit. -/
def signedNumeral : Reader Numeral := do
  if (← get).head? = some 0x2d then
    advance
    numeral true
  else numeral false

end LogGateway.Json
