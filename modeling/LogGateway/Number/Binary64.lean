/-
Decimal texts of finite 64-bit floating point numbers. The exact value is a whole number of units
`2^scale`; from it come the shortest digits that read back, and the digits rounded to a fixed number
of places with ties going to the even digit.
-/
namespace LogGateway.Number

/-- The exact value of a finite number: `units * 2^scale`, negated if `negative`. -/
structure Binary64 where
  negative : Bool
  units : Nat
  scale : Int
  deriving DecidableEq, Repr

namespace Binary64

/-- What a number with a full exponent has before its fraction. -/
def hiddenBit : Nat := 0x10000000000000

/-- Takes a bit pattern apart: one sign bit, eleven of exponent, fifty-two of fraction. -/
def ofBits (bits : UInt64) : Binary64 :=
  let exponent := (bits >>> 52 &&& 0x7ff).toNat
  let fraction := (bits &&& 0xfffffffffffff).toNat
  { negative := bits >>> 63 = 1
    units := if exponent = 0 then fraction else fraction + hiddenBit
    scale := (if exponent = 0 then 1 else exponent : Int) - 1075 }

def ofFloat (x : Float) : Binary64 := ofBits x.toBits

/-- The fraction `x * 2^scale / 10^place` as numerator and denominator. -/
def ratio (x : Nat) (scale place : Int) : Nat × Nat :=
  (x * Nat.pow 2 scale.toNat * Nat.pow 10 (-place).toNat,
    Nat.pow 2 (-scale).toNat * Nat.pow 10 place.toNat)

/-- The multiple of `10^place` nearest to the value among those that read back as it, if there is one.
What reads back lies within half a unit, and the ends do exactly when `units` is even; below a power of
two the neighbour is only half as far. -/
def candidate? (x : Binary64) (place : Int) : Option Nat :=
  let below := if x.units = hiddenBit ∧ x.scale > -1074 then 1 else 2
  let (value, den) := ratio (4 * x.units) (x.scale - 2) place
  let (low, _) := ratio (4 * x.units - below) (x.scale - 2) place
  let (high, _) := ratio (4 * x.units + 2) (x.scale - 2) place
  let readsBack (c : Nat) : Bool :=
    if x.units % 2 = 0 then low ≤ c * den && c * den ≤ high else low < c * den && c * den < high
  let floor := value / den
  let upperNearer : Bool :=
    2 * (value % den) > den || (2 * (value % den) = den && floor % 2 = 1)
  let order := if upperNearer then [floor + 1, floor] else [floor, floor + 1]
  order.find? readsBack

/-- The shortest digits and their place, searched from the coarsest place down. -/
def shortestFrom (x : Binary64) : Nat → Int → Nat × Int
  | 0, place => (x.units, place)
  | fuel + 1, place =>
    match x.candidate? place with
    | some c => if c = 0 then x.shortestFrom fuel (place - 1) else (c, place)
    | none => x.shortestFrom fuel (place - 1)

/-- The fewest digits that read back as the value, and the place of the last one. -/
def shortest (x : Binary64) : Nat × Int :=
  if x.units = 0 then (0, 0) else x.shortestFrom 700 309

/-- Digits with a decimal point: positional while the point falls within sixteen digits before or four
zeros after it, otherwise with an exponent, whose sign is always written. -/
def decimalText (digits : List Char) (place : Int) : List Char :=
  let count : Int := digits.length
  let point := count + place
  if 0 ≤ place ∧ point ≤ 16 then digits ++ List.replicate place.toNat '0' ++ ['.', '0']
  else if 0 < point ∧ point ≤ 16 then digits.take point.toNat ++ '.' :: digits.drop point.toNat
  else if -5 < point ∧ point ≤ 0 then '0' :: '.' :: List.replicate (-point).toNat '0' ++ digits
  else
    let exponent :=
      'e' :: (if point ≤ 0 then '-' else '+') :: Nat.toDigits 10 (point - 1).natAbs
    match digits with
    | [] => exponent
    | [d] => d :: exponent
    | d :: ds => d :: '.' :: ds ++ exponent

/-- The shortest text that reads back as the value. -/
def shortestText (x : Binary64) : String :=
  let (digits, place) := x.shortest
  let body := if x.units = 0 then ['0', '.', '0'] else decimalText (Nat.toDigits 10 digits) place
  String.ofList (if x.negative then '-' :: body else body)

/-- The quotient rounded to a whole number, ties going to the even one. -/
def roundEven (num den : Nat) : Nat :=
  let floor := num / den
  if 2 * (num % den) > den ∨ (2 * (num % den) = den ∧ floor % 2 = 1) then floor + 1 else floor

/-- The value rounded to two places. -/
def twoPlaces (x : Binary64) : String :=
  let (num, den) := ratio x.units x.scale (-2)
  let hundredths := roundEven num den
  let digits := toString (hundredths % 100)
  let whole := toString (hundredths / 100)
  let text := whole ++ "." ++ (if hundredths % 100 < 10 then "0" ++ digits else digits)
  if x.negative then "-" ++ text else text

end Binary64

end LogGateway.Number
