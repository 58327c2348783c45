/-
Whole numbers below `2^64` in digits of a base up to sixteen: an optional plus sign, then at least one
digit. The first character that is no digit, or that carries the value past the limit, decides the
fault.
-/
namespace LogGateway.Number

/-- Why a text is no whole number below `2^64`. -/
inductive DigitsFault where
  | empty
  | badDigit
  | tooLarge
  deriving DecidableEq, Repr

def DigitsFault.message : DigitsFault → String
  | .empty => "cannot parse integer from empty string"
  | .badDigit => "invalid digit found in string"
  | .tooLarge => "number too large to fit in target type"

/-- The value of a digit of either case in the given base. -/
def digitValue (base : Nat) (c : Char) : Option Nat :=
  let value :=
    if '0' ≤ c ∧ c ≤ '9' then c.toNat - '0'.toNat
    else if 'a' ≤ c ∧ c ≤ 'f' then c.toNat - 'a'.toNat + 10
    else if 'A' ≤ c ∧ c ≤ 'F' then c.toNat - 'A'.toNat + 10
    else base
  if value < base then some value else none

/-- Reads all of the text as further digits of `value`. -/
def readDigits (base : Nat) (value : Nat) : List Char → Except DigitsFault Nat
  | [] => .ok value
  | c :: cs =>
    match digitValue base c with
    | none => .error .badDigit
    | some d =>
      if value * base + d < UInt64.size then readDigits base (value * base + d) cs
      else .error .tooLarge

/-- Reads a whole number below `2^64`. -/
def readWord (base : Nat) : List Char → Except DigitsFault UInt64
  | [] => .error .empty
  | ['+'] => .error .badDigit
  | '+' :: cs => (readDigits base 0 cs).map Nat.toUInt64
  | cs => (readDigits base 0 cs).map Nat.toUInt64

/-- Reads a decimal number below `2^64`. -/
def decimal? (s : String) : Option UInt64 := (readWord 10 s.toList).toOption

end LogGateway.Number
