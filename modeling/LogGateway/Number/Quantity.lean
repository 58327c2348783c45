/-
Quantities: 64-bit numbers in hexadecimal behind the mark `0x`. Written without leading zeros and in
lower case, read in either case, with any number of leading zeros and with an optional plus sign.
-/
import LogGateway.Number.Digits
import LogGateway.Text.Quoted

namespace LogGateway

/-- Why a text is no quantity. -/
inductive QuantityFault where
  | unmarked
  | digits (fault : Number.DigitsFault)
  deriving DecidableEq, Repr

/-- What is said about the text `raw`. -/
def QuantityFault.message (raw : String) : QuantityFault → String
  | .unmarked => s!"quantity {Text.quoted raw} is missing 0x prefix"
  | .digits fault => s!"invalid quantity {Text.quoted raw}: {fault.message}"

namespace Quantity

/-- The characters of a written quantity. -/
def chars (n : UInt64) : List Char := '0' :: 'x' :: Nat.toDigits 16 n.toNat

/-- A written quantity. -/
def text (n : UInt64) : String := String.ofList (chars n)

/-- Reads the characters of a quantity. -/
def readChars : List Char → Except QuantityFault UInt64
  | '0' :: 'x' :: cs => (Number.readWord 16 cs).mapError .digits
  | '0' :: 'X' :: cs => (Number.readWord 16 cs).mapError .digits
  | _ => .error .unmarked

/-- Reads a quantity. -/
def read (s : String) : Except QuantityFault UInt64 := readChars s.toList

end Quantity

end LogGateway
