/-
Byte strings: of a fixed length, such as hashes and addresses; as the UTF-8 form of a text; and in hexadecimal.
Hexadecimal is written with the mark `0x` and two lower-case digits for each byte; reading takes one optional mark
`0x` or `0X` and digits of either case.
-/
import LogGateway.Text.Quoted

namespace LogGateway

/-- The bytes, if there are exactly `n`. -/
def Bytes.ofLength? (n : Nat) (bytes : List UInt8) : Option (Vector UInt8 n) :=
  if h : bytes.length = n then some ⟨bytes.toArray, by simpa using h⟩ else none

namespace Utf8

/-- The bytes of a text. -/
def encode (s : String) : List UInt8 := s.toUTF8.data.toList

/-- The text whose bytes these are. -/
def decode? (bytes : List UInt8) : Option String := String.fromUTF8? ⟨bytes.toArray⟩

end Utf8

/-- Why a text is not the hexadecimal form of a byte string of the wanted length. -/
inductive HexFault where
  | oddLength
  | wrongLength
  /-- The first byte that is no digit, and its position after the mark. -/
  | badDigit (found : UInt8) (position : Nat)
  deriving DecidableEq, Repr

def HexFault.message : HexFault → String
  | .oddLength => "odd number of digits"
  | .wrongLength => "invalid string length"
  | .badDigit found position =>
    s!"invalid character {Text.quotedChar (Char.ofNat found.toNat)} at position {position}"

namespace Hex

/-- The lower-case digit of a value below sixteen. -/
def digit (n : Nat) : Char := Nat.digitChar n

/-- The two digits of a byte. -/
def byteChars (b : UInt8) : List Char := [digit (b.toNat / 16), digit (b.toNat % 16)]

/-- The digits of a byte string. -/
def digits (bytes : List UInt8) : List Char := bytes.flatMap byteChars

/-- The marked form of a byte string. -/
def chars (bytes : List UInt8) : List Char := '0' :: 'x' :: digits bytes

/-- The marked form of a byte string. -/
def text (bytes : List UInt8) : String := String.ofList (chars bytes)

/-- The value of a digit of either case. -/
def value? (c : UInt8) : Option UInt8 :=
  if 0x30 ≤ c && c ≤ 0x39 then some (c - 0x30)
  else if 0x61 ≤ c && c ≤ 0x66 then some (c - 0x61 + 10)
  else if 0x41 ≤ c && c ≤ 0x46 then some (c - 0x41 + 10)
  else none

/-- The text after one mark `0x` or `0X`, if it has one. -/
def unmarked : List UInt8 → List UInt8
  | 0x30 :: 0x78 :: rest => rest
  | 0x30 :: 0x58 :: rest => rest
  | all => all

/-- Reads pairs of digits, the first of them at `position`. -/
def readPairs (position : Nat) : List UInt8 → Except HexFault (List UInt8)
  | [] => .ok []
  | [_] => .error .oddLength
  | a :: b :: rest =>
    match value? a, value? b with
    | some x, some y => (readPairs (position + 2) rest).map ((x * 16 + y) :: ·)
    | none, _ => .error (.badDigit a position)
    | some _, none => .error (.badDigit b (position + 1))

/-- Reads a byte string of any length. -/
def read (raw : List UInt8) : Except HexFault (List UInt8) :=
  let digits := unmarked raw
  if digits.length % 2 = 1 then .error .oddLength else readPairs 0 digits

/-- Reads a byte string of exactly `n` bytes; its length is looked at before its digits. -/
def readExact (n : Nat) (raw : List UInt8) : Except HexFault (Vector UInt8 n) :=
  let digits := unmarked raw
  if digits.length % 2 = 1 then .error .oddLength
  else if digits.length ≠ 2 * n then .error .wrongLength
  else
    match readPairs 0 digits with
    | .error fault => .error fault
    | .ok bytes =>
      match Bytes.ofLength? n bytes with
      | some fixed => .ok fixed
      | none => .error .wrongLength

end Hex

end LogGateway
