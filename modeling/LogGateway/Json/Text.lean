/-
Texts in quotes. A text that is used is checked in full: its escapes, the pairing of surrogates, and the
UTF-8 form of all its bytes together.
-/
import LogGateway.Bytes
import LogGateway.Json.Reader

namespace LogGateway.Json

/-- The value of a hexadecimal digit. -/
def hexDigit? (b : UInt8) : Option Nat := (Hex.value? b).map UInt8.toNat

/-- The number that four hexadecimal digits write. -/
def unit16? (a b c d : UInt8) : Option Nat :=
  match hexDigit? a, hexDigit? b, hexDigit? c, hexDigit? d with
  | some w, some x, some y, some z => some (((w * 16 + x) * 16 + y) * 16 + z)
  | _, _, _, _ => none

/-- What a one-letter escape stands for. -/
def simpleEscape? (b : UInt8) : Option UInt8 :=
  if b = 0x22 || b = 0x5c || b = 0x2f then some b
  else if b = 0x62 then some 0x08
  else if b = 0x66 then some 0x0c
  else if b = 0x6e then some 0x0a
  else if b = 0x72 then some 0x0d
  else if b = 0x74 then some 0x09
  else none

/-- The bytes of a code point, last byte first. -/
def reversedBytes (n : Nat) : List UInt8 := (String.utf8EncodeChar (Char.ofNat n)).reverse

/-- The bytes up to the closing quote with their escapes resolved. The bytes read so far are in `done`,
last byte first. -/
def contents (done : List UInt8) : List UInt8 → EStateM.Result Fault (List UInt8) (List UInt8)
  | [] => .error .truncated []
  | b :: rest =>
    if b = 0x22 then .ok done.reverse rest
    else if b = 0x5c then
      match rest with
      | [] => .error .truncated []
      | e :: rest =>
        if e = 0x75 then
          match rest with
          | h₁ :: h₂ :: h₃ :: h₄ :: rest =>
            match unit16? h₁ h₂ h₃ h₄ with
            | none => .error .malformed rest
            | some high =>
              if 0xdc00 ≤ high ∧ high ≤ 0xdfff then .error .malformed rest
              else if high < 0xd800 ∨ 0xdbff < high then
                contents (reversedBytes high ++ done) rest
              else
                match rest with
                | [] => .error .truncated []
                | b₁ :: rest =>
                  if b₁ ≠ 0x5c then .error .malformed rest
                  else
                    match rest with
                    | [] => .error .truncated []
                    | b₂ :: rest =>
                      if b₂ ≠ 0x75 then .error .malformed rest
                      else
                        match rest with
                        | l₁ :: l₂ :: l₃ :: l₄ :: rest =>
                          match unit16? l₁ l₂ l₃ l₄ with
                          | none => .error .malformed rest
                          | some low =>
                            if 0xdc00 ≤ low ∧ low ≤ 0xdfff then
                              contents
                                (reversedBytes (0x10000 + (high - 0xd800) * 0x400 + (low - 0xdc00))
                                  ++ done)
                                rest
                            else .error .malformed rest
                        | _ => .error .truncated []
          | _ => .error .truncated []
        else
          match simpleEscape? e with
          | some c => contents (c :: done) rest
          | none => .error .malformed rest
    else if b < 0x20 then .error .malformed rest
    else contents (b :: done) rest

/-- Reads a text after its opening quote. -/
def text : Reader String := do
  let bytes ← contents []
  match Utf8.decode? bytes with
  | some s => pure s
  | none => throw .malformed

end LogGateway.Json
