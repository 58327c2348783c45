/-
Reading back the values that travel as texts: byte strings in hexadecimal, of any length or of a fixed one, and
quantities.
-/
import LogGateway.Wire.Read
import LogGateway.Wire.Write
import LogGateway.Proofs.Json.Reading

namespace LogGateway

open LogGateway.Json

/-! ## Byte strings -/

namespace Hex

/-- A digit is one byte, read as its value. -/
theorem value?_of_digitValue {c : Char} {d : Nat} (h : Number.digitValue 16 c = some d) :
    ∃ b v, String.utf8EncodeChar c = [b] ∧ value? b = some v ∧ v.toNat = d := by
  obtain ⟨b, hbyte, hb⟩ := byte_of_digitValue h
  obtain ⟨v, hv, hd⟩ := Option.map_eq_some_iff.mp hb
  exact ⟨b, v, hbyte, hv, hd⟩

theorem value?_digit {d : Nat} (hd : d < 16) :
    ∃ b v, String.utf8EncodeChar (digit d) = [b] ∧ value? b = some v ∧ v.toNat = d :=
  value?_of_digitValue (digitValue_digitChar (Nat.le_refl 16) hd)

/-- The two digits of a byte, and the byte that they make up. -/
theorem utf8_byteChars (b : UInt8) :
    ∃ high low x y, utf8 (byteChars b) = [high, low] ∧ value? high = some x ∧ value? low = some y ∧
      x * 16 + y = b := by
  have hb : b.toNat < 256 := b.toNat_lt
  obtain ⟨high, x, hhigh, hx, hxb⟩ := value?_digit (d := b.toNat / 16) (by omega)
  obtain ⟨low, y, hlow, hy, hyb⟩ := value?_digit (d := b.toNat % 16) (by omega)
  have hbyte : x * 16 + y = b := by
    have hsixteen : (16 : UInt8).toNat = 16 := rfl
    rw [← UInt8.toNat_inj, UInt8.toNat_add, UInt8.toNat_mul, hxb, hyb, hsixteen]
    omega
  exact ⟨high, low, x, y, by simp [byteChars, utf8_cons, hhigh, hlow], hx, hy, hbyte⟩

theorem utf8_digits_cons (b : UInt8) (data : List UInt8) :
    utf8 (digits (b :: data)) = utf8 (byteChars b) ++ utf8 (digits data) := by
  rw [digits, List.flatMap_cons, utf8_append]
  rfl

theorem length_utf8_digits (data : List UInt8) : (utf8 (digits data)).length = 2 * data.length := by
  induction data with
  | nil => rfl
  | cons b data ih =>
    obtain ⟨high, low, x, y, hbytes, -⟩ := utf8_byteChars b
    rw [utf8_digits_cons, hbytes, List.length_append, ih, List.length_cons, List.length_cons, List.length_cons,
      List.length_nil]
    omega

theorem readPairs_digits (data : List UInt8) (position : Nat) :
    readPairs position (utf8 (digits data)) = .ok data := by
  induction data generalizing position with
  | nil => rfl
  | cons b data ih =>
    obtain ⟨high, low, x, y, hbytes, hx, hy, hbyte⟩ := utf8_byteChars b
    rw [utf8_digits_cons, hbytes, List.cons_append, List.cons_append, List.nil_append, readPairs, hx, hy]
    simp only [ih, hbyte]
    rfl

theorem unmarked_chars (data : List UInt8) : unmarked (utf8 (chars data)) = utf8 (digits data) := rfl

/-- A byte string of any length is read back. -/
theorem read_chars (data : List UInt8) : read (utf8 (chars data)) = .ok data := by
  have heven : ¬2 * data.length % 2 = 1 := by omega
  simp only [read, unmarked_chars, length_utf8_digits, if_neg heven, readPairs_digits]

theorem readExact_of_readPairs {n : Nat} {raw : List UInt8} {data : Vector UInt8 n}
    (hraw : (unmarked raw).length = 2 * n) (h : readPairs 0 (unmarked raw) = .ok data.toList) :
    readExact n raw = .ok data := by
  have heven : ¬2 * n % 2 = 1 := by omega
  have hfixed : Bytes.ofLength? n data.toList = some data := by
    rw [Bytes.ofLength?, dif_pos data.length_toList]
    rfl
  simp only [readExact, hraw, if_neg heven, ne_eq, not_true_eq_false, if_false, h, hfixed]

/-- A byte string of a fixed length is read back. -/
theorem readExact_chars {n : Nat} (data : Vector UInt8 n) : readExact n (utf8 (chars data.toList)) = .ok data := by
  refine readExact_of_readPairs ?_ ?_
  · rw [unmarked_chars, length_utf8_digits, data.length_toList]
  · rw [unmarked_chars, readPairs_digits]

end Hex

/-! ## Quantities -/

namespace Number

theorem readDigits_append {base value value' : Nat} {as : List Char} (h : readDigits base value as = .ok value')
    (bs : List Char) : readDigits base value (as ++ bs) = readDigits base value' bs := by
  induction as generalizing value with
  | nil =>
    obtain rfl : value = value' := by simpa [readDigits] using h
    rfl
  | cons a as ih =>
    rw [readDigits] at h
    rw [List.cons_append, readDigits]
    cases ha : digitValue base a with
    | none => simp [ha] at h
    | some d =>
      by_cases hd : value * base + d < UInt64.size
      · simp only [ha, if_pos hd] at h ⊢
        exact ih h
      · simp [ha, hd] at h

/-- The digits of a number within the limit are read back. By induction on the number without its last digit. -/
theorem readDigits_toDigits {base n : Nat} (hbase : 1 < base) (hle : base ≤ 16) (hn : n < UInt64.size) :
    readDigits base 0 (Nat.toDigits base n) = .ok n := by
  induction n using Nat.strongRecOn with
  | _ n ih =>
    by_cases hsmall : n < base
    · have hvalue := digitValue_digitChar hle hsmall
      rw [Nat.toDigits_of_lt_base hsmall, readDigits, hvalue]
      simp only [Nat.zero_mul, Nat.zero_add, if_pos hn]
      rfl
    · have hfirst : n / base < n := Nat.div_lt_self (by omega) hbase
      have hlast := digitValue_digitChar hle (Nat.mod_lt n (by omega : 0 < base))
      have hwhole : n / base * base + n % base = n := by rw [Nat.mul_comm, Nat.div_add_mod]
      rw [Nat.toDigits_of_base_le hbase (Nat.le_of_not_lt hsmall),
        readDigits_append (ih _ hfirst (Nat.lt_trans hfirst hn)), readDigits, hlast]
      simp only [hwhole, if_pos hn]
      rfl

/-- Digits need no sign. -/
theorem readWord_of_readDigits {base value : Nat} {cs : List Char} (hne : cs ≠ [])
    (h : readDigits base 0 cs = .ok value) : readWord base cs = .ok value.toUInt64 := by
  have hsign : digitValue base '+' = none := by simp [digitValue]
  unfold readWord
  split
  · exact absurd rfl hne
  · simp [readDigits, hsign] at h
  · simp [readDigits, hsign] at h
  · rw [h]
    rfl

end Number

theorem Quantity.read_chars (n : UInt64) : Quantity.read (String.ofList (Quantity.chars n)) = .ok n := by
  have hdigits : Number.readDigits 16 0 (Nat.toDigits 16 n.toNat) = .ok n.toNat :=
    Number.readDigits_toDigits (by decide) (Nat.le_refl 16) n.toNat_lt
  have hword := Number.readWord_of_readDigits Nat.toDigits_ne_nil hdigits
  have hsame : n.toNat.toUInt64 = n := UInt64.ofNat_toNat
  rw [Quantity.read, String.toList_ofList, Quantity.chars, Quantity.readChars, hword, hsame]
  rfl

/-! ## Their texts -/

namespace Wire

theorem reads_fixed {n : Nat} (data : Vector UInt8 n) : Reads (fixedBytes n) (fixed data) data := by
  refine Reads.textOr (spells_escaped _) ?_
  rw [encode_ofList, Hex.readExact_chars]
  rfl

theorem reads_bytes (data : List UInt8) : Reads anyBytes (bytes data) data := by
  refine Reads.textOr (spells_escaped _) ?_
  rw [encode_ofList, Hex.read_chars]
  rfl

theorem reads_quantity (n : UInt64) : Reads readQuantity (quantity n) n := by
  refine Reads.parsed (spells_escaped _) ?_
  rw [Quantity.read_chars]
  rfl

end Wire

end LogGateway
