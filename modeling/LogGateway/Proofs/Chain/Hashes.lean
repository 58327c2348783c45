/-
The spellings of a hash: 64 hexadecimal digits of either case, behind a mark or none. Main statement: a text is read as
a hash exactly if it spells digits, and those are the digits of the hash as it is written.
-/
import LogGateway.Proofs.Chain.Selectors

namespace LogGateway

open LogGateway.Json

/-- The text spells a hash by these digits, each of either case, behind a mark or none. -/
def Hash.Spelled (text : List Char) (ds : List Nat) : Prop :=
  ∃ mark cs, text = mark ++ cs ∧ mark ∈ [[], ['0', 'x'], ['0', 'X']] ∧ List.Forall₂ HexDigit cs ds ∧ ds.length = 64

namespace Hex

/-! ## Digits and bytes -/

/-- A byte that has a value is a character of its own, a digit. -/
theorem hexDigit_of_value? {b v : UInt8} (h : value? b = some v) :
    ∃ c, String.utf8EncodeChar c = [b] ∧ HexDigit c v.toNat := by
  -- The bytes are looked at one by one.
  have hall : ∀ n < 256, ∀ v ∈ value? (UInt8.ofNat n),
      n < 0x80 ∧ (Char.ofNat n).toNat = n ∧ HexDigit (Char.ofNat n) v.toNat := by decide +kernel
  have hv : v ∈ value? (UInt8.ofNat b.toNat) := by rwa [UInt8.ofNat_toNat]
  obtain ⟨hsmall, hc, hdigit⟩ := hall b.toNat b.toNat_lt v hv
  refine ⟨Char.ofNat b.toNat, ?_, hdigit⟩
  rw [utf8EncodeChar_ascii (by omega), hc, UInt8.ofNat_toNat]

/-- The byte that two digits make up is written with them again, in lower case. -/
theorem byteChars_pair {x y : UInt8} (hx : x.toNat < 16) (hy : y.toNat < 16) :
    byteChars (x * 16 + y) = [Nat.digitChar x.toNat, Nat.digitChar y.toNat] := by
  have hsixteen : (16 : UInt8).toNat = 16 := rfl
  have hvalue : (x * 16 + y).toNat = x.toNat * 16 + y.toNat := by
    rw [UInt8.toNat_add, UInt8.toNat_mul, hsixteen]
    omega
  have hhigh : (x.toNat * 16 + y.toNat) / 16 = x.toNat := by omega
  have hlow : (x.toNat * 16 + y.toNat) % 16 = y.toNat := by omega
  rw [byteChars, hvalue, hhigh, hlow]
  rfl

theorem length_digits (data : List UInt8) : (digits data).length = 2 * data.length := by
  rw [digits, List.length_flatMap]
  simp [byteChars, Nat.mul_comm]

theorem digits_injective {data other : List UInt8} (h : digits data = digits other) : data = other := by
  have hread := readPairs_digits data 0
  rw [h, readPairs_digits] at hread
  exact (Except.ok.inj hread).symm

/-! ## Pairs of digits -/

/-- Digits in pairs are read. By induction on the number of pairs. -/
theorem readPairs_of_hexDigits {n : Nat} {cs : List Char} {ds : List Nat} (h : List.Forall₂ HexDigit cs ds)
    (hlength : ds.length = 2 * n) (position : Nat) :
    ∃ data, readPairs position (utf8 cs) = .ok data ∧ (utf8 cs).length = 2 * n ∧ data.length = n ∧
      digits data = ds.map Nat.digitChar := by
  induction n generalizing cs ds position with
  | zero =>
    obtain rfl : ds = [] := List.eq_nil_of_length_eq_zero hlength
    cases h
    exact ⟨[], rfl, rfl, rfl, rfl⟩
  | succ n ih =>
    cases h with
    | nil => simp at hlength
    | @cons a x _ _ ha h =>
      cases h with
      | nil => simp at hlength; omega
      | @cons b y cs ds hb h =>
        obtain ⟨high, x, hhigh, hx, rfl⟩ := value?_of_digitValue (digitValue_eq_some_iff.2 ha)
        obtain ⟨low, y, hlow, hy, rfl⟩ := value?_of_digitValue (digitValue_eq_some_iff.2 hb)
        have hbytes : utf8 (a :: b :: cs) = high :: low :: utf8 cs := by simp [utf8_cons, hhigh, hlow]
        obtain ⟨data, hread, hcs, hdata, hdigits⟩ := ih h (by simp at hlength; omega) (position + 2)
        rw [hbytes]
        refine ⟨(x * 16 + y) :: data, ?_, ?_, by rw [List.length_cons, hdata], ?_⟩
        · simp only [readPairs, hx, hy, hread]
          rfl
        · rw [List.length_cons, List.length_cons, hcs]
          omega
        · rw [digits, List.flatMap_cons, byteChars_pair ha.lt hb.lt]
          exact congrArg (_ :: _ :: ·) hdigits

/-- What is read consists of digits in pairs. -/
theorem hexDigits_of_readPairs {position : Nat} {bytes data : List UInt8} (h : readPairs position bytes = .ok data) :
    ∃ cs ds, bytes = utf8 cs ∧ List.Forall₂ HexDigit cs ds ∧ digits data = ds.map Nat.digitChar := by
  induction position, bytes using readPairs.induct generalizing data with
  | case1 position =>
    cases h
    exact ⟨[], [], rfl, .nil, rfl⟩
  | case2 => cases h
  | case3 position a b rest x y hb ha ih =>
    simp only [readPairs, ha, hb] at h
    cases hrest : readPairs (position + 2) rest with
    | error fault => simp [hrest, Except.map] at h
    | ok more =>
      obtain rfl : (x * 16 + y) :: more = data := by simpa [hrest, Except.map] using h
      obtain ⟨cs, ds, rfl, hcs, hdigits⟩ := ih hrest
      obtain ⟨c, hc, hx⟩ := hexDigit_of_value? ha
      obtain ⟨d, hd, hy⟩ := hexDigit_of_value? hb
      refine ⟨c :: d :: cs, x.toNat :: y.toNat :: ds, by simp [utf8_cons, hc, hd], .cons hx (.cons hy hcs), ?_⟩
      rw [digits, List.flatMap_cons, byteChars_pair hx.lt hy.lt]
      exact congrArg (_ :: _ :: ·) hdigits
  | case4 position a b rest ha => simp [readPairs, ha] at h
  | case5 position a b rest x ha hb => simp [readPairs, ha, hb] at h

/-! ## The mark -/

theorem marked_unmarked (raw : List UInt8) :
    ∃ mark ∈ [[], ['0', 'x'], ['0', 'X']], raw = utf8 mark ++ unmarked raw := by
  unfold unmarked
  split
  · exact ⟨['0', 'x'], by simp, rfl⟩
  · exact ⟨['0', 'X'], by simp, rfl⟩
  · exact ⟨[], by simp, rfl⟩

/-- The second of two digits is no part of a mark. -/
theorem unmarked_of_value? {a b v : UInt8} (hb : value? b = some v) (rest : List UInt8) :
    unmarked (a :: b :: rest) = a :: b :: rest := by
  unfold unmarked
  split
  · next heq =>
    obtain ⟨-, rfl, -⟩ := by simpa using heq
    cases hb
  · next heq =>
    obtain ⟨-, rfl, -⟩ := by simpa using heq
    cases hb
  · rfl

/-- Of digits behind a mark the mark is taken off, and nothing of digits behind none. -/
theorem unmarked_of_hexDigits {mark cs : List Char} {ds : List Nat} (hmark : mark ∈ [[], ['0', 'x'], ['0', 'X']])
    (h : List.Forall₂ HexDigit cs ds) : unmarked (utf8 (mark ++ cs)) = utf8 cs := by
  obtain rfl | rfl | rfl : mark = [] ∨ mark = ['0', 'x'] ∨ mark = ['0', 'X'] := by simpa using hmark
  · cases h with
    | nil => rfl
    | @cons c _ _ _ hc h =>
      obtain ⟨a, -, ha, -⟩ := value?_of_digitValue (digitValue_eq_some_iff.2 hc)
      cases h with
      | nil => simp [utf8_cons, ha, unmarked]
      | @cons d _ _ _ hd h =>
        obtain ⟨b, v, hb, hv, -⟩ := value?_of_digitValue (digitValue_eq_some_iff.2 hd)
        simp only [List.nil_append, utf8_cons, ha, hb, List.cons_append]
        exact unmarked_of_value? hv _
  · rfl
  · rfl

/-! ## Byte strings of a fixed length -/

theorem readPairs_of_readExact {n : Nat} {raw : List UInt8} {data : Vector UInt8 n} (h : readExact n raw = .ok data) :
    readPairs 0 (unmarked raw) = .ok data.toList := by
  simp only [readExact] at h
  split at h
  · cases h
  split at h
  · cases h
  cases hpairs : readPairs 0 (unmarked raw) with
  | error fault => simp [hpairs] at h
  | ok bytes =>
    simp only [hpairs, Bytes.ofLength?] at h
    by_cases hlength : bytes.length = n
    · simp only [dif_pos hlength] at h
      obtain rfl := Except.ok.inj h
      simp [Vector.toList]
    · simp [hlength] at h

end Hex

/-! ## Hashes -/

namespace Hash

theorem encode_eq (s : String) : Utf8.encode s = utf8 s.toList := by
  rw [← encode_ofList, String.ofList_toList]

/-- Every spelling of a hash is read. -/
theorem Spelled.read {s : String} {ds : List Nat} (h : Spelled s.toList ds) :
    ∃ hash, Hash.read s = .ok hash ∧ Hex.digits hash.toList = ds.map Nat.digitChar := by
  obtain ⟨mark, cs, hs, hmark, hcs, hlength⟩ := h
  have hunmarked := Hex.unmarked_of_hexDigits hmark hcs
  obtain ⟨data, hread, hbytes, hdata, hdigits⟩ := Hex.readPairs_of_hexDigits (n := 32) hcs hlength 0
  refine ⟨⟨data.toArray, by simpa using hdata⟩, ?_, hdigits⟩
  rw [Hash.read, encode_eq, hs]
  refine Hex.readExact_of_readPairs ?_ ?_
  · rw [hunmarked, hbytes]
  · rw [hunmarked, hread]
    rfl

/-- A text is read as a hash exactly if it spells the digits with which the hash is written. -/
theorem read_eq_ok_iff {s : String} {hash : Hash} :
    Hash.read s = .ok hash ↔ ∃ ds, Spelled s.toList ds ∧ Hex.digits hash.toList = ds.map Nat.digitChar := by
  constructor
  · intro h
    obtain ⟨cs, ds, hbytes, hcs, hdigits⟩ := Hex.hexDigits_of_readPairs (Hex.readPairs_of_readExact h)
    obtain ⟨mark, hmark, hraw⟩ := Hex.marked_unmarked (Utf8.encode s)
    rw [hbytes, encode_eq, ← utf8_append] at hraw
    have hlength : ds.length = 64 := by
      have hwritten := congrArg List.length hdigits
      rwa [Hex.length_digits, hash.length_toList, List.length_map, eq_comm] at hwritten
    exact ⟨ds, ⟨mark, cs, utf8_injective hraw, hmark, hcs, hlength⟩, hdigits⟩
  · rintro ⟨ds, hspelled, hdigits⟩
    obtain ⟨other, hread, hother⟩ := hspelled.read
    have hsame : other = hash := Vector.toList_inj.1 (Hex.digits_injective (hother.trans hdigits.symm))
    rw [hread, hsame]

end Hash

end LogGateway
