/-
The spellings of quantities and of block selectors. A quantity is a mark, an optional plus sign and hexadecimal digits
of either case; its value is read as long as it fits into 64 bits. Main statement: the reader takes exactly these
spellings and the five block names, it reads back every selector from its text, and that text has no zeros in front.
-/
import LogGateway.Proofs.Wire.Filters
import Mathlib.Data.Nat.Digits.Defs
import Mathlib.Data.List.Forall2

namespace LogGateway

/-! ## Digits of either case -/

/-- The character is a hexadecimal digit, of either case, that stands for the value. -/
def HexDigit (c : Char) (d : Nat) : Prop :=
  "0123456789abcdef".toList[d]? = some c ∨ "0123456789ABCDEF".toList[d]? = some c

instance (c : Char) (d : Nat) : Decidable (HexDigit c d) := inferInstanceAs (Decidable (_ ∨ _))

theorem HexDigit.lt {c : Char} {d : Nat} (h : HexDigit c d) : d < 16 := by
  rcases h with h | h <;> exact (List.getElem?_eq_some_iff.mp h).1

theorem digitValue_eq_some_iff {c : Char} {d : Nat} : Number.digitValue 16 c = some d ↔ HexDigit c d := by
  constructor
  · intro h
    -- Digits are among the first 128 characters, which are compared one by one.
    have hall : ∀ n < 0x80, ∀ d ∈ Number.digitValue 16 (Char.ofNat n), HexDigit (Char.ofNat n) d := by decide +kernel
    have hc := hall c.toNat (Json.toNat_lt_of_digitValue h) d
    rw [Char.ofNat_toNat] at hc
    exact hc h
  · intro h
    have hlower : ∀ d < 16, "0123456789abcdef".toList[d]?.bind (Number.digitValue 16) = some d := by decide
    have hupper : ∀ d < 16, "0123456789ABCDEF".toList[d]?.bind (Number.digitValue 16) = some d := by decide
    have hd := h.lt
    rcases h with h | h
    · rw [← hlower d hd, h, Option.bind_some]
    · rw [← hupper d hd, h, Option.bind_some]

theorem not_hexDigit_plus (d : Nat) : ¬HexDigit '+' d := by
  intro h
  have hvalue := digitValue_eq_some_iff.mpr h
  have hnone : Number.digitValue 16 '+' = none := by decide
  rw [hnone] at hvalue
  cases hvalue

/-! ## Runs of digits -/

namespace Number

/-- Digits in front never make a number smaller. -/
theorem ofDigits_le_append (base : Nat) (hbase : 0 < base) (ds es : List Nat) :
    Nat.ofDigits base es ≤ Nat.ofDigits base (ds ++ es) := by
  induction ds with
  | nil => exact Nat.le_refl _
  | cons d ds ih =>
    rw [List.cons_append, Nat.ofDigits_cons]
    calc Nat.ofDigits base es ≤ Nat.ofDigits base (ds ++ es) := ih
      _ ≤ base * Nat.ofDigits base (ds ++ es) := Nat.le_mul_of_pos_left _ hbase
      _ ≤ d + base * Nat.ofDigits base (ds ++ es) := Nat.le_add_left _ _

/-- Digits behind those that were read before, of which `es` lists the values from the last to the first. By induction
on the digits, of which each goes to the front of `es`. -/
theorem readDigits_of_hexDigits {cs : List Char} {ds : List Nat} (h : List.Forall₂ HexDigit cs ds) (es : List Nat)
    (hes : Nat.ofDigits 16 es < UInt64.size) :
    readDigits 16 (Nat.ofDigits 16 es) cs =
      if Nat.ofDigits 16 (ds.reverse ++ es) < UInt64.size then .ok (Nat.ofDigits 16 (ds.reverse ++ es))
      else .error .tooLarge := by
  induction h generalizing es with
  | nil => rw [readDigits, List.reverse_nil, List.nil_append, if_pos hes]
  | @cons c d cs ds hc _ ih =>
    have hnext : Nat.ofDigits 16 es * 16 + d = Nat.ofDigits 16 (d :: es) := by
      rw [Nat.ofDigits_cons, Nat.mul_comm, Nat.add_comm]
    rw [readDigits, digitValue_eq_some_iff.mpr hc, List.reverse_cons, List.append_assoc, List.singleton_append]
    simp only [hnext]
    by_cases hfits : Nat.ofDigits 16 (d :: es) < UInt64.size
    · rw [if_pos hfits, ih _ hfits]
    · have hbeyond := ofDigits_le_append 16 (by decide) ds.reverse (d :: es)
      rw [if_neg hfits, if_neg (Nat.not_lt.mpr (Nat.le_trans (Nat.not_lt.mp hfits) hbeyond))]

/-- What is read to its end consists of digits. -/
theorem hexDigits_of_readDigits {cs : List Char} {value n : Nat} (h : readDigits 16 value cs = .ok n) :
    ∃ ds, List.Forall₂ HexDigit cs ds := by
  induction cs generalizing value with
  | nil => exact ⟨[], .nil⟩
  | cons c cs ih =>
    rw [readDigits] at h
    cases hc : digitValue 16 c with
    | none => simp [hc] at h
    | some d =>
      by_cases hfits : value * 16 + d < UInt64.size
      · simp only [hc, if_pos hfits] at h
        obtain ⟨ds, hds⟩ := ih h
        exact ⟨d :: ds, .cons (digitValue_eq_some_iff.mp hc) hds⟩
      · simp [hc, hfits] at h

theorem readDigits_zero_of_hexDigits {cs : List Char} {ds : List Nat} (h : List.Forall₂ HexDigit cs ds) :
    readDigits 16 0 cs =
      if Nat.ofDigits 16 ds.reverse < UInt64.size then .ok (Nat.ofDigits 16 ds.reverse) else .error .tooLarge := by
  have hread := readDigits_of_hexDigits h [] (by decide)
  rwa [List.append_nil, Nat.ofDigits_nil] at hread

/-- A sign before digits makes no difference. -/
theorem readWord_signed {base : Nat} {sign cs : List Char} (hsign : sign ∈ [[], ['+']]) (hsome : cs ≠ [])
    (hplus : cs.head? ≠ some '+') : readWord base (sign ++ cs) = (readDigits base 0 cs).map Nat.toUInt64 := by
  cases cs with
  | nil => exact absurd rfl hsome
  | cons c cs =>
    have hc : c ≠ '+' := fun hc => hplus (congrArg some hc)
    obtain rfl | rfl : sign = [] ∨ sign = ['+'] := by simpa using hsign
    · simp [readWord, hc]
    · rfl

/-- What is read as a word is an optional sign and digits. -/
theorem signed_of_readWord {base : Nat} {cs : List Char} {n : UInt64} (h : readWord base cs = .ok n) :
    ∃ sign ds, sign ∈ [[], ['+']] ∧ ds ≠ [] ∧ cs = sign ++ ds ∧ (readDigits base 0 ds).map Nat.toUInt64 = .ok n := by
  unfold readWord at h
  split at h
  · cases h
  · cases h
  · next ds hne => exact ⟨['+'], ds, by simp, hne, rfl, h⟩
  · next hne _ _ => exact ⟨[], cs, by simp, hne, rfl, h⟩

end Number

/-! ## Quantities -/

/-- The text spells the number: a mark, an optional plus sign, and one or more digits of either case, of which the last
counts ones. -/
def Quantity.Spelled (text : List Char) (n : Nat) : Prop :=
  ∃ mark sign cs ds, text = mark ++ sign ++ cs ∧ mark ∈ [['0', 'x'], ['0', 'X']] ∧ sign ∈ [[], ['+']] ∧ cs ≠ [] ∧
    List.Forall₂ HexDigit cs ds ∧ n = Nat.ofDigits 16 ds.reverse

namespace Quantity

theorem readChars_marked {mark : List Char} (hmark : mark ∈ [['0', 'x'], ['0', 'X']]) (cs : List Char) :
    readChars (mark ++ cs) = (Number.readWord 16 cs).mapError .digits := by
  obtain rfl | rfl : mark = ['0', 'x'] ∨ mark = ['0', 'X'] := by simpa using hmark
  · rfl
  · rfl

theorem marked_of_readChars {text : List Char} {n : UInt64} (h : readChars text = .ok n) :
    ∃ mark cs, mark ∈ [['0', 'x'], ['0', 'X']] ∧ text = mark ++ cs ∧ Number.readWord 16 cs = .ok n := by
  have hword : ∀ cs, (Number.readWord 16 cs).mapError QuantityFault.digits = .ok n → Number.readWord 16 cs = .ok n := by
    intro cs h
    cases hcs : Number.readWord 16 cs with
    | error fault => simp [hcs, Except.mapError] at h
    | ok m => simpa [hcs, Except.mapError] using h
  unfold readChars at h
  split at h
  · next cs => exact ⟨['0', 'x'], cs, by simp, rfl, hword cs h⟩
  · next cs => exact ⟨['0', 'X'], cs, by simp, rfl, hword cs h⟩
  · cases h

/-- A spelling is read as its number, unless that is too large. -/
theorem readChars_of_spelled {text : List Char} {n : Nat} (h : Spelled text n) :
    readChars text = if n < UInt64.size then .ok n.toUInt64 else .error (.digits .tooLarge) := by
  obtain ⟨mark, sign, cs, ds, rfl, hmark, hsign, hsome, hdigits, rfl⟩ := h
  have hplus : cs.head? ≠ some '+' := by
    intro hhead
    cases hdigits with
    | nil => cases hhead
    | @cons c d _ _ hc _ =>
      obtain rfl : c = '+' := Option.some.inj hhead
      exact not_hexDigit_plus d hc
  rw [List.append_assoc, readChars_marked hmark, Number.readWord_signed hsign hsome hplus,
    Number.readDigits_zero_of_hexDigits hdigits]
  split <;> rfl

/-- What is read is a spelling of some number. -/
theorem spelled_of_readChars {text : List Char} {n : UInt64} (h : readChars text = .ok n) : ∃ m, Spelled text m := by
  obtain ⟨mark, cs, hmark, rfl, hword⟩ := marked_of_readChars h
  obtain ⟨sign, cs, hsign, hsome, rfl, hread⟩ := Number.signed_of_readWord hword
  cases hvalue : Number.readDigits 16 0 cs with
  | error fault => simp [hvalue, Except.map] at hread
  | ok value =>
    obtain ⟨ds, hdigits⟩ := Number.hexDigits_of_readDigits hvalue
    exact ⟨_, mark, sign, cs, ds, (List.append_assoc ..).symm, hmark, hsign, hsome, hdigits, rfl⟩

theorem readChars_eq_ok_iff {text : List Char} {n : UInt64} : readChars text = .ok n ↔ Spelled text n.toNat := by
  constructor
  · intro h
    obtain ⟨m, hm⟩ := spelled_of_readChars h
    rw [readChars_of_spelled hm] at h
    split at h
    · next hfits =>
      have hn : m.toUInt64 = n := Except.ok.inj h
      have hsame : n.toNat = m := hn ▸ UInt64.toNat_ofNat_of_lt' hfits
      rwa [hsame]
    · cases h
  · intro h
    have hsame : n.toNat.toUInt64 = n := UInt64.ofNat_toNat
    rw [readChars_of_spelled h, if_pos n.toNat_lt, hsame]

/-- A written quantity has no zero in front of other digits. -/
theorem chars_opens (n : UInt64) : ∃ c cs, chars n = '0' :: 'x' :: c :: cs ∧ (c = '0' → cs = []) := by
  obtain ⟨c, cs, hdigits, hzero⟩ := Json.toDigits_opens (by decide : 1 < 16) n.toNat
  refine ⟨c, cs, by rw [chars, hdigits], fun hc => ?_⟩
  have hn : n.toNat = 0 := Nat.eq_zero_of_not_pos fun hpos => hzero hpos hc
  rw [hn] at hdigits
  exact (List.cons.inj hdigits).2.symm

end Quantity

/-! ## Block selectors -/

/-- The text spells the selector: one of five words, or a quantity. -/
inductive BlockSelector.Spelled : String → BlockSelector → Prop
  | earliest : Spelled "earliest" (.tag .earliest)
  | latest : Spelled "latest" (.tag .latest)
  | safe : Spelled "safe" (.tag .safe)
  | finalized : Spelled "finalized" (.tag .finalized)
  | pending : Spelled "pending" (.tag .pending)
  | number {s : String} {n : UInt64} (h : Quantity.Spelled s.toList n.toNat) : Spelled s (.number n)

namespace BlockSelector

theorem ofText?_of_spelled {s : String} {n : Nat} (h : Quantity.Spelled s.toList n) : BlockTag.ofText? s = none := by
  obtain ⟨mark, sign, cs, ds, hs, hmark, -⟩ := h
  refine BlockTag.ofText?_of_digit ?_
  obtain rfl | rfl : mark = ['0', 'x'] ∨ mark = ['0', 'X'] := by simpa using hmark
  · rw [hs]; rfl
  · rw [hs]; rfl

theorem read_eq_ok_iff {s : String} {b : BlockSelector} : read s = .ok b ↔ Spelled s b := by
  constructor
  · intro h
    rw [read] at h
    cases htag : BlockTag.ofText? s with
    | some tag =>
      obtain rfl : .tag tag = b := by simpa [htag] using h
      rw [BlockTag.ofText?] at htag
      have hs := List.find?_some htag
      rw [← of_decide_eq_true hs]
      cases tag <;> constructor
    | none =>
      cases hquantity : Quantity.read s with
      | error fault => simp [htag, hquantity, Except.map] at h
      | ok n =>
        obtain rfl : .number n = b := by simpa [htag, hquantity, Except.map] using h
        exact .number (Quantity.readChars_eq_ok_iff.mp hquantity)
  · intro h
    cases h with
    | number h =>
      have hquantity : Quantity.read s = .ok _ := Quantity.readChars_eq_ok_iff.mpr h
      rw [read, ofText?_of_spelled h, hquantity]
      rfl
    | _ => rfl

/-- A text is read as a number, be it as a quantity or as a selector, exactly if it spells that number; past 64 bits it
is refused as too large. A text is read as a selector exactly if it spells that. Every selector is read back from its
text, in which a number has no zero in front of other digits. -/
theorem read_iff_spelled (s : String) :
    (∀ n, Quantity.read s = .ok n ↔ Quantity.Spelled s.toList n.toNat) ∧
    (∀ n, Quantity.Spelled s.toList n → UInt64.size ≤ n → Quantity.read s = .error (.digits .tooLarge)) ∧
    (∀ b, read s = .ok b ↔ Spelled s b) ∧
    (∀ b : BlockSelector, read b.text = .ok b) ∧
    ∀ n, Quantity.read (number n).text = .ok n ∧
      ∃ c cs, (number n).text.toList = '0' :: 'x' :: c :: cs ∧ (c = '0' → cs = []) := by
  refine ⟨fun n => Quantity.readChars_eq_ok_iff, fun n hn hlarge => ?_, fun b => read_eq_ok_iff, read_text, fun n => ?_⟩
  · exact (Quantity.readChars_of_spelled hn).trans (if_neg (Nat.not_lt.mpr hlarge))
  · refine ⟨Quantity.read_chars n, ?_⟩
    rw [text, Quantity.text, String.toList_ofList]
    exact Quantity.chars_opens n

theorem read_iff_spelled_of_large :
    Quantity.Spelled "0X+0010000000000000000".toList 0x10000000000000000 ∧ UInt64.size ≤ 0x10000000000000000 ∧
      Quantity.read "0X+0010000000000000000" = .error (.digits .tooLarge) := by
  have hdigits : List.Forall₂ HexDigit "0010000000000000000".toList (0 :: 0 :: 1 :: List.replicate 16 0) := by
    simp [HexDigit, List.replicate]
  have hspelled : Quantity.Spelled "0X+0010000000000000000".toList 0x10000000000000000 :=
    ⟨['0', 'X'], ['+'], _, _, rfl, by simp, by simp, by simp, hdigits, by decide⟩
  exact ⟨hspelled, by decide, (read_iff_spelled "0X+0010000000000000000").2.1 _ hspelled (by decide)⟩

end BlockSelector

end LogGateway
