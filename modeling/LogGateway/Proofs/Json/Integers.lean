/-
Whole numbers in decimal, with a sign when they are negative, are read back by the readers of numbers whose range they
are in.
-/
import LogGateway.Proofs.Json.Skipping

namespace LogGateway.Json

/-- A whole number in decimal. -/
def integerChars (n : Int) : List Char := (if n < 0 then ['-'] else []) ++ Nat.toDigits 10 n.natAbs

/-! ## Digits -/

theorem absorb_append {value value' : Nat} {as : List UInt8} (h : absorb value as = (value', [])) (bs : List UInt8) :
    absorb value (as ++ bs) = absorb value' bs := by
  induction as generalizing value with
  | nil =>
    obtain ⟨rfl, -⟩ := Prod.mk.inj h
    rfl
  | cons a as ih =>
    by_cases ha : value * 10 + digitOf a < UInt64.size
    · simp only [absorb, List.cons_append, if_pos ha] at h ⊢
      exact ih h
    · simp only [absorb, if_neg ha] at h
      cases (Prod.mk.inj h).2

theorem digitOf_digitChar {d : Nat} (hd : d < 10) : ∃ b, utf8 [Nat.digitChar d] = [b] ∧ digitOf b = d := by
  have hall : ∀ d < 10, utf8 [Nat.digitChar d] = [UInt8.ofNat (0x30 + d)] ∧ digitOf (UInt8.ofNat (0x30 + d)) = d := by
    decide
  exact ⟨_, hall d hd⟩

/-- The digits of a number that fits in 64 bits add up to it. By induction on the number without its last digit. -/
theorem absorb_toDigits {n : Nat} (hn : n < UInt64.size) : absorb 0 (utf8 (Nat.toDigits 10 n)) = (n, []) := by
  induction n using Nat.strongRecOn with
  | _ n ih =>
    by_cases hsmall : n < 10
    · obtain ⟨b, hbyte, hvalue⟩ := digitOf_digitChar hsmall
      rw [Nat.toDigits_of_lt_base hsmall, hbyte]
      simp only [absorb, hvalue, Nat.zero_mul, Nat.zero_add, if_pos hn]
    · have hfirst : n / 10 < n := Nat.div_lt_self (by omega) (by decide)
      have hwhole : n / 10 * 10 + n % 10 = n := by omega
      obtain ⟨b, hbyte, hvalue⟩ := digitOf_digitChar (Nat.mod_lt n (by decide : 0 < 10))
      rw [Nat.toDigits_of_base_le (by decide) (Nat.le_of_not_lt hsmall), utf8_append, hbyte,
        absorb_append (ih _ hfirst (Nat.lt_trans hfirst hn))]
      simp only [absorb, hvalue, hwhole, if_pos hn]

/-- What a delimited rest does not begin with. -/
theorem Delimited.head {rest : List UInt8} (h : Delimited rest) :
    rest.head?.any isDigit = false ∧ rest.head? ≠ some 0x2e ∧ rest.head? ≠ some 0x65 ∧ rest.head? ≠ some 0x45 := by
  cases rest with
  | nil => simp
  | cons b rest =>
    have hb : continuesNumber b = false := h
    simp only [continuesNumber, Bool.or_eq_false_iff, decide_eq_false_iff_not] at hb
    obtain ⟨⟨⟨hdigit, hpoint⟩, hlower⟩, hupper⟩ := hb
    simp [hdigit, hpoint, hlower, hupper]

theorem digits_delimited {ds rest : List UInt8} (hds : ∀ d ∈ ds, isDigit d = true) (hrest : Delimited rest) :
    digits (ds ++ rest) = .ok ds rest := by
  have hstop : rest.takeWhile isDigit = [] ∧ rest.dropWhile isDigit = rest := by
    obtain ⟨hdigit, -⟩ := hrest.head
    cases rest with
    | nil => exact ⟨rfl, rfl⟩
    | cons b rest =>
      have hb : isDigit b = false := by simpa using hdigit
      simp [hb]
  rw [digits, List.takeWhile_append_of_pos hds, List.dropWhile_append_of_pos hds, hstop.1, hstop.2, List.append_nil]

/-! ## Numbers -/

/-- The digits of a number as bytes; the first one is zero only if it is alone. -/
theorem toDigits_bytes (n : Nat) : ∃ b ds, utf8 (Nat.toDigits 10 n) = b :: ds ∧ isDigit b = true ∧
    (∀ d ∈ ds, isDigit d = true) ∧ (b = 0x30 → ds = []) := by
  obtain ⟨c, cs, hdigits, hzero⟩ := toDigits_opens (by decide : 1 < 10) n
  have hall := digits_toDigits n
  rw [hdigits] at hall
  by_cases hn : n = 0
  · subst hn
    exact ⟨0x30, [], rfl, rfl, fun _ h => (List.not_mem_nil h).elim, fun _ => rfl⟩
  · obtain ⟨b, hbyte, hb, hfirst⟩ := byte_of_isDigit (hall.2 c (List.mem_cons_self ..))
    obtain ⟨b', ds, hbytes, -, hds⟩ := hall.bytes
    obtain ⟨rfl, rfl⟩ : b = b' ∧ utf8 cs = ds := by simpa [utf8_cons, hbyte] using hbytes
    exact ⟨b, utf8 cs, by rw [hdigits, hbytes], hb, hds,
      fun h => absurd (hfirst h) (hzero (Nat.pos_of_ne_zero hn))⟩

/-- After its digits a number is complete when no byte continues it. -/
theorem numeral_toDigits (negative : Bool) {n : Nat} (hn : n < UInt64.size) {rest : List UInt8}
    (hrest : Delimited rest) :
    numeral negative (utf8 (Nat.toDigits 10 n) ++ rest) = wholeOrReal negative n rest := by
  obtain ⟨hdigit, hpoint, hlower, hupper⟩ := hrest.head
  obtain ⟨b, ds, hbytes, hb, hds, hzero⟩ := toDigits_bytes n
  have habsorb := absorb_toDigits hn
  have hnext : next (b :: (ds ++ rest)) = .ok (some b) (ds ++ rest) := rfl
  rw [hbytes] at habsorb ⊢
  rw [List.cons_append, numeral, bind_of_ok hnext]
  simp only [hb, Bool.not_true, Bool.false_eq_true, if_false]
  by_cases hfirst : b = 0x30
  · obtain rfl := hzero hfirst
    simp only [if_pos hfirst]
    rw [bind_of_ok (get_ok _)]
    simp only [List.nil_append, hdigit, Bool.false_eq_true, if_false]
    have hnone : (pure [] : Reader (List UInt8)) rest = .ok [] rest := rfl
    rw [bind_of_ok hnone]
    simp only [habsorb]
    rw [bind_of_ok (get_ok _)]
    simp [hpoint, hlower, hupper]
  · simp only [if_neg hfirst]
    rw [bind_of_ok (digits_delimited hds hrest)]
    simp only [habsorb]
    rw [bind_of_ok (get_ok _)]
    simp [hpoint, hlower, hupper]

/-- A whole number is read from its sign on. -/
theorem signedNumeral_integer {n : Int} (hlow : -0x8000000000000000 ≤ n) (hhigh : n < 0x10000000000000000)
    {rest : List UInt8} (hrest : Delimited rest) :
    signedNumeral (utf8 (integerChars n) ++ rest) = .ok (.whole n) rest := by
  rw [signedNumeral, bind_of_ok (get_ok _)]
  by_cases hsign : n < 0
  · have hbytes : utf8 (integerChars n) = 0x2d :: utf8 (Nat.toDigits 10 n.natAbs) := by
      rw [integerChars, if_pos hsign]
      rfl
    have hrange : 1 ≤ n.natAbs ∧ n.natAbs ≤ 0x8000000000000000 := by omega
    have hvalue : -(n.natAbs : Int) = n := by omega
    have hsize : n.natAbs < UInt64.size := Nat.lt_of_le_of_lt hrange.2 (by decide)
    have hhead (bytes : List UInt8) : (0x2d :: bytes).head? = some 0x2d := rfl
    rw [hbytes, List.cons_append, if_pos (hhead _), bind_of_ok (advance_cons ..), numeral_toDigits true hsize hrest]
    simp only [wholeOrReal, Bool.not_true, Bool.false_eq_true, if_false, if_pos hrange, hvalue]
    rfl
  · obtain ⟨b, ds, hbytes, hb, -⟩ := toDigits_bytes n.natAbs
    have hhead (bytes : List UInt8) : (b :: bytes).head? ≠ some 0x2d := by
      simpa using ne_of_isDigit hb rfl
    have hvalue : (n.natAbs : Int) = n := by omega
    have hsize : n.natAbs < UInt64.size := by
      have hlimit : UInt64.size = 0x10000000000000000 := rfl
      omega
    have hnumeral := numeral_toDigits false hsize hrest
    rw [integerChars, if_neg hsign, List.nil_append]
    rw [hbytes, List.cons_append] at hnumeral ⊢
    rw [if_neg (hhead _), hnumeral]
    simp only [wholeOrReal, Bool.not_false, if_pos, hvalue]
    rfl

namespace Reads

theorem integer {wanted : String} {low high n : Int} (hlow : -0x8000000000000000 ≤ n) (hhigh : n < 0x10000000000000000)
    (hrange : low ≤ n ∧ n ≤ high) : Reads (integer wanted low high) (integerChars n) n := by
  have hopens : ∃ b bytes, utf8 (integerChars n) = b :: bytes ∧ (b = 0x2d ∨ isDigit b = true) := by
    rw [integerChars]
    split
    · exact ⟨0x2d, _, rfl, .inl rfl⟩
    · obtain ⟨b, ds, hbytes, hb, -⟩ := toDigits_bytes n.natAbs
      exact ⟨b, ds, hbytes, .inr hb⟩
  obtain ⟨b, bytes, hbytes, hfirst⟩ := hopens
  have hblank : isBlank b = false ∧ b ≠ 0x5d := by
    rcases hfirst with rfl | hb
    · decide
    · have hne (c : UInt8) (hc : isDigit c = false) : b ≠ c := ne_of_isDigit hb hc
      simp [isBlank, hne 0x20 rfl, hne 0x0a rfl, hne 0x0d rfl, hne 0x09 rfl, hne 0x5d rfl]
  refine ⟨⟨b, bytes, hbytes, hblank⟩, fun gap rest hrest => ?_⟩
  have hnumeral := signedNumeral_integer hlow hhigh hrest
  have hopen : (decide (b = 0x2d) || isDigit b) = true := by simpa using hfirst
  rw [hbytes, List.cons_append] at hnumeral
  rw [Json.integer, hbytes, List.append_assoc, List.cons_append, bind_of_ok (peek_behind gap hblank.1 _)]
  simp only [if_pos hopen]
  rw [bind_of_ok hnumeral]
  simp only [if_pos hrange]
  rfl

theorem int64 (n : Int64) : Reads int64 (integerChars n.toInt) n := by
  have hlow : -0x8000000000000000 ≤ n.toInt := Int64.le_toInt n
  have hhigh : n.toInt < 0x8000000000000000 := Int64.toInt_lt n
  have hinteger : Reads (Json.integer "i64" (-0x8000000000000000) 0x7fffffffffffffff) (integerChars n.toInt) n.toInt :=
    integer hlow (by omega) (by omega)
  refine ⟨hinteger.opens, fun gap rest hrest => ?_⟩
  rw [Json.int64, bind_of_ok (hinteger.reads gap rest hrest), Int64.ofInt_toInt]
  rfl

end Reads

end LogGateway.Json
