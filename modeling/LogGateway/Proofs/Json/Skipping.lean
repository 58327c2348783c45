/-
What is skipped: every well-formed value, however deep its brackets are nested. From the first byte of the value the
automaton comes to the bytes after it, in the state of a complete value and with the same brackets open as before.
-/
import LogGateway.Json.Skip
import LogGateway.Proofs.Json.Reading

namespace LogGateway.Json

section

variable {state state' : Expecting} {opened opened' : List Bracket} {b : UInt8} {stay rest : List UInt8}

/-! ## Steps -/

theorem skipFrom_step (hcomplete : (opened.isEmpty && state.complete (some b)) = false)
    (hstep : step state b opened = .ok (state', opened')) :
    skipFrom state opened (b :: rest) = skipFrom state' opened' rest := by
  rw [skipFrom, hcomplete, hstep]
  rfl

/-- The automaton stays where it is at this byte. -/
structure Stays (state : Expecting) (opened : List Bracket) (b : UInt8) : Prop where
  step : step state b opened = .ok (state, opened)
  goes : (opened.isEmpty && state.complete (some b)) = false

theorem skipFrom_stays (h : ∀ b ∈ stay, Stays state opened b) :
    skipFrom state opened (stay ++ rest) = skipFrom state opened rest := by
  induction stay with
  | nil => rfl
  | cons b stay ih =>
    obtain ⟨hstep, hgoes⟩ := h b (List.mem_cons_self ..)
    rw [List.cons_append, skipFrom_step hgoes hstep, ih fun b hb => h b (List.mem_cons_of_mem _ hb)]

/-- Where blanks may stand. -/
theorem skipFrom_gap (gap : Gap) (hstate : ∀ b, isBlank b = true → Stays state opened b) :
    skipFrom state opened (utf8 gap.chars ++ rest) = skipFrom state opened rest :=
  skipFrom_stays fun b hb => hstate b (gap.blank_of_mem b hb)

/-- Whether blanks may stand here: between two parts of a text. -/
def Expecting.awaits : Expecting → Bool
  | .value | .firstItem | .firstKey | .key | .colon => true
  | _ => false

theorem stays_blank (hstate : state.awaits = true) (hb : isBlank b = true) : Stays state opened b := by
  cases state with
  | value | firstItem | firstKey | key | colon => exact ⟨by simp only [step, if_pos hb], Bool.and_false _⟩
  | _ => cases hstate

theorem stays_after (bracket : Bracket) (hb : isBlank b = true) : Stays .after (bracket :: opened) b := by
  cases bracket <;> exact ⟨by simp only [step, afterValue, if_pos hb], rfl⟩

/-! ## Texts -/

/-- What is expected after the text of a key, or of a value. -/
def afterText (isKey : Bool) : Expecting := if isKey then .colon else .after

theorem stays_text (isKey : Bool) (hb : Ordinary b) : Stays (.text isKey) opened b :=
  ⟨by simp only [step, if_neg hb.ne_quote, if_neg hb.ne_backslash, if_neg hb.printable], Bool.and_false _⟩

theorem skipFrom_quote (isKey : Bool) :
    skipFrom (.text isKey) opened (0x22 :: rest) = skipFrom (afterText isKey) opened rest :=
  skipFrom_step (Bool.and_false _) rfl

theorem skipFrom_short (isKey : Bool) {e c : UInt8} (he : simpleEscape? e = some c) :
    skipFrom (.text isKey) opened (0x5c :: e :: rest) = skipFrom (.text isKey) opened rest := by
  have hletter : e ≠ 0x75 := ne_u_of_simpleEscape he
  rw [skipFrom_step (Bool.and_false _) rfl]
  refine skipFrom_step (Bool.and_false _) ?_
  simp only [step, if_neg hletter, he, Option.isSome_some, if_pos]

theorem skipFrom_numbered (isKey : Bool) {a b c d : UInt8} {n : Nat} (hunit : unit16? a b c d = some n) :
    skipFrom (.text isKey) opened (0x5c :: 0x75 :: a :: b :: c :: d :: rest) = skipFrom (.text isKey) opened rest := by
  have hdigit (left : Nat) {b : UInt8} {v : Nat} (hb : hexDigit? b = some v) (rest : List UInt8) :
      skipFrom (.escapeDigits isKey (left + 2) true) opened (b :: rest)
        = skipFrom (.escapeDigits isKey (left + 1) true) opened rest :=
    skipFrom_step (Bool.and_false _) (by simp [step, hb])
  have hlast {b : UInt8} {v : Nat} (hb : hexDigit? b = some v) :
      skipFrom (.escapeDigits isKey 1 true) opened (b :: rest) = skipFrom (.text isKey) opened rest :=
    skipFrom_step (Bool.and_false _) (by simp [step, hb])
  simp only [unit16?] at hunit
  split at hunit
  next ha hb hc hd =>
    rw [skipFrom_step (Bool.and_false _) rfl, skipFrom_step (Bool.and_false _) rfl, hdigit 2 ha, hdigit 1 hb,
      hdigit 0 hc, hlast hd]
  next => cases hunit

/-- What stands between quotes is passed, with the closing quote. -/
theorem Body.skip {body : List Char} (h : Body body) (isKey : Bool) (opened : List Bracket) (rest : List UInt8) :
    skipFrom (.text isKey) opened (utf8 body ++ 0x22 :: rest) = skipFrom (afterText isKey) opened rest := by
  induction h with
  | nil => exact skipFrom_quote isKey
  | plain hc _ ih =>
    rw [utf8_cons, List.append_assoc, skipFrom_stays fun b hb => stays_text isKey (hc.ordinary b hb), ih]
  | short he _ ih =>
    obtain ⟨he, _, hstands⟩ := shortEscapes_bytes _ he
    rw [utf8_escape he, List.cons_append, List.cons_append, skipFrom_short isKey hstands, ih]
  | numbered hquad _ ih =>
    obtain ⟨a, b, c, d, hquad, hunit⟩ := hquad.bytes
    rw [utf8_numbered hquad]
    simp only [List.cons_append]
    rw [skipFrom_numbered isKey hunit, ih]

/-! ## Numbers -/

/-- Before bytes that do not continue it, a number is a complete value. -/
theorem skipFrom_delimited (hstate : state = .afterZero ∨ state = .whole ∨ state = .fraction ∨ state = .exponent)
    (hrest : Delimited rest) : skipFrom state opened rest = skipFrom .after opened rest := by
  cases rest with
  | nil => rcases hstate with rfl | rfl | rfl | rfl <;> rfl
  | cons b rest =>
    have hb : continuesNumber b = false := hrest
    simp only [continuesNumber, Bool.or_eq_false_iff, decide_eq_false_iff_not] at hb
    obtain ⟨⟨⟨hdigit, hpoint⟩, hlower⟩, hupper⟩ := hb
    have hsame : state.complete (some b) = true ∧ step state b opened = step .after b opened := by
      rcases hstate with rfl | rfl | rfl | rfl <;> simp [Expecting.complete, step, hdigit, hpoint, hlower, hupper]
    rw [skipFrom, skipFrom, hsame.1, hsame.2]
    rfl

theorem ne_of_isDigit (hb : isDigit b = true) {c : UInt8} (hc : isDigit c = false) : b ≠ c := by
  rintro rfl
  rw [hb] at hc
  cases hc

theorem byte_of_isDigit {c : Char} (hc : c.isDigit = true) :
    ∃ b, String.utf8EncodeChar c = [b] ∧ isDigit b = true ∧ (b = 0x30 → c = '0') := by
  have hsmall : c.toNat < 0x80 := by
    simp only [Char.isDigit, Bool.and_eq_true, decide_eq_true_eq] at hc
    exact Nat.lt_of_le_of_lt (UInt32.le_iff_toNat_le.mp hc.2) (by decide)
  -- The first 128 characters are looked at one by one; those after '9' are no digits.
  have hall : ∀ n < 0x80, (Char.ofNat n).isDigit = true →
      isDigit (UInt8.ofNat n) = true ∧ (UInt8.ofNat n = 0x30 → Char.ofNat n = '0') := by decide +kernel
  have hthis := hall c.toNat hsmall
  rw [Char.ofNat_toNat] at hthis
  exact ⟨_, utf8EncodeChar_ascii hsmall, hthis hc⟩

/-- Digits are one byte each. -/
theorem Digits.bytes {cs : List Char} (h : Digits cs) :
    ∃ b bytes, utf8 cs = b :: bytes ∧ isDigit b = true ∧ ∀ d ∈ bytes, isDigit d = true := by
  obtain ⟨hne, hall⟩ := h
  obtain ⟨c, cs, rfl⟩ := List.exists_cons_of_ne_nil hne
  obtain ⟨b, hbyte, hb, -⟩ := byte_of_isDigit (hall c (List.mem_cons_self ..))
  refine ⟨b, utf8 cs, by rw [utf8_cons, hbyte]; rfl, hb, fun d hd => ?_⟩
  obtain ⟨c', hc', hd⟩ := List.mem_flatMap.mp hd
  obtain ⟨b', hbyte', hb', -⟩ := byte_of_isDigit (hall c' (List.mem_cons_of_mem _ hc'))
  rw [hbyte'] at hd
  rwa [List.mem_singleton.mp hd]

theorem stays_digit (hstate : state = .whole ∨ state = .fraction ∨ state = .exponent) (hb : isDigit b = true) :
    Stays state opened b := by
  rcases hstate with rfl | rfl | rfl <;> exact ⟨by simp only [step, hb, if_pos], by simp [Expecting.complete, hb]⟩

theorem Exponent.skip {cs : List Char} (h : Exponent cs)
    (hstate : state = .afterZero ∨ state = .whole ∨ state = .fraction) (hrest : Delimited rest) :
    skipFrom state opened (utf8 cs ++ rest) = skipFrom .after opened rest := by
  cases h with
  | none => exact skipFrom_delimited (hstate.imp_right (Or.imp_right .inl)) hrest
  | @digits mark sign cs hmark hsign hdigits =>
    -- From the end backwards: the digits, the sign before them, the mark before that.
    obtain ⟨b, bytes, hbytes, hb, hall⟩ := hdigits.bytes
    have hdigits : skipFrom .exponent opened (bytes ++ rest) = skipFrom .after opened rest := by
      rw [skipFrom_stays fun d hd => stays_digit (.inr (.inr rfl)) (hall d hd),
        skipFrom_delimited (.inr (.inr (.inr rfl))) hrest]
    have hunsigned : skipFrom .firstExponentDigit opened (b :: (bytes ++ rest)) = skipFrom .after opened rest := by
      refine (skipFrom_step (Bool.and_false _) ?_).trans hdigits
      simp only [step, hb, if_pos]
    have hsigned : skipFrom .exponentSign opened (utf8 sign ++ b :: (bytes ++ rest)) = skipFrom .after opened rest := by
      simp only [List.mem_cons, List.not_mem_nil, or_false] at hsign
      rcases hsign with rfl | rfl | rfl
      · have hplus := ne_of_isDigit hb (c := 0x2b) rfl
        have hminus := ne_of_isDigit hb (c := 0x2d) rfl
        refine (skipFrom_step (Bool.and_false _) ?_).trans hdigits
        simp [step, hplus, hminus, hb]
      · exact (skipFrom_step (Bool.and_false _) rfl).trans hunsigned
      · exact (skipFrom_step (Bool.and_false _) rfl).trans hunsigned
    have hmarked (b : UInt8) (hb : b = 0x65 ∨ b = 0x45) (rest : List UInt8) :
        skipFrom state opened (b :: rest) = skipFrom .exponentSign opened rest := by
      rcases hb with rfl | rfl <;> rcases hstate with rfl | rfl | rfl <;>
        exact skipFrom_step (by simp [Expecting.complete]) rfl
    have hbyte : ∃ m, String.utf8EncodeChar mark = [m] ∧ (m = 0x65 ∨ m = 0x45) := by
      simp only [List.mem_cons, List.not_mem_nil, or_false] at hmark
      rcases hmark with rfl | rfl
      · exact ⟨0x65, rfl, .inl rfl⟩
      · exact ⟨0x45, rfl, .inr rfl⟩
    obtain ⟨m, hbyte, hm⟩ := hbyte
    rw [← hsigned, ← hmarked m hm]
    simp [utf8_cons, hbyte, hbytes]

theorem Fraction.skip {fraction exponent : List Char} (h : Fraction fraction) (hexponent : Exponent exponent)
    (hstate : state = .afterZero ∨ state = .whole) (hrest : Delimited rest) :
    skipFrom state opened (utf8 fraction ++ (utf8 exponent ++ rest)) = skipFrom .after opened rest := by
  cases h with
  | none => exact hexponent.skip (hstate.imp_right .inl) hrest
  | @digits cs hdigits =>
    obtain ⟨b, bytes, hbytes, hb, hall⟩ := hdigits.bytes
    have hpoint (rest : List UInt8) : skipFrom state opened (0x2e :: rest) = skipFrom .firstPlace opened rest := by
      rcases hstate with rfl | rfl <;> exact skipFrom_step (by simp [Expecting.complete]) rfl
    have hplaces (rest : List UInt8) :
        skipFrom .firstPlace opened (b :: (bytes ++ rest)) = skipFrom .fraction opened rest := by
      rw [skipFrom_step (Bool.and_false _) (by simp only [step, hb, if_pos]; rfl),
        skipFrom_stays fun d hd => stays_digit (.inr (.inl rfl)) (hall d hd)]
    have hpointByte : utf8 ('.' :: cs) = 0x2e :: b :: bytes := by
      rw [utf8_cons, hbytes]
      rfl
    rw [hpointByte, List.cons_append, List.cons_append, hpoint, hplaces, hexponent.skip (.inr (.inr rfl)) hrest]

/-- What is expected after the first digit of a number. -/
def afterDigit (b : UInt8) : Expecting := if b = 0x30 then .afterZero else .whole

theorem afterDigit_cases (b : UInt8) : afterDigit b = .afterZero ∨ afterDigit b = .whole := by
  unfold afterDigit
  split
  · exact .inl rfl
  · exact .inr rfl

theorem step_firstDigit (hb : isDigit b = true) : step .firstDigit b opened = .ok (afterDigit b, opened) := by
  unfold afterDigit
  by_cases hzero : b = 0x30
  · simp only [step, if_pos hzero]
  · simp only [step, if_neg hzero, hb, if_pos]

theorem startValue_digit (hb : isDigit b = true) : startValue b opened = .ok (afterDigit b, opened) := by
  have hne (c : UInt8) (hc : isDigit c = false) : b ≠ c := ne_of_isDigit hb hc
  rw [← step_firstDigit hb]
  simp only [startValue, step, if_neg (hne 0x22 rfl), if_neg (hne 0x5b rfl), if_neg (hne 0x7b rfl),
    if_neg (hne 0x6e rfl), if_neg (hne 0x74 rfl), if_neg (hne 0x66 rfl), if_neg (hne 0x2d rfl)]

/-- The part of a number before its point, from its first digit on. -/
theorem Whole.skip {cs : List Char} (h : Whole cs) : ∃ b bytes, utf8 cs = b :: bytes ∧ isDigit b = true ∧
    ∀ opened rest, skipFrom (afterDigit b) opened (bytes ++ rest) = skipFrom (afterDigit b) opened rest := by
  cases h with
  | zero => exact ⟨0x30, [], rfl, rfl, fun _ _ => rfl⟩
  | @digits c cs hdigits hc =>
    obtain ⟨b, bytes, hbytes, hb, hall⟩ := hdigits.bytes
    obtain ⟨b', hbyte, -, hzero⟩ := byte_of_isDigit (hdigits.2 c (List.mem_cons_self ..))
    have hsame : b' = b := by
      rw [utf8_cons, hbyte] at hbytes
      exact List.head_eq_of_cons_eq hbytes
    have hwhole : afterDigit b = .whole := if_neg fun hb => hc (hzero (hsame.trans hb))
    refine ⟨b, bytes, hbytes, hb, fun opened rest => ?_⟩
    rw [hwhole, skipFrom_stays fun d hd => stays_digit (.inl rfl) (hall d hd)]

end

/-! ## Values -/

/-- The automaton passes these characters as a value, whatever brackets are open. -/
def Passes (cs : List Char) : Prop :=
  ∃ b bytes, utf8 cs = b :: bytes ∧ ∀ opened, ∃ state inner, startValue b opened = .ok (state, inner) ∧
    ∀ rest, Delimited rest → skipFrom state inner (bytes ++ rest) = skipFrom .after opened rest

/-- What the automaton does with a form, from the states in which it may begin. -/
def Skipped : Form → List Char → Prop
  | .value, cs => Passes cs
  | .items, cs => ∀ state, state = .value ∨ state = .firstItem → ∀ opened rest,
      skipFrom state (.list :: opened) (utf8 cs ++ 0x5d :: rest) = skipFrom .after opened rest
  | .members, cs => ∀ state, state = .key ∨ state = .firstKey → ∀ opened rest,
      skipFrom state (.object :: opened) (utf8 cs ++ 0x7d :: rest) = skipFrom .after opened rest

theorem Written.passes {cs : List Char} (h : Written cs) : Passes cs := by
  obtain @⟨sign, whole, fraction, exponent, hsign, hwhole, hfraction, hexponent⟩ := h
  obtain ⟨b, bytes, hbytes, hb, hskip⟩ := hwhole.skip
  have hplaces (opened : List Bracket) {rest : List UInt8} (hrest : Delimited rest) :
      skipFrom (afterDigit b) opened (bytes ++ (utf8 fraction ++ (utf8 exponent ++ rest)))
        = skipFrom .after opened rest :=
    (hskip opened _).trans (hfraction.skip hexponent (afterDigit_cases b) hrest)
  simp only [List.mem_cons, List.not_mem_nil, or_false] at hsign
  rcases hsign with rfl | rfl
  · refine ⟨b, bytes ++ (utf8 fraction ++ utf8 exponent), by simp [hbytes], fun opened => ?_⟩
    exact ⟨_, _, startValue_digit hb, fun rest hrest => by simpa using hplaces opened hrest⟩
  · have hminus : utf8 ['-'] = [0x2d] := rfl
    have hsigned : utf8 (['-'] ++ whole ++ fraction ++ exponent)
        = 0x2d :: (b :: bytes ++ (utf8 fraction ++ utf8 exponent)) := by
      rw [List.append_assoc, List.append_assoc, utf8_append, utf8_append, utf8_append, hbytes, hminus]
      rfl
    refine ⟨0x2d, b :: bytes ++ (utf8 fraction ++ utf8 exponent), hsigned, fun opened => ?_⟩
    refine ⟨.firstDigit, opened, rfl, fun rest hrest => ?_⟩
    rw [List.append_assoc, List.cons_append, skipFrom_step (Bool.and_false _) (step_firstDigit hb)]
    simpa using hplaces opened hrest

/-- A first byte of a value is neither blank nor the end of a list. -/
theorem opens_of_startValue {b : UInt8} {opened : List Bracket} {next : Expecting × List Bracket}
    (h : startValue b opened = .ok next) : isBlank b = false ∧ b ≠ 0x5d := by
  have hne (c : UInt8) (hc : startValue c opened = .error .malformed) : b ≠ c := by
    rintro rfl
    rw [hc] at h
    cases h
  refine ⟨?_, hne 0x5d rfl⟩
  simp [isBlank, hne 0x20 rfl, hne 0x0a rfl, hne 0x0d rfl, hne 0x09 rfl]

/-- A value behind a gap is passed. -/
theorem Passes.behind {cs : List Char} (h : Passes cs) {state : Expecting}
    (hstate : state = .value ∨ state = .firstItem) (gap : Gap) (opened : List Bracket)
    {rest : List UInt8} (hrest : Delimited rest) :
    skipFrom state opened (utf8 gap.chars ++ (utf8 cs ++ rest)) = skipFrom .after opened rest := by
  obtain ⟨b, bytes, hbytes, hskip⟩ := h
  obtain ⟨next, inner, hstart, hpass⟩ := hskip opened
  obtain ⟨hblank, hclose⟩ := opens_of_startValue hstart
  have hblanks : state.awaits = true := by rcases hstate with rfl | rfl <;> rfl
  have hstep : step state b opened = .ok (next, inner) ∧ state.complete (some b) = false := by
    rcases hstate with rfl | rfl <;> simp [step, hblank, hclose, hstart, Expecting.complete]
  rw [skipFrom_gap gap fun _ => stays_blank hblanks, hbytes, List.cons_append,
    skipFrom_step (by rw [hstep.2, Bool.and_false]) hstep.1, hpass rest hrest]

/-- A value between gaps is passed inside a bracket. -/
theorem Passes.skip {cs : List Char} (h : Passes cs) {state : Expecting}
    (hstate : state = .value ∨ state = .firstItem) (before after : Gap) (bracket : Bracket)
    (opened : List Bracket) {rest : List UInt8} (hrest : Delimited rest) :
    skipFrom state (bracket :: opened) (utf8 (before.chars ++ cs ++ after.chars) ++ rest)
      = skipFrom .after (bracket :: opened) rest := by
  rw [utf8_append, utf8_append, List.append_assoc, List.append_assoc,
    h.behind hstate before (bracket :: opened) (hrest.gap after), skipFrom_gap after fun _ => stays_after bracket]

/-- A member is passed. -/
theorem skipFrom_member {key cs : List Char} (hkey : Body key) (h : Passes cs) {state : Expecting}
    (hstate : state = .key ∨ state = .firstKey) (before afterKey beforeValue after : Gap) (opened : List Bracket)
    {rest : List UInt8} (hrest : Delimited rest) :
    skipFrom state (.object :: opened) (utf8 (memberChars before afterKey beforeValue after key cs) ++ rest)
      = skipFrom .after (.object :: opened) rest := by
  have hbytes : utf8 (memberChars before afterKey beforeValue after key cs) ++ rest
      = utf8 before.chars ++ 0x22 :: (utf8 key ++ 0x22 :: (utf8 afterKey.chars
          ++ 0x3a :: (utf8 (beforeValue.chars ++ cs ++ after.chars) ++ rest))) := by
    simp [memberChars]
  have hblanks : state.awaits = true := by rcases hstate with rfl | rfl <;> rfl
  have hquote : step state 0x22 (.object :: opened) = .ok (.text true, .object :: opened) := by
    rcases hstate with rfl | rfl <;> rfl
  rw [hbytes, skipFrom_gap before fun _ => stays_blank hblanks, skipFrom_step rfl hquote, hkey.skip true, afterText, if_pos rfl,
    skipFrom_gap afterKey fun _ => stays_blank rfl, skipFrom_step rfl rfl,
    h.skip (.inl rfl) beforeValue after .object opened hrest]

theorem skipFrom_word {w : List UInt8} (hw : w ≠ []) (opened : List Bracket) (rest : List UInt8) :
    skipFrom (.word w) opened (w ++ rest) = skipFrom .after opened rest := by
  induction w with
  | nil => exact absurd rfl hw
  | cons b w ih =>
    rw [List.cons_append]
    cases w with
    | nil => exact skipFrom_step (Bool.and_false _) (by simp only [step, if_pos])
    | cons c w =>
      rw [skipFrom_step (Bool.and_false _) (by simp only [step, if_pos]; rfl)]
      exact ih (List.cons_ne_nil c w)

/-- A list is passed when what is between its brackets is, with one more bracket open. -/
theorem passes_list {inner : List Char}
    (h : ∀ opened rest,
      skipFrom .firstItem (.list :: opened) (utf8 inner ++ 0x5d :: rest) = skipFrom .after opened rest) :
    Passes ('[' :: inner ++ [']']) :=
  ⟨0x5b, utf8 inner ++ [0x5d], by simp, fun opened =>
    ⟨.firstItem, .list :: opened, rfl, fun rest _ => by simpa using h opened rest⟩⟩

/-- An object is passed when what is between its brackets is, with one more bracket open. -/
theorem passes_object {inner : List Char}
    (h : ∀ opened rest,
      skipFrom .firstKey (.object :: opened) (utf8 inner ++ 0x7d :: rest) = skipFrom .after opened rest) :
    Passes ('\x7b' :: inner ++ ['\x7d']) :=
  ⟨0x7b, utf8 inner ++ [0x7d], by simp, fun opened =>
    ⟨.firstKey, .object :: opened, rfl, fun rest _ => by simpa using h opened rest⟩⟩

theorem passes_text {body : List Char} (h : Body body) : Passes ('"' :: body ++ ['"']) :=
  ⟨0x22, utf8 body ++ [0x22], by simp, fun opened =>
    ⟨.text false, opened, rfl, fun rest _ => by simpa [afterText] using h.skip false opened rest⟩⟩

theorem passes_word {cs : List Char} {b : UInt8} {w : List UInt8} (hbytes : utf8 cs = b :: w) (hw : w ≠ [])
    (hstart : ∀ opened, startValue b opened = .ok (.word w, opened)) : Passes cs :=
  ⟨b, w, hbytes, fun opened => ⟨.word w, opened, hstart opened, fun rest _ => skipFrom_word hw opened rest⟩⟩

/-- By induction on the form: each part of it is passed from the states in which it may begin. -/
theorem WellFormed.skipped {form : Form} {cs : List Char} (h : WellFormed form cs) : Skipped form cs := by
  have hcomma (rest : List UInt8) : Delimited (0x2c :: rest) := rfl
  have hcloseList (rest : List UInt8) : Delimited (0x5d :: rest) := rfl
  have hcloseObject (rest : List UInt8) : Delimited (0x7d :: rest) := rfl
  induction h with
  | nullWord => exact passes_word rfl (List.cons_ne_nil _ _) fun _ => rfl
  | trueWord => exact passes_word rfl (List.cons_ne_nil _ _) fun _ => rfl
  | falseWord => exact passes_word rfl (List.cons_ne_nil _ _) fun _ => rfl
  | number h => exact h.passes
  | text h => exact passes_text h
  | emptyList gap =>
    refine passes_list fun opened rest => ?_
    rw [skipFrom_gap gap fun _ => stays_blank rfl, skipFrom_step rfl rfl]
    rfl
  | list _ ih => exact passes_list (ih .firstItem (.inr rfl))
  | emptyObject gap =>
    refine passes_object fun opened rest => ?_
    rw [skipFrom_gap gap fun _ => stays_blank rfl, skipFrom_step rfl rfl]
    rfl
  | object _ ih => exact passes_object (ih .firstKey (.inr rfl))
  | lastItem before after _ ih =>
    intro state hstate opened rest
    rw [Passes.skip ih hstate before after .list opened (hcloseList rest), skipFrom_step rfl rfl]
  | item before after _ _ ih ihmore =>
    intro state hstate opened rest
    rw [utf8_append, (utf8_marks _).2.2.1, List.append_assoc, List.cons_append,
      Passes.skip ih hstate before after .list opened (hcomma _), skipFrom_step rfl rfl, ihmore .value (.inl rfl)]
  | lastMember before afterKey beforeValue after hkey _ ih =>
    intro state hstate opened rest
    rw [skipFrom_member hkey ih hstate before afterKey beforeValue after opened (hcloseObject rest),
      skipFrom_step rfl rfl]
  | member before afterKey beforeValue after hkey _ _ ih ihmore =>
    intro state hstate opened rest
    rw [utf8_append, (utf8_marks _).2.2.1, List.append_assoc, List.cons_append,
      skipFrom_member hkey ih hstate before afterKey beforeValue after opened (hcomma _), skipFrom_step rfl rfl,
      ihmore .key (.inl rfl)]

/-- A well-formed value is skipped wherever it stands, and nothing behind it. -/
theorem WellFormed.skip {cs : List Char} (h : WellFormed .value cs) (gap : Gap) {rest : List UInt8}
    (hrest : Delimited rest) : skip (utf8 gap.chars ++ (utf8 cs ++ rest)) = .ok () rest := by
  rw [Json.skip, Passes.behind h.skipped (.inl rfl) gap [] hrest]
  cases rest with
  | nil => rfl
  | cons b rest => rfl

end LogGateway.Json
