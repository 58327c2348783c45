/-
How readers take written parts off the front of a text's bytes. A reader reads a value from some characters when it
does so wherever they stand: behind blanks, and before anything that does not continue a number.
-/
import LogGateway.Json.Sequence
import LogGateway.Proofs.Json.Grammar
import LogGateway.Proofs.Sequence

namespace LogGateway.Json

/-! ## Bytes of characters -/

/-- The bytes of characters. -/
def utf8 (cs : List Char) : List UInt8 := cs.flatMap String.utf8EncodeChar

@[simp] theorem utf8_nil : utf8 [] = [] := rfl

theorem utf8_cons (c : Char) (cs : List Char) : utf8 (c :: cs) = String.utf8EncodeChar c ++ utf8 cs := rfl

@[simp] theorem utf8_append (as bs : List Char) : utf8 (as ++ bs) = utf8 as ++ utf8 bs := List.flatMap_append

/-- The bytes of the characters that stand between the parts of a text. -/
@[simp] theorem utf8_marks (cs : List Char) :
    utf8 ('"' :: cs) = 0x22 :: utf8 cs ∧ utf8 ('\\' :: cs) = 0x5c :: utf8 cs ∧
      utf8 (',' :: cs) = 0x2c :: utf8 cs ∧ utf8 (':' :: cs) = 0x3a :: utf8 cs ∧
      utf8 ('[' :: cs) = 0x5b :: utf8 cs ∧ utf8 (']' :: cs) = 0x5d :: utf8 cs ∧
      utf8 ('\x7b' :: cs) = 0x7b :: utf8 cs ∧ utf8 ('\x7d' :: cs) = 0x7d :: utf8 cs ∧
      utf8 ('u' :: cs) = 0x75 :: utf8 cs :=
  ⟨rfl, rfl, rfl, rfl, rfl, rfl, rfl, rfl, rfl⟩

theorem encode_ofList (cs : List Char) : Utf8.encode (String.ofList cs) = utf8 cs := by
  have hbytes : (String.ofList cs).toUTF8 = cs.utf8Encode := String.toByteArray_ofList
  rw [Utf8.encode, hbytes, List.utf8Encode, List.data_toByteArray, utf8]

theorem decode?_utf8 (cs : List Char) : Utf8.decode? (utf8 cs) = some (String.ofList cs) := by
  have hbytes : ByteArray.mk (utf8 cs).toArray = cs.utf8Encode := by
    rw [List.utf8Encode, ← List.data_toByteArray, utf8]
  rw [Utf8.decode?, hbytes, String.fromUTF8?, dif_pos ⟨cs, rfl⟩]
  congr 1

/-- A character of the first 128 is one byte. -/
theorem utf8EncodeChar_ascii {c : Char} (h : c.toNat < 0x80) : String.utf8EncodeChar c = [UInt8.ofNat c.toNat] := by
  have hsmall : c.val.toNat ≤ 0x7f := Nat.le_of_lt_succ h
  simp only [String.utf8EncodeChar, if_pos hsmall]
  rfl

theorem utf8_escape {e : Char} (he : e.toNat < 0x80) (body : List Char) :
    utf8 ('\\' :: e :: body) = 0x5c :: UInt8.ofNat e.toNat :: utf8 body := by
  rw [(utf8_marks _).2.1, utf8_cons, utf8EncodeChar_ascii he]
  rfl

/-- What must hold of a byte that stands for itself in a text. -/
structure Ordinary (b : UInt8) : Prop where
  ne_quote : b ≠ 0x22
  ne_backslash : b ≠ 0x5c
  printable : ¬b < 0x20

theorem Ordinary.of_toNat {n : Nat} (hprintable : 0x20 ≤ n % 256) (hquote : n % 256 ≠ 0x22)
    (hbackslash : n % 256 ≠ 0x5c) : Ordinary (UInt8.ofNat n) := by
  have hn : (UInt8.ofNat n).toNat = n % 256 := UInt8.toNat_ofNat
  refine ⟨fun h => hquote ?_, fun h => hbackslash ?_, fun h => ?_⟩
  · rw [← hn, h]; rfl
  · rw [← hn, h]; rfl
  · have hlt := UInt8.lt_iff_toNat_lt.mp h
    rw [hn] at hlt
    exact absurd hlt (Nat.not_lt_of_le hprintable)

/-- All bytes of a character that stands for itself do, whether it is written with one byte or with more. -/
theorem Plain.ordinary {c : Char} (hc : Plain c) : ∀ b ∈ String.utf8EncodeChar c, Ordinary b := by
  have hquote : c.val.toNat ≠ 0x22 := fun h => hc.ne_quote (Char.toNat_inj.mp h)
  have hbackslash : c.val.toNat ≠ 0x5c := fun h => hc.ne_backslash (Char.toNat_inj.mp h)
  have hprintable : 0x20 ≤ c.val.toNat := hc.printable
  intro b hb
  simp only [String.utf8EncodeChar] at hb
  split at hb
  · obtain rfl := List.mem_singleton.mp hb
    exact .of_toNat (by omega) (by omega) (by omega)
  -- A byte of a longer form is at least 0x80.
  split at hb
  · simp only [List.mem_cons, List.not_mem_nil, or_false] at hb
    rcases hb with rfl | rfl <;> exact .of_toNat (by omega) (by omega) (by omega)
  split at hb
  · simp only [List.mem_cons, List.not_mem_nil, or_false] at hb
    rcases hb with rfl | rfl | rfl <;> exact .of_toNat (by omega) (by omega) (by omega)
  · simp only [List.mem_cons, List.not_mem_nil, or_false] at hb
    rcases hb with rfl | rfl | rfl | rfl <;> exact .of_toNat (by omega) (by omega) (by omega)

/-! ## Steps of a reader -/

theorem map_ok {α β : Type} {reader : Reader α} {bytes rest : List UInt8} {a : α} (f : α → β)
    (h : reader bytes = .ok a rest) : (f <$> reader) bytes = .ok (f a) rest := by
  change EStateM.map f reader bytes = .ok (f a) rest
  rw [EStateM.map, h]

theorem get_ok (bytes : List UInt8) : (get : Reader (List UInt8)) bytes = .ok bytes bytes := rfl

theorem Gap.blank_of_mem (gap : Gap) : ∀ b ∈ utf8 gap.chars, isBlank b = true := by
  intro b hb
  obtain ⟨c, hc, hb⟩ := List.mem_flatMap.mp hb
  rcases gap.blank c hc with rfl | rfl | rfl | rfl <;> (rw [List.mem_singleton.mp hb]; rfl)

/-- What is peeked at stands behind the gap, which is taken off. -/
theorem peek_gap (gap : Gap) (rest : List UInt8) : peek (utf8 gap.chars ++ rest) = peek rest := by
  simp only [peek, List.dropWhile_append_of_pos gap.blank_of_mem]

theorem peek_cons {b : UInt8} (hb : isBlank b = false) (rest : List UInt8) :
    peek (b :: rest) = .ok (some b) (b :: rest) := by
  have hdrop : (b :: rest).dropWhile isBlank = b :: rest := List.dropWhile_cons_of_neg (by simp [hb])
  simp only [peek, hdrop, List.head?_cons]

theorem peek_behind (gap : Gap) {b : UInt8} (hb : isBlank b = false) (rest : List UInt8) :
    peek (utf8 gap.chars ++ b :: rest) = .ok (some b) (b :: rest) := (peek_gap gap _).trans (peek_cons hb rest)

theorem advance_cons (b : UInt8) (rest : List UInt8) : advance (b :: rest) = .ok () rest := rfl

theorem finish_gap (gap : Gap) : finish (utf8 gap.chars) = .ok () [] := by
  have hpeek : peek (utf8 gap.chars) = .ok none [] := by
    rw [← List.append_nil (utf8 gap.chars), peek_gap]
    rfl
  rw [finish, bind_of_ok hpeek]
  rfl

theorem word_append (w rest : List UInt8) : word w (w ++ rest) = .ok () rest := by
  induction w with
  | nil => rfl
  | cons b w ih =>
    have hnext : next (b :: w ++ rest) = .ok (some b) (w ++ rest) := rfl
    rw [word, bind_of_ok hnext]
    simpa only [if_pos] using ih

/-! ## Values that are read -/

/-- Whether a byte may stand inside a number after its first digit. -/
def continuesNumber (b : UInt8) : Bool := isDigit b || b = 0x2e || b = 0x65 || b = 0x45

theorem not_continuesNumber_of_isBlank {b : UInt8} (h : isBlank b = true) : continuesNumber b = false := by
  simp only [isBlank, Bool.or_eq_true, decide_eq_true_eq] at h
  rcases h with ((rfl | rfl) | rfl) | rfl <;> rfl

/-- No number goes on into these bytes. -/
def Delimited (rest : List UInt8) : Prop := rest.head?.any continuesNumber = false

theorem Delimited.gap {rest : List UInt8} (h : Delimited rest) (gap : Gap) : Delimited (utf8 gap.chars ++ rest) := by
  cases hblanks : utf8 gap.chars with
  | nil => exact h
  | cons b bytes =>
    have hblank := gap.blank_of_mem b (by rw [hblanks]; exact List.mem_cons_self ..)
    exact not_continuesNumber_of_isBlank hblank

/-- The reader reads the value from the characters, wherever they stand. -/
structure Reads {α : Type} (reader : Reader α) (cs : List Char) (a : α) : Prop where
  opens : ∃ b bytes, utf8 cs = b :: bytes ∧ isBlank b = false ∧ b ≠ 0x5d
  reads : ∀ (gap : Gap) (rest : List UInt8), Delimited rest →
    reader (utf8 gap.chars ++ utf8 cs ++ rest) = .ok a rest

namespace Reads

variable {α β : Type} {reader : Reader α} {cs : List Char} {a : α}

theorem map (f : α → β) (h : Reads reader cs a) : Reads (f <$> reader) cs (f a) :=
  ⟨h.opens, fun gap rest hrest => map_ok f (h.reads gap rest hrest)⟩

theorem reads_at (h : Reads reader cs a) {rest : List UInt8} (hrest : Delimited rest) :
    reader (utf8 cs ++ rest) = .ok a rest := h.reads .none rest hrest

/-- A whole text, with blanks around the value. -/
theorem run (h : Reads reader cs a) (before after : Gap) :
    reader.run (utf8 (before.chars ++ cs ++ after.chars)) = .ok a := by
  have hempty : Delimited [] := rfl
  have hdelimited : Delimited (utf8 after.chars) := by simpa using hempty.gap after
  have hread := h.reads before (utf8 after.chars) hdelimited
  rw [Reader.run, utf8_append, utf8_append, bind_of_ok hread, bind_of_ok (finish_gap after)]
  rfl

end Reads

/-! ## Texts -/

theorem contents_quote (done rest : List UInt8) : contents done (0x22 :: rest) = .ok done.reverse rest := by
  rw [contents.eq_def]
  simp only [if_pos]

theorem contents_cons {b : UInt8} (h : Ordinary b) (done rest : List UInt8) :
    contents done (b :: rest) = contents (b :: done) rest := by
  rw [contents.eq_def]
  simp only [if_neg h.ne_quote, if_neg h.ne_backslash, if_neg h.printable]

theorem contents_ordinary {bytes : List UInt8} (h : ∀ b ∈ bytes, Ordinary b) (done rest : List UInt8) :
    contents done (bytes ++ rest) = contents (bytes.reverse ++ done) rest := by
  induction bytes generalizing done with
  | nil => rfl
  | cons b bytes ih =>
    rw [List.cons_append, contents_cons (h b (List.mem_cons_self ..)), ih fun b hb => h b (List.mem_cons_of_mem _ hb),
      List.reverse_cons, List.append_assoc]
    rfl

theorem ne_u_of_simpleEscape {e c : UInt8} (he : simpleEscape? e = some c) : e ≠ 0x75 := by
  rintro rfl
  have hnone : simpleEscape? 0x75 = none := by decide
  rw [hnone] at he
  cases he

/-- An escape of one letter. -/
theorem contents_short {e c : UInt8} (he : simpleEscape? e = some c) (done rest : List UInt8) :
    contents done (0x5c :: e :: rest) = contents (c :: done) rest := by
  have hletter := ne_u_of_simpleEscape he
  have hbackslash : (0x5c : UInt8) ≠ 0x22 := by decide
  rw [contents.eq_def]
  simp only [if_neg hbackslash, if_pos, if_neg hletter, he]

/-- An escape of a character of its own. -/
theorem contents_whole {a b c d : UInt8} {n : Nat} (hunit : unit16? a b c d = some n) (hn : n < 0xd800 ∨ 0xdfff < n)
    (done rest : List UInt8) :
    contents done (0x5c :: 0x75 :: a :: b :: c :: d :: rest) = contents (reversedBytes n ++ done) rest := by
  have hbackslash : (0x5c : UInt8) ≠ 0x22 := by decide
  have hlow : ¬(0xdc00 ≤ n ∧ n ≤ 0xdfff) := by omega
  have hwhole : n < 0xd800 ∨ 0xdbff < n := by omega
  rw [contents.eq_def]
  simp only [if_neg hbackslash, if_pos, hunit, if_neg hlow, if_pos hwhole]

/-- An escape of a character in two halves. -/
theorem contents_halves {a b c d a' b' c' d' : UInt8} {high low : Nat} (hunit : unit16? a b c d = some high)
    (hunit' : unit16? a' b' c' d' = some low) (hhigh : 0xd800 ≤ high ∧ high ≤ 0xdbff)
    (hlow : 0xdc00 ≤ low ∧ low ≤ 0xdfff) (done rest : List UInt8) :
    contents done (0x5c :: 0x75 :: a :: b :: c :: d :: 0x5c :: 0x75 :: a' :: b' :: c' :: d' :: rest)
      = contents (reversedBytes (0x10000 + (high - 0xd800) * 0x400 + (low - 0xdc00)) ++ done) rest := by
  have hbackslash : (0x5c : UInt8) ≠ 0x22 := by decide
  have hnotLow : ¬(0xdc00 ≤ high ∧ high ≤ 0xdfff) := by omega
  have hnotWhole : ¬(high < 0xd800 ∨ 0xdbff < high) := by omega
  rw [contents.eq_def]
  simp only [if_neg hbackslash, if_pos, hunit, if_neg hnotLow, if_neg hnotWhole, ne_eq, not_true_eq_false, if_false,
    hunit', if_pos hlow]

theorem shortEscapes_bytes : ∀ p ∈ shortEscapes, p.1.toNat < 0x80 ∧ p.2.toNat < 0x80 ∧
    simpleEscape? (UInt8.ofNat p.1.toNat) = some (UInt8.ofNat p.2.toNat) := by decide

/-- Beyond the first 128 characters there are no digits. -/
theorem toNat_lt_of_digitValue {base : Nat} {c : Char} {v : Nat} (h : Number.digitValue base c = some v) :
    c.toNat < 0x80 := by
  refine Nat.lt_of_not_le fun hlarge => ?_
  have hbeyond : ∀ d : Char, d.toNat < 0x80 → ¬c ≤ d := fun d hd hle =>
    Nat.not_le_of_lt hd (Nat.le_trans hlarge (UInt32.le_iff_toNat_le.mp hle))
  have hnone : Number.digitValue base c = none := by
    simp [Number.digitValue, hbeyond '9' (by decide), hbeyond 'f' (by decide), hbeyond 'F' (by decide)]
  rw [hnone] at h
  cases h

/-- A digit is one byte, which is read as the same value. -/
theorem byte_of_digitValue {c : Char} {v : Nat} (h : Number.digitValue 16 c = some v) :
    ∃ b, String.utf8EncodeChar c = [b] ∧ hexDigit? b = some v := by
  have hsmall := toNat_lt_of_digitValue h
  -- The first 128 characters are compared one by one.
  have hall : ∀ n < 0x80, hexDigit? (UInt8.ofNat n) = Number.digitValue 16 (Char.ofNat n) := by decide +kernel
  refine ⟨UInt8.ofNat c.toNat, utf8EncodeChar_ascii hsmall, ?_⟩
  rw [hall _ hsmall, Char.ofNat_toNat, h]

/-- Four digits as bytes. -/
theorem Quad.bytes {quad : List Char} {n : Nat} (h : Quad quad n) :
    ∃ a b c d, utf8 quad = [a, b, c, d] ∧ unit16? a b c d = some n := by
  obtain ⟨ha, hb, hc, hd⟩ := h
  obtain ⟨a, habytes, ha⟩ := byte_of_digitValue ha
  obtain ⟨b, hbbytes, hb⟩ := byte_of_digitValue hb
  obtain ⟨c, hcbytes, hc⟩ := byte_of_digitValue hc
  obtain ⟨d, hdbytes, hd⟩ := byte_of_digitValue hd
  exact ⟨a, b, c, d, by simp [utf8_cons, habytes, hbbytes, hcbytes, hdbytes],
    by simp only [unit16?, ha, hb, hc, hd]⟩

theorem utf8_numbered {quad : List Char} {a b c d : UInt8} (hquad : utf8 quad = [a, b, c, d]) (body : List Char) :
    utf8 ('\\' :: 'u' :: quad ++ body) = 0x5c :: 0x75 :: a :: b :: c :: d :: utf8 body := by
  simp [hquad]

/-- What is spelled up to the quote is read, with its escapes resolved. -/
theorem Spells.contents {body cs : List Char} (h : Spells body cs) (done rest : List UInt8) :
    contents done (utf8 body ++ 0x22 :: rest) = .ok (done.reverse ++ utf8 cs) rest := by
  induction h generalizing done with
  | nil => simpa using contents_quote done rest
  | plain hc _ ih =>
    rw [utf8_cons, utf8_cons, List.append_assoc, contents_ordinary hc.ordinary, ih]
    simp
  | @short e c body cs he _ ih =>
    obtain ⟨he, hc, hstands⟩ := shortEscapes_bytes _ he
    rw [utf8_escape he, List.cons_append, List.cons_append, contents_short hstands, ih, utf8_cons,
      utf8EncodeChar_ascii hc]
    simp
  | @whole quad body cs n hquad hn _ ih =>
    obtain ⟨a, b, c, d, hquad, hunit⟩ := hquad.bytes
    rw [utf8_numbered hquad, utf8_cons]
    simp [contents_whole hunit hn, ih, reversedBytes]
  | @halves quad quad' body cs high low hquad hquad' hhigh hlow _ ih =>
    obtain ⟨a, b, c, d, hquad, hunit⟩ := hquad.bytes
    obtain ⟨a', b', c', d', hquad', hunit'⟩ := hquad'.bytes
    have hbytes : utf8 ('\\' :: 'u' :: quad ++ '\\' :: 'u' :: quad' ++ body)
        = 0x5c :: 0x75 :: a :: b :: c :: d :: 0x5c :: 0x75 :: a' :: b' :: c' :: d' :: utf8 body := by
      simp [hquad, hquad']
    rw [hbytes, utf8_cons]
    simp [contents_halves hunit hunit' hhigh hlow, ih, reversedBytes]

/-- What is spelled between quotes is read behind the opening quote. -/
theorem Spells.text {body cs : List Char} (h : Spells body cs) (rest : List UInt8) :
    text (utf8 body ++ 0x22 :: rest) = .ok (String.ofList cs) rest := by
  have hcontents : Json.contents [] (utf8 body ++ 0x22 :: rest) = .ok (utf8 cs) rest := h.contents [] rest
  rw [Json.text, bind_of_ok hcontents]
  simp only [decode?_utf8]
  rfl

namespace Reads

variable {α : Type} {body cs : List Char}

/-- A text between quotes is read by the reader that reads one behind its quote. -/
theorem quoted {reader : Reader α} {a : α}
    (h : ∀ (gap : Gap) (rest : List UInt8), Delimited rest →
      reader (utf8 gap.chars ++ 0x22 :: (utf8 body ++ 0x22 :: rest)) = .ok a rest) :
    Reads reader ('"' :: body ++ ['"']) a where
  opens := ⟨0x22, _, rfl, rfl, by decide⟩
  reads gap rest hrest := by simpa using h gap rest hrest

theorem string (h : Spells body cs) : Reads string ('"' :: body ++ ['"']) (String.ofList cs) := by
  refine quoted fun gap rest _ => ?_
  rw [Json.string, bind_of_ok (peek_behind gap rfl _)]
  simp only [if_pos]
  rw [bind_of_ok (advance_cons ..)]
  exact h.text rest

theorem parsed {read : String → Except Mismatch α} {a : α} (h : Spells body cs)
    (hread : read (String.ofList cs) = .ok a) : Reads (parsed read) ('"' :: body ++ ['"']) a where
  opens := (string h).opens
  reads gap rest hrest := by
    rw [Json.parsed, bind_of_ok ((string h).reads gap rest hrest), hread]
    rfl

/-- What may be a text or a list is read as a text. -/
theorem textOr {wanted : String} {ofText : String → Except Mismatch α} {ofList : Reader α} {a : α}
    (h : Spells body cs) (hread : ofText (String.ofList cs) = .ok a) :
    Reads (textOr wanted ofText ofList) ('"' :: body ++ ['"']) a := by
  refine quoted fun gap rest hrest => ?_
  rw [Json.textOr, bind_of_ok (peek_behind gap rfl _)]
  simpa using (parsed h hread).reads_at hrest

theorem boolean (value : Bool) : Reads boolean (Write.boolean value) value := by
  have hword (w rest : List UInt8) : (do word w; pure value : Reader Bool) (w ++ rest) = .ok value rest := by
    rw [bind_of_ok (word_append w rest)]
    rfl
  cases value with
  | true =>
    have hbytes : utf8 (Write.boolean true) = 0x74 :: [0x72, 0x75, 0x65] := rfl
    refine ⟨⟨_, _, hbytes, rfl, by decide⟩, fun gap rest _ => ?_⟩
    rw [Json.boolean, hbytes, List.append_assoc, List.cons_append, bind_of_ok (peek_behind gap rfl _)]
    exact hword [0x72, 0x75, 0x65] rest
  | false =>
    have hbytes : utf8 (Write.boolean false) = 0x66 :: [0x61, 0x6c, 0x73, 0x65] := rfl
    refine ⟨⟨_, _, hbytes, rfl, by decide⟩, fun gap rest _ => ?_⟩
    rw [Json.boolean, hbytes, List.append_assoc, List.cons_append, bind_of_ok (peek_behind gap rfl _)]
    exact hword [0x61, 0x6c, 0x73, 0x65] rest

theorem null (reader : Reader α) : Reads (optional reader) Write.null none := by
  have hbytes : utf8 Write.null = 0x6e :: [0x75, 0x6c, 0x6c] := rfl
  refine ⟨⟨_, _, hbytes, rfl, by decide⟩, fun gap rest _ => ?_⟩
  rw [optional, hbytes, List.append_assoc, List.cons_append, bind_of_ok (peek_behind gap rfl _)]
  simp only
  rw [bind_of_ok (advance_cons ..), bind_of_ok (word_append [0x75, 0x6c, 0x6c] rest)]
  rfl

/-- A value that does not begin as `null` does is read by the reader of values. -/
theorem present {reader : Reader α} {a : α} (h : Reads reader cs a) (hfirst : (utf8 cs).head? ≠ some 0x6e) :
    Reads (optional reader) cs (some a) := by
  refine ⟨h.opens, fun gap rest hrest => ?_⟩
  obtain ⟨b, bytes, hbytes, hblank, -⟩ := h.opens
  have hvalue := h.reads_at hrest
  have hnull : some b ≠ some 0x6e := by simpa [hbytes] using hfirst
  rw [hbytes, List.cons_append] at hvalue
  rw [optional, hbytes, List.append_assoc, List.cons_append, bind_of_ok (peek_behind gap hblank _)]
  generalize some b = first at hnull
  split
  · exact absurd rfl hnull
  · exact map_ok some hvalue

end Reads

/-! ## Lists -/

/-- After the first part each one stands behind its comma. -/
theorem commaSeparated_cons (part : List Char) (parts : List (List Char)) :
    Write.commaSeparated (part :: parts) = part ++ parts.flatMap (',' :: ·) := by
  induction parts generalizing part with
  | nil => simp [Write.commaSeparated]
  | cons next parts ih =>
    rw [Write.commaSeparated, ih, List.flatMap_cons, List.cons_append]
    exact List.cons_ne_nil _ _

/-- What stands behind a part ends its number, if it is one. -/
theorem delimited_commas (parts : List (List Char)) {b : UInt8} (hb : continuesNumber b = false) (rest : List UInt8) :
    Delimited (utf8 (parts.flatMap (',' :: ·)) ++ b :: rest) := by
  cases parts with
  | nil => simpa [Delimited] using hb
  | cons part parts => rfl

theorem length_le_commas (parts : List (List Char)) : parts.length ≤ (utf8 (parts.flatMap (',' :: ·))).length := by
  induction parts with
  | nil => exact Nat.zero_le _
  | cons part parts ih => simp; omega

theorem length_le_commaSeparated (parts : List (List Char)) :
    parts.length ≤ (utf8 (Write.commaSeparated parts)).length + 1 := by
  cases parts with
  | nil => exact Nat.zero_le _
  | cons part parts =>
    have hlength := length_le_commas parts
    rw [commaSeparated_cons, utf8_append, List.length_append, List.length_cons]
    omega

section

variable {α : Type} {item : Reader α}

theorem nextItem_first {part : List Char} {a : α} (h : Reads item part a) (opening before : Gap) {rest : List UInt8}
    (hrest : Delimited rest) :
    nextItem true item (utf8 opening.chars ++ (utf8 before.chars ++ (utf8 part ++ rest))) = .ok (some a) rest := by
  obtain ⟨b, bytes, hpart, hblank, hclose⟩ := h.opens
  have hitem := h.reads_at hrest
  rw [hpart, List.cons_append] at hitem ⊢
  rw [nextItem, bind_of_ok ((peek_gap opening _).trans (peek_behind before hblank _))]
  simp only [if_neg hclose, if_pos]
  exact map_ok some hitem

theorem nextItem_comma {part : List Char} {a : α} (h : Reads item part a) (gap before : Gap) {rest : List UInt8}
    (hrest : Delimited rest) :
    nextItem false item (utf8 gap.chars ++ 0x2c :: (utf8 before.chars ++ (utf8 part ++ rest))) = .ok (some a) rest := by
  obtain ⟨b, bytes, hpart, hblank, hclose⟩ := h.opens
  have hitem := h.reads_at hrest
  have hcomma : (0x2c : UInt8) ≠ 0x5d := by decide
  rw [hpart, List.cons_append] at hitem ⊢
  rw [nextItem, bind_of_ok (peek_behind gap rfl _)]
  simp only [if_neg hcomma, if_pos, Bool.false_eq_true, if_false]
  rw [bind_of_ok (advance_cons ..), bind_of_ok (peek_behind before hblank _)]
  simp only [if_neg hclose]
  exact map_ok some hitem

theorem nextItem_close (isFirst : Bool) (item : Reader α) (gap : Gap) (rest : List UInt8) :
    nextItem isFirst item (utf8 gap.chars ++ 0x5d :: rest) = .ok none (0x5d :: rest) := by
  rw [nextItem, bind_of_ok (peek_behind gap rfl _)]
  rfl

theorem item_bytes (i : Item) (rest : List UInt8) :
    utf8 i.chars ++ rest = utf8 i.before.chars ++ (utf8 i.text ++ (utf8 i.after.chars ++ rest)) := by
  simp [Item.chars]

/-- The items behind commas, up to the bracket. By induction on them; each comes with its value. -/
theorem items_commas {is : List (Item × α)} (h : ∀ i ∈ is, Reads item i.1.text i.2) {bound : Nat}
    (hbound : is.length < bound) (done : List α) (gap : Gap) (rest : List UInt8) :
    items item bound false done
        (utf8 gap.chars ++ (utf8 ((is.map fun i => i.1.chars).flatMap (',' :: ·)) ++ 0x5d :: rest))
      = .ok (done.reverse ++ is.map Prod.snd) (0x5d :: rest) := by
  induction is generalizing bound done gap with
  | nil =>
    obtain ⟨bound, rfl⟩ := Nat.exists_eq_add_one.mpr hbound
    rw [List.map_nil, List.flatMap_nil, utf8_nil, List.nil_append, items, bind_of_ok (nextItem_close ..), List.map_nil,
      List.append_nil]
    rfl
  | cons i is ih =>
    obtain ⟨bound, rfl⟩ := Nat.exists_eq_add_one.mpr (Nat.zero_lt_of_lt hbound)
    obtain ⟨hi, his⟩ := List.forall_mem_cons.mp h
    have hrest := delimited_commas (is.map fun i => i.1.chars) (b := 0x5d) rfl rest
    rw [List.map_cons, List.flatMap_cons, utf8_append, (utf8_marks _).2.2.1, List.append_assoc, List.cons_append,
      item_bytes, items, bind_of_ok (nextItem_comma hi gap i.1.before (hrest.gap i.1.after))]
    simpa using ih his (Nat.lt_of_succ_lt_succ hbound) (i.2 :: done) i.1.after

/-- All items, up to the bracket. -/
theorem allItems_of {is : List (Item × α)} (h : ∀ i ∈ is, Reads item i.1.text i.2) (opening : Gap)
    (rest : List UInt8) :
    allItems item (utf8 opening.chars ++ (utf8 (Write.commaSeparated (is.map fun i => i.1.chars)) ++ 0x5d :: rest))
      = .ok (is.map Prod.snd) (0x5d :: rest) := by
  rw [allItems, bind_of_ok (get_ok _), items]
  cases is with
  | nil => exact bind_of_ok (nextItem_close true item opening rest)
  | cons i is =>
    obtain ⟨hi, his⟩ := List.forall_mem_cons.mp h
    have hrest := delimited_commas (is.map fun i => i.1.chars) (b := 0x5d) rfl rest
    have hlength := length_le_commas (is.map fun i => i.1.chars)
    rw [List.map_cons, commaSeparated_cons, utf8_append, List.append_assoc, item_bytes,
      bind_of_ok (nextItem_first hi opening i.1.before (hrest.gap i.1.after))]
    refine items_commas his ?_ [i.2] i.1.after rest
    simp only [List.length_map] at hlength
    simp only [List.length_append, List.length_cons]
    omega

/-- A list behind a gap. -/
theorem list_bytes (gap opening : Gap) (is : List Item) (rest : List UInt8) :
    utf8 gap.chars ++ utf8 (listChars opening is) ++ rest = utf8 gap.chars ++ 0x5b ::
      (utf8 opening.chars ++ (utf8 (Write.commaSeparated (is.map Item.chars)) ++ 0x5d :: rest)) := by
  simp [listChars]

namespace Reads

/-- A list is read when each of its items is. -/
theorem items {is : List (Item × α)} (h : ∀ i ∈ is, Reads item i.1.text i.2) (opening : Gap) :
    Reads (Json.list item) (listChars opening (is.map Prod.fst)) (is.map Prod.snd) := by
  refine ⟨⟨0x5b, _, rfl, rfl, by decide⟩, fun gap rest _ => ?_⟩
  have hall := allItems_of h opening rest
  rw [Json.list, list_bytes, List.map_map, bind_of_ok (peek_behind gap rfl _)]
  simp only [if_pos]
  rw [bind_of_ok (advance_cons ..)]
  exact bind_of_ok hall

/-- A list is read as the writer writes it, without gaps. -/
theorem list {write : α → List Char} {as : List α} (h : ∀ a ∈ as, Reads item (write a) a) :
    Reads (Json.list item) (Write.list (as.map write)) as := by
  have hitems : ∀ i ∈ as.map fun a => (Item.compact (write a), a), Reads item i.1.text i.2 := by
    intro i hi
    obtain ⟨a, ha, rfl⟩ := List.mem_map.mp hi
    exact h a ha
  simpa [list_eq, Function.comp_def] using items hitems .none

end Reads

end

end LogGateway.Json
