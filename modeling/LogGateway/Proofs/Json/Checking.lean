/-
Checking what was written. The writer puts a text together from words, numbers and texts by lists and objects, so that
only so many brackets are open at a time. Main statements: such a text is well formed, and where the brackets are not
too many the check finds nothing wrong with it.
-/
import LogGateway.Json.Check
import LogGateway.Proofs.Json.Integers
import LogGateway.Proofs.Json.Objects

namespace LogGateway.Json

/-- Values as the writer writes them, with at most so many brackets open at a time. -/
inductive Compact : Nat → List Char → Prop
  | null (depth : Nat) : Compact depth Write.null
  | boolean (depth : Nat) (value : Bool) : Compact depth (Write.boolean value)
  | nat (depth : Nat) {n : Nat} (h : n < UInt64.size) : Compact depth (Write.nat n)
  | text (depth : Nat) (cs : List Char) : Compact depth (Write.text cs)
  | list {depth : Nat} {parts : List (List Char)} (h : ∀ part ∈ parts, Compact depth part) :
      Compact (depth + 1) (Write.list parts)
  | object {depth : Nat} {entries : List (String × List Char)} (h : ∀ e ∈ entries, Compact depth e.2) :
      Compact (depth + 1) (Write.object entries)

theorem Compact.wellFormed {depth : Nat} {cs : List Char} (h : Compact depth cs) : WellFormed .value cs := by
  induction h with
  | null => exact .nullWord
  | boolean _ value =>
    cases value with
    | true => exact .trueWord
    | false => exact .falseWord
  | nat => exact wellFormed_nat _
  | text => exact wellFormed_text _
  | list _ ih => exact wellFormed_list ih
  | object _ ih => exact wellFormed_object ih

/-! ## Values without brackets -/

section

variable (inner : Option (Reader Unit))

theorem discard_ok {α : Type} {reader : Reader α} {bytes rest : List UInt8} {a : α} (h : reader bytes = .ok a rest) :
    discard reader bytes = .ok () rest := map_ok (Function.const α ()) h

theorem reads_any_null : Reads (valueWith inner) Write.null () := by
  have hbytes : utf8 Write.null = 0x6e :: [0x75, 0x6c, 0x6c] := rfl
  refine ⟨⟨_, _, hbytes, rfl, by decide⟩, fun gap rest _ => ?_⟩
  rw [valueWith, hbytes, List.append_assoc, List.cons_append, bind_of_ok (peek_behind gap rfl _)]
  exact (bind_of_ok (advance_cons ..)).trans (word_append [0x75, 0x6c, 0x6c] rest)

theorem reads_any_boolean (value : Bool) : Reads (valueWith inner) (Write.boolean value) () := by
  obtain ⟨hopens, hreads⟩ := Reads.boolean value
  refine ⟨hopens, fun gap rest hrest => ?_⟩
  have hvalue := discard_ok (hreads .none rest hrest)
  cases value with
  | true =>
    have hbytes : utf8 (Write.boolean true) = 0x74 :: [0x72, 0x75, 0x65] := rfl
    rw [valueWith, hbytes, List.append_assoc, List.cons_append, bind_of_ok (peek_behind gap rfl _)]
    exact hvalue
  | false =>
    have hbytes : utf8 (Write.boolean false) = 0x66 :: [0x61, 0x6c, 0x73, 0x65] := rfl
    rw [valueWith, hbytes, List.append_assoc, List.cons_append, bind_of_ok (peek_behind gap rfl _)]
    exact hvalue

theorem reads_any_text (cs : List Char) : Reads (valueWith inner) (Write.text cs) () := by
  have hstring := Reads.string (spells_escaped cs)
  refine .quoted fun gap rest hrest => ?_
  have hvalue := discard_ok (hstring.reads_at hrest)
  rw [valueWith, bind_of_ok (peek_behind gap rfl _)]
  simpa using hvalue

/-- A number begins with a digit, and so is neither a text nor a word. -/
theorem reads_any_nat {n : Nat} (h : n < UInt64.size) : Reads (valueWith inner) (Write.nat n) () := by
  obtain ⟨b, ds, hbytes, hb, -⟩ := toDigits_bytes n
  have hbytes : utf8 (Write.nat n) = b :: ds := hbytes
  have hne (c : UInt8) (hc : isDigit c = false) : b ≠ c := ne_of_isDigit hb hc
  have hblank : isBlank b = false := by
    simp [isBlank, hne 0x20 rfl, hne 0x0a rfl, hne 0x0d rfl, hne 0x09 rfl]
  refine ⟨⟨b, ds, hbytes, hblank, hne _ rfl⟩, fun gap rest hrest => ?_⟩
  have hinteger : integerChars n = Write.nat n := by simp [integerChars, Write.nat]
  have hnumeral : signedNumeral (utf8 (Write.nat n) ++ rest) = .ok (.whole n) rest := by
    rw [← hinteger]
    refine signedNumeral_integer (by omega) ?_ hrest
    have hsize : UInt64.size = 0x10000000000000000 := rfl
    omega
  rw [hbytes, List.cons_append] at hnumeral
  rw [valueWith, hbytes, List.append_assoc, List.cons_append, bind_of_ok (peek_behind gap hblank _)]
  simp only [hb, hne 0x22 rfl, hne 0x6e rfl, hne 0x74 rfl, hne 0x66 rfl, Bool.or_true, if_true, if_false, decide_false,
    Bool.or_self, Bool.false_eq_true]
  exact discard_ok hnumeral

end

/-! ## Members of any name -/

section

variable {value : Reader Unit} {ms : List Member}

/-- One member further. -/
theorem anyMembers_step {m : Member} (hm : Reads value m.value ()) {isFirst : Bool} {bytes rest : List UInt8}
    (hkey : Record.nextKey isFirst bytes = .ok (some m.name) (Record.valueBytes m rest)) (hrest : Delimited rest)
    (bound : Nat) :
    anyMembers value (bound + 1) isFirst bytes = anyMembers value bound false (utf8 m.after.chars ++ rest) := by
  have hread := hm.reads m.beforeValue _ (hrest.gap m.after)
  rw [anyMembers, bind_of_ok hkey]
  simp only
  rw [Record.valueBytes, bind_of_ok (Record.colon_gap ..), bind_of_ok hread]

/-- The members behind commas and the bracket. By induction on them. -/
theorem anyMembers_commas (h : ∀ m ∈ ms, Reads value m.value ()) {bound : Nat} (hbound : ms.length < bound) (gap : Gap)
    (rest : List UInt8) :
    anyMembers value bound false
        (utf8 gap.chars ++ (utf8 ((ms.map Member.chars).flatMap (',' :: ·)) ++ 0x7d :: rest)) = .ok () rest := by
  induction ms generalizing bound gap with
  | nil =>
    obtain ⟨bound, rfl⟩ := Nat.exists_eq_add_one.mpr hbound
    rw [List.map_nil, List.flatMap_nil, utf8_nil, List.nil_append, anyMembers, bind_of_ok (Record.nextKey_close ..)]
    rfl
  | cons m ms ih =>
    obtain ⟨bound, rfl⟩ := Nat.exists_eq_add_one.mpr (Nat.zero_lt_of_lt hbound)
    obtain ⟨hm, hms⟩ := List.forall_mem_cons.mp h
    rw [anyMembers_step hm (Record.nextKey_next m ms gap rest) (delimited_commas _ rfl rest)]
    exact ih hms (Nat.lt_of_succ_lt_succ hbound) m.after

/-- All members, from the opening bracket on. -/
theorem anyMembers_of (h : ∀ m ∈ ms, Reads value m.value ()) {bound : Nat} (hbound : ms.length < bound) (opening : Gap)
    (rest : List UInt8) :
    anyMembers value bound true
        (utf8 opening.chars ++ (utf8 (Write.commaSeparated (ms.map Member.chars)) ++ 0x7d :: rest)) = .ok () rest := by
  obtain ⟨bound, rfl⟩ := Nat.exists_eq_add_one.mpr (Nat.zero_lt_of_lt hbound)
  cases ms with
  | nil =>
    rw [List.map_nil, Write.commaSeparated, utf8_nil, List.nil_append, anyMembers,
      bind_of_ok (Record.nextKey_close ..)]
    rfl
  | cons m ms =>
    obtain ⟨hm, hms⟩ := List.forall_mem_cons.mp h
    rw [anyMembers_step hm (Record.nextKey_opening m ms opening rest) (delimited_commas _ rfl rest)]
    exact anyMembers_commas hms (Nat.lt_of_succ_lt_succ hbound) m.after rest

end

/-! ## Lists and objects -/

section

variable {inner : Reader Unit}

theorem reads_any_list {is : List Item} (h : ∀ i ∈ is, Reads inner i.text ()) (opening : Gap) :
    Reads (valueWith (some inner)) (listChars opening is) () := by
  refine ⟨⟨0x5b, _, rfl, rfl, by decide⟩, fun gap rest _ => ?_⟩
  have hitems : ∀ i ∈ is.map fun i => (i, ()), Reads inner i.1.text i.2 := by
    intro i hi
    obtain ⟨j, hj, rfl⟩ := List.mem_map.mp hi
    exact h j hj
  have hall := discard_ok (allItems_of hitems opening rest)
  rw [List.map_map] at hall
  rw [list_bytes, valueWith, bind_of_ok (peek_behind gap rfl _)]
  exact (bind_of_ok (advance_cons ..)).trans (bind_of_ok hall)

theorem reads_any_object {ms : List Member} (h : ∀ m ∈ ms, Reads inner m.value ()) (opening : Gap) :
    Reads (valueWith (some inner)) (objectChars opening ms) () := by
  refine ⟨⟨0x7b, _, rfl, rfl, by decide⟩, fun gap rest _ => ?_⟩
  have hall := anyMembers_of h (Record.length_lt_object opening ms rest) opening rest
  rw [Record.object_bytes, valueWith, bind_of_ok (peek_behind gap rfl _)]
  exact (bind_of_ok (advance_cons ..)).trans ((bind_of_ok (get_ok _)).trans hall)

end

/-! ## Whole texts -/

/-- Where so many brackets may be open, the reader of any value reads what was written. -/
theorem Compact.reads {depth : Nat} {cs : List Char} (h : Compact depth cs) : Reads (anyValue depth) cs () := by
  have hflat (depth : Nat) : ∃ inner, anyValue depth = valueWith inner := by cases depth <;> exact ⟨_, rfl⟩
  induction h with
  | null depth =>
    obtain ⟨inner, hinner⟩ := hflat depth
    exact hinner ▸ reads_any_null inner
  | boolean depth value =>
    obtain ⟨inner, hinner⟩ := hflat depth
    exact hinner ▸ reads_any_boolean inner value
  | nat depth hn =>
    obtain ⟨inner, hinner⟩ := hflat depth
    exact hinner ▸ reads_any_nat inner hn
  | text depth cs =>
    obtain ⟨inner, hinner⟩ := hflat depth
    exact hinner ▸ reads_any_text inner cs
  | @list depth parts _ ih =>
    rw [list_eq]
    refine reads_any_list (fun i hi => ?_) .none
    obtain ⟨part, hpart, rfl⟩ := List.mem_map.mp hi
    exact ih part hpart
  | @object depth entries _ ih =>
    rw [object_eq]
    refine reads_any_object (fun m hm => ?_) .none
    obtain ⟨e, he, rfl⟩ := List.mem_map.mp hm
    exact ih e he

/-- The check finds nothing wrong with what was written. -/
theorem Compact.check_eq_none {cs : List Char} (h : Compact depthLimit cs) : check (utf8 cs) = none := by
  have hrun : (anyValue depthLimit).run (utf8 cs) = .ok () := by simpa [Gap.none] using h.reads.run .none .none
  rw [check, hrun]

end LogGateway.Json
