/-
What the text of an object says: its members, by their names and by the texts of their values, and in their order.
Main statement: objects of the same text have the same entries, whatever gaps and spellings each is taken apart by.
-/
import LogGateway.Proofs.Json.Objects

namespace LogGateway.Json

theorem utf8_injective {as bs : List Char} (h : utf8 as = utf8 bs) : as = bs := by
  have hdecoded : some (String.ofList as) = some (String.ofList bs) := by
    rw [← decode?_utf8, ← decode?_utf8, h]
  exact String.ofList_inj.mp (Option.some.inj hdecoded)

/-- What a reader reads from a text is one value. -/
theorem Reads.unique {α : Type} {reader : Reader α} {cs : List Char} {a b : α} (ha : Reads reader cs a)
    (hb : Reads reader cs b) : a = b := by
  have hempty : Delimited [] := rfl
  have hsame := (ha.reads_at hempty).symm.trans (hb.reads_at hempty)
  cases hsame
  rfl

/-- A writer whose texts are read back writes different texts for different values. -/
theorem injective_of_reads {α : Type} {reader : Reader α} {write : α → List Char} (h : ∀ a, Reads reader (write a) a) :
    Function.Injective write := by
  intro a b hab
  have hb := h b
  rw [← hab] at hb
  exact (h a).unique hb

/-- A member's name and the text of its value. -/
def Member.entry (m : Member) : String × List Char := (m.name, m.value)

/-! ## Behind gaps -/

theorem read_unique {α : Type} {reader : Reader α} {a b : α} {bytes bytes' rest rest' : List UInt8}
    (h : bytes = bytes') (hread : reader bytes = .ok a rest) (hread' : reader bytes' = .ok b rest') :
    a = b ∧ rest = rest' := by
  subst h
  cases hread.symm.trans hread'
  exact ⟨rfl, rfl⟩

/-- What stands behind a gap is determined when it does not begin with a blank. -/
theorem behind_gap {gap gap' : Gap} {b b' : UInt8} {rest rest' : List UInt8} (hb : isBlank b = false)
    (hb' : isBlank b' = false) (h : utf8 gap.chars ++ b :: rest = utf8 gap'.chars ++ b' :: rest') :
    b :: rest = b' :: rest' := (read_unique h (peek_behind gap hb rest) (peek_behind gap' hb' rest')).2

theorem WellFormed.opens {cs : List Char} (h : WellFormed .value cs) :
    ∃ b bytes, utf8 cs = b :: bytes ∧ isBlank b = false := by
  obtain ⟨b, bytes, hbytes, hstart⟩ := h.skipped
  obtain ⟨state, inner, hstart, -⟩ := hstart []
  exact ⟨b, bytes, hbytes, (opens_of_startValue hstart).1⟩

/-- A well-formed value behind a gap is determined, and so is what stands behind the value. -/
theorem WellFormed.unique {gap gap' : Gap} {cs cs' : List Char} {rest rest' : List UInt8} (hcs : WellFormed .value cs)
    (hcs' : WellFormed .value cs') (hrest : Delimited rest) (hrest' : Delimited rest')
    (h : utf8 gap.chars ++ (utf8 cs ++ rest) = utf8 gap'.chars ++ (utf8 cs' ++ rest')) : cs = cs' ∧ rest = rest' := by
  obtain rfl := (read_unique h (hcs.skip gap hrest) (hcs'.skip gap' hrest')).2
  rw [← List.append_assoc, ← List.append_assoc, List.append_cancel_right_eq] at h
  obtain ⟨b, bytes, hbytes, hb⟩ := hcs.opens
  obtain ⟨b', bytes', hbytes', hb'⟩ := hcs'.opens
  rw [hbytes, hbytes'] at h
  exact ⟨utf8_injective (hbytes.trans ((behind_gap hb hb' h).trans hbytes'.symm)), rfl⟩

/-! ## Members -/

/-- What may stand behind a member: a comma or the bracket that ends the object. -/
def EndsMember (rest : List UInt8) : Prop := ∃ b bytes, rest = b :: bytes ∧ (b = 0x2c ∨ b = 0x7d)

theorem EndsMember.delimited {rest : List UInt8} (h : EndsMember rest) : Delimited rest := by
  obtain ⟨b, bytes, rfl, rfl | rfl⟩ := h <;> rfl

theorem endsMember_commas (parts : List (List Char)) (rest : List UInt8) :
    EndsMember (utf8 (parts.flatMap (',' :: ·)) ++ 0x7d :: rest) := by
  cases parts with
  | nil => exact ⟨0x7d, rest, rfl, .inr rfl⟩
  | cons part parts => exact ⟨0x2c, _, rfl, .inl rfl⟩

/-- A member behind a gap is determined, and so is what ends it. The key, the colon and the value are read off the
front, one after the other. -/
theorem Member.unique {m m' : Member} (hm : WellFormed .value m.value) (hm' : WellFormed .value m'.value)
    {gap gap' : Gap} {rest rest' : List UInt8} (hrest : EndsMember rest) (hrest' : EndsMember rest')
    (h : utf8 gap.chars ++ (utf8 m.chars ++ rest) = utf8 gap'.chars ++ (utf8 m'.chars ++ rest')) :
    m.entry = m'.entry ∧ rest = rest' := by
  rw [Record.member_bytes, Record.member_bytes] at h
  obtain ⟨hname, hvalue⟩ := read_unique h (Record.nextKey_first m.spells gap m.before _)
    (Record.nextKey_first m'.spells gap' m'.before _)
  rw [Record.ofList_name, Record.ofList_name, Option.some_inj] at hname
  obtain ⟨-, hvalue⟩ := read_unique hvalue (Record.colon_gap m.afterKey _) (Record.colon_gap m'.afterKey _)
  rw [List.append_assoc, List.append_assoc] at hvalue
  obtain ⟨hvalue, hafter⟩ :=
    hm.unique hm' (hrest.delimited.gap m.after) (hrest'.delimited.gap m'.after) hvalue
  refine ⟨Prod.ext hname hvalue, ?_⟩
  obtain ⟨b, bytes, rfl, hb⟩ := hrest
  obtain ⟨b', bytes', rfl, hb'⟩ := hrest'
  have hblank {b : UInt8} (hb : b = 0x2c ∨ b = 0x7d) : isBlank b = false := by rcases hb with rfl | rfl <;> rfl
  exact behind_gap (hblank hb) (hblank hb') hafter

section

variable {ms ms' : List Member} {rest rest' : List UInt8}

/-- The members behind commas, up to the bracket. By induction on them. -/
theorem entries_commas (hms : ∀ m ∈ ms, WellFormed .value m.value) (hms' : ∀ m ∈ ms', WellFormed .value m.value)
    (h : utf8 ((ms.map Member.chars).flatMap (',' :: ·)) ++ 0x7d :: rest
      = utf8 ((ms'.map Member.chars).flatMap (',' :: ·)) ++ 0x7d :: rest') :
    ms.map Member.entry = ms'.map Member.entry := by
  induction ms generalizing ms' with
  | nil =>
    cases ms' with
    | nil => rfl
    | cons m' ms' => simp at h
  | cons m ms ih =>
    cases ms' with
    | nil => simp at h
    | cons m' ms' =>
      obtain ⟨hm, hms⟩ := List.forall_mem_cons.mp hms
      obtain ⟨hm', hms'⟩ := List.forall_mem_cons.mp hms'
      simp only [List.map_cons, List.flatMap_cons, List.cons_append, utf8_marks, utf8_append, List.append_assoc,
        List.cons.injEq, true_and] at h
      obtain ⟨hentry, hmore⟩ := @Member.unique m m' hm hm' .none .none _ _ (endsMember_commas _ _)
        (endsMember_commas _ _) h
      rw [List.map_cons, List.map_cons, hentry, ih hms hms' hmore]

/-- Where the object ends at once there is no member. -/
theorem empty_ne_member (opening opening' : Gap) (m : Member) (rest rest' : List UInt8) :
    utf8 opening.chars ++ 0x7d :: rest ≠ utf8 opening'.chars ++ (utf8 m.chars ++ rest') := by
  intro h
  rw [Record.member_bytes] at h
  obtain ⟨hnone, -⟩ := read_unique h (Record.nextKey_close true opening rest)
    (Record.nextKey_first m.spells opening' m.before _)
  cases hnone

/-- What stands between the brackets of objects of one text has the same entries. -/
theorem entries_unique {opening opening' : Gap} (hms : ∀ m ∈ ms, WellFormed .value m.value)
    (hms' : ∀ m ∈ ms', WellFormed .value m.value) (h : objectChars opening ms = objectChars opening' ms') :
    ms.map Member.entry = ms'.map Member.entry := by
  have hbytes (opening : Gap) (ms : List Member) : utf8 (objectChars opening ms)
      = 0x7b :: (utf8 opening.chars ++ (utf8 (Write.commaSeparated (ms.map Member.chars)) ++ [0x7d])) := by
    simp [objectChars]
  have h := congrArg utf8 h
  rw [hbytes, hbytes, List.cons.injEq] at h
  obtain ⟨-, h⟩ := h
  cases ms with
  | nil =>
    cases ms' with
    | nil => rfl
    | cons m' ms' =>
      simp only [List.map_cons, commaSeparated_cons, utf8_append, List.append_assoc] at h
      exact (empty_ne_member _ _ _ _ _ h).elim
  | cons m ms =>
    cases ms' with
    | nil =>
      simp only [List.map_cons, commaSeparated_cons, utf8_append, List.append_assoc] at h
      exact (empty_ne_member _ _ _ _ _ h.symm).elim
    | cons m' ms' =>
      obtain ⟨hm, hms⟩ := List.forall_mem_cons.mp hms
      obtain ⟨hm', hms'⟩ := List.forall_mem_cons.mp hms'
      simp only [List.map_cons, commaSeparated_cons, utf8_append, List.append_assoc] at h
      obtain ⟨hentry, hmore⟩ := Member.unique hm hm' (endsMember_commas _ _) (endsMember_commas _ _) h
      rw [List.map_cons, List.map_cons, hentry, entries_commas hms hms' hmore]

end

/-! ## Objects -/

/-- The text is an object with these members, and their values are well formed. -/
structure IsObject (cs : List Char) (ms : List Member) : Prop where
  sound : ∀ m ∈ ms, WellFormed .value m.value
  written : ∃ opening : Gap, cs = objectChars opening ms

/-- However the text of an object is taken apart, its entries are the same. -/
theorem IsObject.entries_eq {cs : List Char} {ms ms' : List Member} (h : IsObject cs ms) (h' : IsObject cs ms') :
    ms.map Member.entry = ms'.map Member.entry := by
  obtain ⟨hms, opening, rfl⟩ := h
  obtain ⟨hms', opening', hsame⟩ := h'
  exact entries_unique hms hms' hsame

theorem entries_compact (entries : List (String × List Char)) :
    (entries.map fun e => Member.compact e.1 e.2).map Member.entry = entries := by
  rw [List.map_map]
  exact List.map_id entries

/-- What the writer writes from entries is an object. -/
theorem isObject_written {entries : List (String × List Char)} (h : ∀ e ∈ entries, WellFormed .value e.2) :
    IsObject (Write.object entries) (entries.map fun e => .compact e.1 e.2) := by
  refine ⟨fun m hm => ?_, .none, object_eq entries⟩
  obtain ⟨e, he, rfl⟩ := List.mem_map.mp hm
  exact h e he

/-- The entries from which an object was written are its entries, however its text is taken apart. -/
theorem IsObject.entries_written {entries : List (String × List Char)} {ms : List Member}
    (h : IsObject (Write.object entries) ms) (hentries : ∀ e ∈ entries, WellFormed .value e.2) :
    ms.map Member.entry = entries :=
  (h.entries_eq (isObject_written hentries)).trans (entries_compact entries)

theorem object_injective {entries entries' : List (String × List Char)} (h : ∀ e ∈ entries, WellFormed .value e.2)
    (h' : ∀ e ∈ entries', WellFormed .value e.2) (hsame : Write.object entries = Write.object entries') :
    entries = entries' := by
  have hobject := isObject_written h
  rw [hsame] at hobject
  exact (entries_compact entries).symm.trans (hobject.entries_written h')

end LogGateway.Json
