/-
Reading the objects that write a record: its fields come in any order, at most once each, with gaps anywhere and with
members of any other names among them, and a field may be left out that holds what the record then assumes.
-/
import LogGateway.Json.Record
import LogGateway.Proofs.Json.Skipping

namespace LogGateway.Json.Record

variable {F : Type} {R : Record F}

/-! ## What an object writes -/

variable (R) in
/-- A member of a record with these fields: a written field, or anything else under another name. -/
structure Fits (fields : R.Fields) (m : Member) : Prop where
  field : ∀ f, R.name f = m.name → Reads (R.read f) m.value (fields f)
  extra : (∀ f, R.name f ≠ m.name) → WellFormed .value m.value

variable (R) in
/-- The members of an object that writes a record with these fields. -/
structure Presents (fields : R.Fields) (members : List Member) : Prop where
  fits : ∀ m ∈ members, R.Fits fields m
  once : ∀ f, (members.map Member.name).count (R.name f) ≤ 1
  leftOut : ∀ f, R.name f ∉ members.map Member.name → R.absent f = some (fields f)

/-- The members of an object whose fields have these names: each comes at most once, with a text that may stand for it,
and only some may be left out. Under other names any well-formed value may stand. -/
structure MembersOf (name : F → String) (Text : F → List Char → Prop) (MayLack : F → Prop) (members : List Member) :
    Prop where
  field : ∀ m ∈ members, ∀ f, name f = m.name → Text f m.value
  extra : ∀ m ∈ members, (∀ f, name f ≠ m.name) → WellFormed .value m.value
  once : ∀ f, (members.map Member.name).count (name f) ≤ 1
  leftOut : ∀ f, name f ∉ members.map Member.name → MayLack f

/-- An object with such members writes a record if their texts are read and the record assumes what is left out. -/
theorem MembersOf.presents {Text : F → List Char → Prop} {MayLack : F → Prop} {members : List Member}
    {fields : R.Fields} (h : MembersOf R.name Text MayLack members)
    (hread : ∀ f cs, Text f cs → Reads (R.read f) cs (fields f))
    (habsent : ∀ f, MayLack f → R.absent f = some (fields f)) : R.Presents fields members where
  fits m hm := ⟨fun f hf => hread f _ (h.field m hm f hf), h.extra m hm⟩
  once := h.once
  leftOut f hf := habsent f (h.leftOut f hf)

/-- Members as the writer writes them, one for each field. -/
theorem membersOf_written {name : F → String} (hname : Function.Injective name) {fs : List F} (hall : ∀ f, f ∈ fs)
    (hnodup : fs.Nodup) {Text : F → List Char → Prop} (MayLack : F → Prop) {texts : F → List Char}
    (htext : ∀ f, Text f (texts f)) :
    MembersOf name Text MayLack (fs.map fun f => .compact (name f) (texts f)) := by
  have hnames : (fs.map fun f => Member.compact (name f) (texts f)).map Member.name = fs.map name := by
    rw [List.map_map]
    rfl
  refine ⟨fun m hm f hf => ?_, fun m hm hextra => ?_, fun f => ?_, fun f hf => ?_⟩
  · obtain ⟨g, -, rfl⟩ := List.mem_map.mp hm
    obtain rfl : f = g := hname hf
    exact htext f
  · obtain ⟨g, -, rfl⟩ := List.mem_map.mp hm
    exact absurd rfl (hextra g)
  · have hdistinct : (fs.map name).Nodup :=
      List.pairwise_map.mpr (hnodup.imp fun hne heq => hne (hname heq))
    rw [hnames]
    exact List.nodup_iff_count.mp hdistinct _
  · rw [hnames] at hf
    exact absurd (List.mem_map_of_mem (hall f)) hf

/-! ## Drafts -/

/-- The draft holds the fields of these names, and no others. -/
def Draft.Holds (draft : R.Draft) (fields : R.Fields) (names : List String) : Prop :=
  ∀ f, draft f = if R.name f ∈ names then some (fields f) else none

theorem blank_holds (fields : R.Fields) : R.blank.Holds fields [] := fun _ => rfl

theorem Draft.Holds.set [DecidableEq F] {draft : R.Draft} {fields : R.Fields} {names : List String}
    (h : draft.Holds fields names) (hname : Function.Injective R.name) (f : F) :
    (draft.set f (fields f)).Holds fields (R.name f :: names) := by
  intro g
  by_cases hg : f = g
  · subst hg
    simp [Draft.set]
  · have hne : R.name g ≠ R.name f := fun heq => hg (hname heq.symm)
    simp [Draft.set, hg, h g, hne]

theorem Draft.Holds.extra {draft : R.Draft} {fields : R.Fields} {names : List String} (h : draft.Holds fields names)
    {name : String} (hname : ∀ f, R.name f ≠ name) : draft.Holds fields (name :: names) := by
  intro g
  simp [h g, hname g]

theorem Draft.Holds.finish {draft : R.Draft} {fields : R.Fields} {names : List String} (h : draft.Holds fields names)
    (habsent : ∀ f, R.name f ∉ names → R.absent f = some (fields f)) : draft.finish = .ok fields := by
  have hvalue (f : F) : (draft f).or (R.absent f) = some (fields f) := by
    rw [h f]
    by_cases hf : R.name f ∈ names
    · rw [if_pos hf, Option.some_or]
    · rw [if_neg hf, Option.none_or, habsent f hf]
  have hall : ∀ f ∈ R.fields, ((draft f).or (R.absent f)).isSome = true := fun f _ => by rw [hvalue f]; rfl
  rw [Draft.finish, dif_pos hall]
  congr 1
  funext f
  simp only [hvalue, Option.get_some]

/-! ## Keys and colons -/

theorem field?_name (hname : Function.Injective R.name) (f : F) : R.field? (R.name f) = some f := by
  have hfound : (R.field? (R.name f)).isSome := List.find?_isSome.mpr ⟨f, R.all_mem f, decide_eq_true rfl⟩
  obtain ⟨g, hg⟩ := Option.isSome_iff_exists.mp hfound
  have hsame := List.find?_some hg
  rw [decide_eq_true_eq] at hsame
  rw [hg, hname hsame]

theorem field?_extra {name : String} (hname : ∀ f, R.name f ≠ name) : R.field? name = none := by
  simpa [field?] using fun f _ => hname f

/-- A key is read behind its quote. -/
theorem key_spelled {key cs : List Char} (h : Spells key cs) (rest : List UInt8) :
    nextKey.key 0x22 (0x22 :: (utf8 key ++ 0x22 :: rest)) = .ok (some (String.ofList cs)) rest := by
  rw [nextKey.key, if_pos rfl, bind_of_ok (advance_cons ..)]
  exact map_ok some (h.text rest)

theorem nextKey_first {key cs : List Char} (h : Spells key cs) (gap before : Gap) (rest : List UInt8) :
    nextKey true (utf8 gap.chars ++ (utf8 before.chars ++ 0x22 :: (utf8 key ++ 0x22 :: rest)))
      = .ok (some (String.ofList cs)) rest := by
  have hquote := peek_behind before (b := 0x22) rfl (utf8 key ++ 0x22 :: rest)
  have hpeek := (peek_gap gap _).trans hquote
  rw [nextKey, bind_of_ok hpeek]
  exact key_spelled h rest

theorem nextKey_comma {key cs : List Char} (h : Spells key cs) (gap before : Gap) (rest : List UInt8) :
    nextKey false (utf8 gap.chars ++ 0x2c :: (utf8 before.chars ++ 0x22 :: (utf8 key ++ 0x22 :: rest)))
      = .ok (some (String.ofList cs)) rest := by
  have hcomma := peek_behind gap (b := 0x2c) rfl (utf8 before.chars ++ 0x22 :: (utf8 key ++ 0x22 :: rest))
  have hquote := peek_behind before (b := 0x22) rfl (utf8 key ++ 0x22 :: rest)
  rw [nextKey, bind_of_ok hcomma]
  simp only [Bool.false_eq_true, if_false, if_pos]
  exact (bind_of_ok (advance_cons ..)).trans ((bind_of_ok hquote).trans (key_spelled h rest))

theorem nextKey_close (isFirst : Bool) (gap : Gap) (rest : List UInt8) :
    nextKey isFirst (utf8 gap.chars ++ 0x7d :: rest) = .ok none (0x7d :: rest) := by
  rw [nextKey, bind_of_ok (peek_behind gap rfl _)]
  rfl

theorem colon_gap (gap : Gap) (rest : List UInt8) : colon (utf8 gap.chars ++ 0x3a :: rest) = .ok () rest := by
  rw [colon, bind_of_ok (peek_behind gap rfl _)]
  rfl

/-! ## Members -/

section

variable [DecidableEq F] {fields : R.Fields}

/-- What stands behind a member's key. -/
def valueBytes (m : Member) (rest : List UInt8) : List UInt8 :=
  utf8 m.afterKey.chars ++ 0x3a :: (utf8 m.beforeValue.chars ++ utf8 m.value ++ (utf8 m.after.chars ++ rest))

theorem member_bytes (m : Member) (rest : List UInt8) :
    utf8 m.chars ++ rest = utf8 m.before.chars ++ 0x22 :: (utf8 m.key ++ 0x22 :: valueBytes m rest) := by
  simp [Member.chars, memberChars, valueBytes]

theorem ofList_name (m : Member) : String.ofList m.name.toList = m.name := String.ofList_toList

/-- The first member's key is read up to what stands behind it. -/
theorem nextKey_opening (m : Member) (ms : List Member) (opening : Gap) (rest : List UInt8) :
    nextKey true (utf8 opening.chars ++ (utf8 (Write.commaSeparated ((m :: ms).map Member.chars)) ++ 0x7d :: rest))
      = .ok (some m.name) (valueBytes m (utf8 ((ms.map Member.chars).flatMap (',' :: ·)) ++ 0x7d :: rest)) := by
  rw [List.map_cons, commaSeparated_cons, utf8_append, List.append_assoc, member_bytes, nextKey_first m.spells,
    ofList_name]

/-- So is the key of a member behind a comma. -/
theorem nextKey_next (m : Member) (ms : List Member) (gap : Gap) (rest : List UInt8) :
    nextKey false (utf8 gap.chars ++ (utf8 (((m :: ms).map Member.chars).flatMap (',' :: ·)) ++ 0x7d :: rest))
      = .ok (some m.name) (valueBytes m (utf8 ((ms.map Member.chars).flatMap (',' :: ·)) ++ 0x7d :: rest)) := by
  rw [List.map_cons, List.flatMap_cons, utf8_append, (utf8_marks _).2.2.1, List.append_assoc, List.cons_append,
    member_bytes, nextKey_comma m.spells, ofList_name]

/-- An object behind a gap. -/
theorem object_bytes (gap opening : Gap) (ms : List Member) (rest : List UInt8) :
    utf8 gap.chars ++ utf8 (objectChars opening ms) ++ rest = utf8 gap.chars ++ 0x7b ::
      (utf8 opening.chars ++ (utf8 (Write.commaSeparated (ms.map Member.chars)) ++ 0x7d :: rest)) := by
  simp [objectChars]

/-- The bytes between the brackets of an object bound the number of its members. -/
theorem length_lt_object (opening : Gap) (ms : List Member) (rest : List UInt8) :
    ms.length <
      (utf8 opening.chars ++ (utf8 (Write.commaSeparated (ms.map Member.chars)) ++ 0x7d :: rest)).length + 1 := by
  have hlength := length_le_commaSeparated (ms.map Member.chars)
  simp only [List.length_map] at hlength
  simp only [List.length_append, List.length_cons]
  omega

/-- A name that comes once does not come before. -/
theorem not_mem_of_count_le_one {names later : List String} {name : String}
    (h : (names ++ name :: later).count name ≤ 1) : name ∉ names := by
  intro hmem
  have hpos := List.count_pos_iff.mpr hmem
  rw [List.count_append, List.count_cons_self] at h
  omega

/-- One member further: the draft then holds the field of that name too, if there is one. -/
theorem members_step (hname : Function.Injective R.name) {m : Member} (hm : R.Fits fields m) {draft : R.Draft}
    {names : List String} (hdraft : draft.Holds fields names) (hfresh : ∀ f, R.name f = m.name → m.name ∉ names)
    {isFirst : Bool} {bytes rest : List UInt8} (hkey : nextKey isFirst bytes = .ok (some m.name) (valueBytes m rest))
    (hrest : Delimited rest) (bound : Nat) :
    ∃ draft', Draft.Holds draft' fields (m.name :: names) ∧
      R.members (bound + 1) isFirst draft bytes = R.members bound false draft' (utf8 m.after.chars ++ rest) := by
  -- The value of a field is read, that of any other member is skipped.
  by_cases hfield : ∃ f, R.name f = m.name
  · obtain ⟨f, hf⟩ := hfield
    have hread := (hm.field f hf).reads m.beforeValue _ (hrest.gap m.after)
    refine ⟨draft.set f (fields f), hf ▸ hdraft.set hname f, ?_⟩
    have hempty : (draft f).isSome = false := by
      rw [hdraft f, hf, if_neg (hfresh f hf)]
      rfl
    rw [members, bind_of_ok hkey, ← hf]
    simp only [field?_name hname, hempty, Bool.false_eq_true, if_false]
    rw [valueBytes, bind_of_ok (colon_gap ..), bind_of_ok hread]
  · have hextra : ∀ f, R.name f ≠ m.name := fun f hf => hfield ⟨f, hf⟩
    refine ⟨draft, hdraft.extra hextra, ?_⟩
    have hskip := (hm.extra hextra).skip m.beforeValue (hrest.gap m.after)
    rw [members, bind_of_ok hkey]
    simp only [field?_extra hextra]
    rw [valueBytes, bind_of_ok (colon_gap ..), List.append_assoc, bind_of_ok hskip]

/-- The members behind commas, up to the bracket. By induction on them; the draft holds the fields read so far. -/
theorem members_commas (hname : Function.Injective R.name) {ms : List Member} (hms : ∀ m ∈ ms, R.Fits fields m)
    {draft : R.Draft} {names : List String} (hdraft : draft.Holds fields names)
    (honce : ∀ f, (names ++ ms.map Member.name).count (R.name f) ≤ 1) {bound : Nat} (hbound : ms.length < bound)
    (gap : Gap) (rest : List UInt8) :
    ∃ draft', Draft.Holds draft' fields ((ms.map Member.name).reverse ++ names) ∧
      R.members bound false draft (utf8 gap.chars ++ (utf8 ((ms.map Member.chars).flatMap (',' :: ·)) ++ 0x7d :: rest))
        = .ok draft' (0x7d :: rest) := by
  induction ms generalizing draft names bound gap with
  | nil =>
    obtain ⟨bound, rfl⟩ := Nat.exists_eq_add_one.mpr hbound
    refine ⟨draft, hdraft, ?_⟩
    rw [List.map_nil, List.flatMap_nil, utf8_nil, List.nil_append, members, bind_of_ok (nextKey_close ..)]
    rfl
  | cons m ms ih =>
    obtain ⟨bound, rfl⟩ := Nat.exists_eq_add_one.mpr (Nat.zero_lt_of_lt hbound)
    obtain ⟨hm, hms⟩ := List.forall_mem_cons.mp hms
    have hfresh : ∀ f, R.name f = m.name → m.name ∉ names := fun f hf =>
      not_mem_of_count_le_one (hf ▸ honce f)
    have honce' : ∀ f, ((m.name :: names) ++ ms.map Member.name).count (R.name f) ≤ 1 := fun f => by
      have hcount := honce f
      simp only [List.map_cons, List.count_append, List.count_cons] at hcount ⊢
      omega
    obtain ⟨draft', hdraft', hstep⟩ := members_step hname hm hdraft hfresh (nextKey_next m ms gap rest)
      (delimited_commas (ms.map Member.chars) (b := 0x7d) rfl rest) bound
    obtain ⟨last, hlast, hrun⟩ := ih hms hdraft' honce' (Nat.lt_of_succ_lt_succ hbound) m.after
    exact ⟨last, by simpa using hlast, hstep.trans hrun⟩

/-- All members, from the opening bracket on. -/
theorem members_all (hname : Function.Injective R.name) {ms : List Member} (h : R.Presents fields ms) {bound : Nat}
    (hbound : ms.length < bound) (opening : Gap) (rest : List UInt8) :
    ∃ draft, Draft.Holds draft fields (ms.map Member.name).reverse ∧
      R.members bound true R.blank
          (utf8 opening.chars ++ (utf8 (Write.commaSeparated (ms.map Member.chars)) ++ 0x7d :: rest))
        = .ok draft (0x7d :: rest) := by
  obtain ⟨bound, rfl⟩ := Nat.exists_eq_add_one.mpr (Nat.zero_lt_of_lt hbound)
  cases ms with
  | nil =>
    refine ⟨R.blank, blank_holds fields, ?_⟩
    rw [List.map_nil, Write.commaSeparated, utf8_nil, List.nil_append, members, bind_of_ok (nextKey_close ..)]
    rfl
  | cons m ms =>
    obtain ⟨hm, hms⟩ := List.forall_mem_cons.mp h.fits
    obtain ⟨draft, hdraft, hstep⟩ := members_step hname hm (blank_holds fields) (fun _ _ => List.not_mem_nil)
      (nextKey_opening m ms opening rest) (delimited_commas (ms.map Member.chars) (b := 0x7d) rfl rest) bound
    obtain ⟨last, hlast, hrun⟩ :=
      members_commas hname hms hdraft h.once (Nat.lt_of_succ_lt_succ hbound) m.after rest
    exact ⟨last, by simpa using hlast, hstep.trans hrun⟩

/-- An object is read that writes a record. -/
theorem Presents.reads {members : List Member} (h : R.Presents fields members) (hname : Function.Injective R.name)
    (opening : Gap) : Reads R.reader (objectChars opening members) fields := by
  refine ⟨⟨0x7b, _, rfl, rfl, by decide⟩, fun gap rest _ => ?_⟩
  obtain ⟨draft, hdraft, hrun⟩ := members_all hname h (length_lt_object opening members rest) opening rest
  have hcomplete : R.complete draft (0x7d :: rest) = .ok fields (0x7d :: rest) := by
    rw [complete, hdraft.finish fun f hf => h.leftOut f (by simpa using hf)]
    rfl
  have hobject : (0x7b : UInt8) ≠ 0x5b := by decide
  rw [object_bytes, reader, bind_of_ok (peek_behind gap rfl _)]
  simp only [if_neg hobject, if_pos]
  rw [bind_of_ok (advance_cons ..), bind_of_ok (get_ok _), bind_of_ok hrun, bind_of_ok hcomplete]
  rfl

/-- A record is read as the writer writes it: all fields in the order of declaration, without gaps. -/
theorem reads_written (hname : Function.Injective R.name) (hfields : R.fields.Nodup) {texts : F → List Char}
    (h : ∀ f, Reads (R.read f) (texts f) (fields f)) :
    Reads R.reader (Write.object (R.fields.map fun f => (R.name f, texts f))) fields := by
  have hmembers : MembersOf R.name (fun f cs => Reads (R.read f) cs (fields f)) (fun _ => False)
      (R.fields.map fun f => .compact (R.name f) (texts f)) := membersOf_written hname R.all_mem hfields _ h
  have hpresents := hmembers.presents (fun _ _ hread => hread) fun _ hfalse => hfalse.elim
  have hobject := hpresents.reads hname .none
  rwa [object_eq, List.map_map]

end

end LogGateway.Json.Record
