/-
Records know where they end: the bracket that closes one is taken, and what follows it is not looked at. So a text that
writes a record is refused when it is cut short anywhere, and when anything but blanks follows it.
-/
import LogGateway.Proofs.Json.Local

namespace LogGateway.Json

section

variable {α β : Type} {reader : Reader α} {bytes rest : List UInt8} {a : α}

/-! ## Readers that close -/

/-- A value that was read is read whatever follows. -/
def Closes (reader : Reader α) : Prop :=
  ∀ bytes a rest more, reader bytes = .ok a rest → reader (bytes ++ more) = .ok a (rest ++ more)

theorem run_error {fault : Fault} (h : reader bytes = .error fault rest) : reader.run bytes = .error fault := by
  rw [Reader.run, bind_of_error h]

/-- A text is refused whose continuation is read to the end. -/
theorem Closes.cut (h : Closes reader) {part more : List UInt8} (hmore : more ≠ [])
    (hread : reader (part ++ more) = .ok a []) : ∃ fault, reader.run part = .error fault := by
  cases hpart : reader part with
  | error fault rest => exact ⟨fault, run_error hpart⟩
  | ok a' rest =>
    rw [h _ _ _ more hpart] at hread
    cases rest with
    | nil => exact absurd (EStateM.Result.ok.inj hread).2 hmore
    | cons b rest => cases (EStateM.Result.ok.inj hread).2

theorem finish_more {more : List UInt8} (h : ∃ b ∈ more, isBlank b = false) :
    ∃ rest, finish more = .error .malformed rest := by
  cases hdrop : more.dropWhile isBlank with
  | nil =>
    obtain ⟨b, hb, hblank⟩ := h
    have hall := List.takeWhile_append_dropWhile (p := isBlank) (l := more)
    rw [hdrop, List.append_nil] at hall
    have hblanks := List.all_eq_true.mp (List.all_takeWhile (p := isBlank) (l := more))
    rw [hall] at hblanks
    exact absurd (hblanks b hb) (by simp [hblank])
  | cons b rest =>
    have hpeek : peek more = .ok (some b) (b :: rest) := by rw [peek, hdrop]; rfl
    exact ⟨b :: rest, bind_of_ok hpeek⟩

/-- A text is refused that goes on behind what was read. -/
theorem Closes.followed (h : Closes reader) {more : List UInt8} (hmore : ∃ b ∈ more, isBlank b = false)
    (hread : reader bytes = .ok a []) : reader.run (bytes ++ more) = .error .malformed := by
  have hvalue := h _ _ _ more hread
  obtain ⟨rest, hfinish⟩ := finish_more hmore
  rw [List.nil_append] at hvalue
  rw [Reader.run, bind_of_ok hvalue, bind_of_error hfinish]

end

/-- The bracket that ends a list is taken. -/
theorem closes_closeList : Closes closeList := by
  intro bytes a rest more h
  rw [closeList] at h ⊢
  obtain ⟨b, mid, hpeek, h⟩ := of_bind_ok h
  cases b with
  | none => cases h
  | some b =>
    obtain ⟨tail, rfl, -⟩ := peek_some hpeek
    rw [bind_of_ok (local_peek.goesOn_ok hpeek more)]
    simp only at h ⊢
    split at h
    · rename_i hclose
      cases h
      rw [if_pos hclose]
      rfl
    · cases h

/-- Nothing is read where something else was wanted. -/
theorem refuse_ne_ok {α : Type} (wanted : String) (bytes : List UInt8) (a : α) (rest : List UInt8) :
    refuse wanted bytes ≠ .ok a rest := by
  intro h
  rw [refuse] at h
  obtain ⟨b, mid, -, h⟩ := of_bind_ok h
  cases b with
  | none => cases h
  | some b =>
    have hword (w : List UInt8) (cause : Mismatch) (bytes : List UInt8) :
        (do advance; word w; mismatch cause : Reader α) bytes ≠ .ok a rest := by
      intro h
      obtain ⟨_, _, -, h⟩ := of_bind_ok h
      obtain ⟨_, _, -, h⟩ := of_bind_ok h
      cases h
    simp only at h
    split at h
    · exact hword _ _ _ h
    split at h
    · exact hword _ _ _ h
    split at h
    · exact hword _ _ _ h
    split at h
    · obtain ⟨n, _, -, h⟩ := of_bind_ok h
      cases h
    split at h
    · obtain ⟨_, _, -, h⟩ := of_bind_ok h
      obtain ⟨s, _, -, h⟩ := of_bind_ok h
      cases h
    split at h
    · cases h
    split at h
    · cases h
    · cases h

/-! ## Parts of an object -/

namespace Record

theorem local_key (b : UInt8) : Local (nextKey.key b) :=
  .ite (local_advance.bind fun _ => local_text.map some) (.throw _)

theorem local_nextKey (isFirst : Bool) : Local (nextKey isFirst) := by
  refine local_peek.bindOption (.throw _) fun b => ?_
  refine .ite (.pure none) (.ite (local_key b) (.ite ?_ (.throw _)))
  exact local_advance.bind fun _ => local_peek.bindOption (.throw _) fun b => local_key b

theorem key_ok {b c : UInt8} {tail rest : List UInt8} {key : Option String}
    (h : nextKey.key b (c :: tail) = .ok key rest) : key.isSome = true ∧ rest.length ≤ tail.length := by
  rw [nextKey.key] at h
  split at h
  · rw [bind_of_ok (advance_cons ..)] at h
    obtain ⟨s, mid, htext, hpure⟩ := of_bind_ok h
    cases hpure
    exact ⟨rfl, local_text.length_ok htext⟩
  · cases h

/-- What the next key leaves: the text behind it, which is shorter, or the bracket that ends the object. -/
theorem nextKey_ok {isFirst : Bool} {bytes rest : List UInt8} {key : Option String}
    (h : nextKey isFirst bytes = .ok key rest) :
    (key.isSome = true ∧ rest.length < bytes.length) ∨ (key = none ∧ ∃ tail, rest = 0x7d :: tail) := by
  rw [nextKey] at h
  obtain ⟨b, mid, hpeek, h⟩ := of_bind_ok h
  cases b with
  | none => cases h
  | some b =>
    obtain ⟨tail, rfl, hlength⟩ := peek_some hpeek
    simp only at h
    split at h
    · rename_i hclose
      cases h
      exact .inr ⟨rfl, tail, by rw [hclose]⟩
    split at h
    · obtain ⟨hsome, hrest⟩ := key_ok h
      exact .inl ⟨hsome, Nat.lt_of_le_of_lt hrest hlength⟩
    split at h
    · rw [bind_of_ok (advance_cons ..)] at h
      obtain ⟨c, mid, hpeek', h⟩ := of_bind_ok h
      cases c with
      | none => cases h
      | some c =>
        obtain ⟨tail', rfl, hlength'⟩ := peek_some hpeek'
        obtain ⟨hsome, hrest⟩ := key_ok h
        exact .inl ⟨hsome, by omega⟩
    · cases h

theorem local_colon : Local colon :=
  local_peek.bindOption (.throw _) fun _ => .ite local_advance (.throw _)

section

variable {F : Type} {R : Record F}

theorem local_complete (draft : R.Draft) : Local (R.complete draft) := by
  unfold complete
  cases draft.finish with
  | ok fields => exact .pure fields
  | error f => exact .mismatch _

theorem complete_ok {draft : R.Draft} {bytes rest : List UInt8} {fields : R.Fields}
    (h : R.complete draft bytes = .ok fields rest) : rest = bytes := by
  unfold complete at h
  cases hfinish : draft.finish with
  | ok fields' =>
    rw [hfinish] at h
    cases h
    rfl
  | error f =>
    rw [hfinish] at h
    cases h

variable [DecidableEq F]

theorem local_items (hread : ∀ f, Local (R.read f)) (fs : List F) (index : Nat) (draft : R.Draft) :
    Local (R.items fs index draft) := by
  induction fs generalizing index draft with
  | nil => exact .pure draft
  | cons f fs ih =>
    refine ((hread f).nextItem _).bind fun value => ?_
    cases value.or (R.cutOff f) with
    | none => exact .mismatch _
    | some value => exact ih _ _

theorem local_members (hread : ∀ f, Local (R.read f)) (bound : Nat) (isFirst : Bool) (draft : R.Draft) :
    Local (R.members bound isFirst draft) := by
  induction bound generalizing isFirst draft with
  | zero => exact .throw _
  | succ bound ih =>
    refine (local_nextKey isFirst).bindOption (.pure draft) fun key => ?_
    cases hfield : R.field? key with
    | none =>
      simp only [hfield]
      exact local_colon.bind fun _ => local_skip.bind fun _ => ih false draft
    | some f =>
      simp only [hfield]
      exact .ite (.mismatch _) (local_colon.bind fun _ => (hread f).bind fun value => ih false _)

/-- A bound that is not below the length of the text is never reached, whatever it is. -/
theorem members_bound (hread : ∀ f, Local (R.read f)) {bytes : List UInt8} {bound bound' : Nat}
    (hlength : bytes.length ≤ bound) (hle : bound ≤ bound') (isFirst : Bool) (draft : R.Draft) :
    R.members bound' isFirst draft bytes = R.members bound isFirst draft bytes := by
  induction bound generalizing bytes bound' isFirst draft with
  | zero =>
    obtain rfl := List.length_eq_zero_iff.mp (Nat.le_zero.mp hlength)
    cases bound' with
    | zero => rfl
    | succ bound' => rfl
  | succ bound ih =>
    obtain ⟨bound', rfl⟩ := Nat.exists_eq_add_one.mpr (Nat.lt_of_lt_of_le (Nat.succ_pos bound) hle)
    have hle := Nat.le_of_succ_le_succ hle
    rw [members, members]
    cases hkey : nextKey isFirst bytes with
    | error fault rest => rw [bind_of_error hkey, bind_of_error hkey]
    | ok key rest =>
      rw [bind_of_ok hkey, bind_of_ok hkey]
      cases key with
      | none => rfl
      | some key =>
        have hrest : rest.length ≤ bound := by
          obtain ⟨-, hrest⟩ | ⟨hnone, -⟩ := nextKey_ok hkey
          · omega
          · cases hnone
        cases hfield : R.field? key with
        | none =>
          simp only [hfield]
          refine local_colon.bind_congr fun _ mid hmid => local_skip.bind_congr fun _ last hlast => ?_
          exact ih (by omega) hle false draft
        | some f =>
          simp only [hfield]
          split
          · rfl
          · refine local_colon.bind_congr fun _ mid hmid => (hread f).bind_congr fun value last hlast => ?_
            exact ih (by omega) hle false _

/-- Members end before the bracket. -/
theorem members_ok {bound : Nat} {isFirst : Bool} {draft draft' : R.Draft} {bytes rest : List UInt8}
    (h : R.members bound isFirst draft bytes = .ok draft' rest) : ∃ tail, rest = 0x7d :: tail := by
  induction bound generalizing isFirst draft bytes with
  | zero => cases h
  | succ bound ih =>
    rw [members] at h
    obtain ⟨key, mid, hkey, h⟩ := of_bind_ok h
    cases key with
    | none =>
      obtain ⟨hsome, -⟩ | ⟨-, htail⟩ := nextKey_ok hkey
      · cases hsome
      · cases h
        exact htail
    | some key =>
      cases hfield : R.field? key with
      | none =>
        simp only [hfield] at h
        obtain ⟨_, _, -, h⟩ := of_bind_ok h
        obtain ⟨_, _, -, h⟩ := of_bind_ok h
        exact ih h
      | some f =>
        simp only [hfield] at h
        split at h
        · cases h
        · obtain ⟨_, _, -, h⟩ := of_bind_ok h
          obtain ⟨_, _, -, h⟩ := of_bind_ok h
          exact ih h

/-- The record of an object: its members from the opening bracket on, and the bracket that ends them. -/
theorem local_object (hread : ∀ f, Local (R.read f)) :
    Local (do
      let draft ← R.members ((← get).length + 1) true R.blank
      let fields ← R.complete draft
      advance
      pure fields) := by
  refine .bounded (fun bound => do
    let draft ← R.members bound true R.blank
    let fields ← R.complete draft
    advance
    pure fields) (fun bound => ?_) fun bytes bound hlength => ?_
  · refine (local_members hread bound true R.blank).bind fun draft => (local_complete draft).bind fun fields => ?_
    exact local_advance.bind fun _ => .pure fields
  · have hbound := members_bound hread (Nat.le_succ bytes.length) hlength true R.blank
    simp only [bind, EStateM.bind, hbound]

theorem local_reader (hread : ∀ f, Local (R.read f)) : Local R.reader := by
  refine local_peek.bindOption (.throw _) fun b => ?_
  refine .ite ?_ (.ite (local_advance.bind fun _ => local_object hread) (local_refuse _))
  refine local_advance.bind fun _ => (local_items hread _ _ _).bind fun draft => ?_
  exact (local_complete draft).bind fun fields => local_closeList.bind fun _ => .pure fields

/-- A record in either form ends with its bracket, whatever follows. -/
theorem closes_reader (hread : ∀ f, Local (R.read f)) : Closes R.reader := by
  intro bytes fields rest more h
  rw [reader] at h ⊢
  obtain ⟨b, mid, hpeek, h⟩ := of_bind_ok h
  cases b with
  | none => cases h
  | some b =>
    obtain ⟨tail, rfl, -⟩ := peek_some hpeek
    rw [bind_of_ok (local_peek.goesOn_ok hpeek more), List.cons_append]
    simp only at h ⊢
    split at h
    · rename_i hopen
      rw [if_pos hopen, bind_of_ok (advance_cons ..)]
      rw [bind_of_ok (advance_cons ..)] at h
      obtain ⟨draft, mid, hitems, hdraft⟩ := of_bind_ok h
      obtain ⟨fields', mid', hcomplete, hfields⟩ := of_bind_ok hdraft
      obtain ⟨_, last, hclose, hpure⟩ := of_bind_ok hfields
      obtain rfl := complete_ok hcomplete
      cases hpure
      cases mid' with
      | nil => cases hclose
      | cons c mid =>
        rw [bind_of_ok ((local_items hread _ _ _).goesOn_ok hitems more),
          bind_of_ok ((local_complete draft).goesOn_ok hcomplete more), bind_of_ok (closes_closeList _ _ _ more hclose)]
        rfl
    split at h
    · rename_i hlist hopen
      rw [if_neg hlist, if_pos hopen, bind_of_ok (advance_cons ..), bind_of_ok (get_ok _)]
      rw [bind_of_ok (advance_cons ..), bind_of_ok (get_ok _)] at h
      obtain ⟨draft, mid, hmembers, hdraft⟩ := of_bind_ok h
      obtain ⟨fields', mid', hcomplete, hfields⟩ := of_bind_ok hdraft
      obtain rfl := complete_ok hcomplete
      obtain ⟨after, rfl⟩ := members_ok hmembers
      cases hfields
      have hlonger : tail.length + 1 ≤ (tail ++ more).length + 1 := by
        rw [List.length_append]
        omega
      rw [← members_bound hread (Nat.le_succ tail.length) hlonger] at hmembers
      rw [bind_of_ok ((local_members hread _ _ _).goesOn_ok hmembers more),
        bind_of_ok ((local_complete draft).goesOn_ok hcomplete more)]
      rfl
    · exact absurd h (refuse_ne_ok _ _ _ _)

end

end Record

end LogGateway.Json
