/-
What is hashed for a claim. Main statement: a label tells the name and the counter of its claim, whatever signs and
digits the name has, since the counter has no number sign and so begins behind the last one. So claims that meet at a
point differ in the bytes that are hashed for them, and where somebody waits in a ring that can be reached, two claims
of its members collide in the hash.
-/
import LogGateway.Proofs.Ring.Holdings

namespace LogGateway

namespace Placement

/-! ## Labels -/

theorem toList_label (name : String) (i : Nat) : (label name i).toList = name.toList ++ '#' :: Nat.toDigits 10 i := by
  simp [label, Nat.toString_eq_repr]

theorem sign_not_mem_toDigits (i : Nat) : '#' ∉ Nat.toDigits 10 i := by
  intro h
  have hdigit : '#'.isDigit = true := Nat.isDigit_of_mem_toDigits (by decide) (by decide) h
  exact absurd hdigit (by decide)

theorem toDigits_inj {i j : Nat} : Nat.toDigits 10 i = Nat.toDigits 10 j ↔ i = j := by
  refine ⟨fun h => ?_, congrArg _⟩
  calc i = Nat.ofDigitChars 10 (Nat.toDigits 10 i) 0 := Nat.ofDigitChars_ten_toDigits.symm
    _ = Nat.ofDigitChars 10 (Nat.toDigits 10 j) 0 := by rw [h]
    _ = j := Nat.ofDigitChars_ten_toDigits

/-- Where a mark is found last in a list there is only one way to cut the list at it. -/
theorem append_cons_inj {α : Type} {mark : α} {before before' after after' : List α} (h : mark ∉ after)
    (h' : mark ∉ after') : before ++ mark :: after = before' ++ mark :: after' ↔ before = before' ∧ after = after' := by
  refine ⟨fun heq => ?_, fun ⟨hbefore, hafter⟩ => by rw [hbefore, hafter]⟩
  -- the longer of the two beginnings would have its last mark in what follows the shorter
  rcases List.append_eq_append_iff.1 heq with ⟨more, rfl, htail⟩ | ⟨more, rfl, htail⟩
  · cases more with
    | nil => simpa using htail
    | cons c more =>
      obtain ⟨-, rfl⟩ := List.cons.inj htail
      exact absurd (by simp) h
  · cases more with
    | nil => simpa [eq_comm] using htail
    | cons c more =>
      obtain ⟨-, rfl⟩ := List.cons.inj htail
      exact absurd (by simp) h'

/-- A label tells the name and the counter. -/
theorem label_inj {name name' : String} {i j : Nat} : label name i = label name' j ↔ name = name' ∧ i = j := by
  rw [← String.toList_inj, toList_label, toList_label,
    append_cons_inj (sign_not_mem_toDigits i) (sign_not_mem_toDigits j), String.toList_inj, toDigits_inj]

/-! ## Claims that meet -/

/-- Two inputs of a hash that differ and have the same digest. -/
structure Collision (hash : ByteArray → UInt64) (a b : ByteArray) : Prop where
  differ : a ≠ b
  same : hash a = hash b

/-- Claims have one point if they are one claim or the hash collides on their labels. -/
theorem point_eq_iff (placement : Placement) (name name' : String) (i j : Nat) :
    placement.point name i = placement.point name' j ↔
      name = name' ∧ i = j ∨ Collision placement.hash (label name i).toUTF8 (label name' j).toUTF8 := by
  constructor
  · intro hpoint
    by_cases hclaim : name = name' ∧ i = j
    · exact .inl hclaim
    · refine .inr ⟨fun hbytes => hclaim ?_, hpoint⟩
      exact label_inj.1 (String.toByteArray_inj.1 hbytes)
  · rintro (⟨rfl, rfl⟩ | hcollision)
    · rfl
    · exact hcollision.same

end Placement

namespace Ring

open Placement

variable {M : Type} [Named M] {ring : Ring M}

theorem exists_ne_of_nodup {α : Type} {l : List α} (hnodup : l.Nodup) (hlength : 1 < l.length) :
    ∃ a ∈ l, ∃ b ∈ l, a ≠ b := by
  have hfirst : 0 < l.length := Nat.lt_trans Nat.one_pos hlength
  refine ⟨l[0], List.getElem_mem hfirst, l[1], List.getElem_mem hlength, ?_⟩
  exact List.pairwise_iff_getElem.1 hnodup 0 1 hfirst hlength Nat.one_pos

/-- Where somebody waits, two of the claims that are due have that point. -/
theorem Exact.exists_due_of_waiting (h : ring.Exact) {point : UInt64} {waiting : List M}
    (hwaiting : ring.waiting[point]? = some waiting) :
    ∃ c ∈ ring.due, ∃ c' ∈ ring.due, c ≠ c' ∧ ring.placement.point (Named.name c.1) c.2 = point ∧
      ring.placement.point (Named.name c'.1) c'.2 = point := by
  obtain ⟨hsome, owner, howner⟩ := (h.tidy point).of_waiting hwaiting
  have hclaims : (ring.slot point).claims = owner :: waiting := by
    rw [Slot.claims, howner]
    show [owner] ++ ring.waiting[point]?.getD [] = _
    rw [hwaiting]
    rfl
  have hlength : 1 < (ring.dueAt point).length := by
    rw [← (h.claims_perm point).length_eq, hclaims, List.length_cons]
    exact Nat.succ_lt_succ (List.length_pos_iff.2 hsome)
  rw [dueAt, List.length_map] at hlength
  obtain ⟨c, hc, c', hc', hne⟩ := exists_ne_of_nodup (h.nodup_due.filter _) hlength
  obtain ⟨hdue, hpoint⟩ := List.mem_filter.1 hc
  obtain ⟨hdue', hpoint'⟩ := List.mem_filter.1 hc'
  exact ⟨c, hdue, c', hdue', hne, of_decide_eq_true hpoint, of_decide_eq_true hpoint'⟩

/-- Members that are listed are told apart by their names. -/
theorem Exact.eq_of_name_eq (h : ring.Exact) {m m' : M} (hm : m ∈ ring.toList) (hm' : m' ∈ ring.toList)
    (hn : Named.name m = Named.name m') : m = m' :=
  Option.some.inj (((h.mem_toList.1 hm).symm.trans (by rw [hn])).trans (h.mem_toList.1 hm'))

/-- A label tells the name and the counter of its claim, for all names and counters. So two claims that have one point
are hashed from bytes that differ, and if somebody waits for a point of a ring that can be reached, the hash collides
on the labels of two claims of its members. -/
theorem labels_tell_claims :
    (∀ (name name' : String) (i j : Nat), label name i = label name' j ↔ name = name' ∧ i = j) ∧
    (∀ (placement : Placement) (name name' : String) (i j : Nat),
      placement.point name i = placement.point name' j ↔
        name = name' ∧ i = j ∨ Collision placement.hash (label name i).toUTF8 (label name' j).toUTF8) ∧
    ∀ (placement : Placement) (ring : Ring M), Reached placement ring →
      ∀ (point : UInt64) (waiting : List M), ring.waiting[point]? = some waiting →
        ∃ m i m' j, (m, i) ∈ ring.due ∧ (m', j) ∈ ring.due ∧
          placement.point (Named.name m) i = point ∧ placement.point (Named.name m') j = point ∧
          Collision placement.hash (label (Named.name m) i).toUTF8 (label (Named.name m') j).toUTF8 := by
  refine ⟨fun _ _ _ _ => label_inj, point_eq_iff, fun placement ring h point waiting hwaiting => ?_⟩
  obtain ⟨hexact, rfl⟩ := h.exact
  obtain ⟨⟨m, i⟩, hdue, ⟨m', j⟩, hdue', hne, hpoint, hpoint'⟩ := hexact.exists_due_of_waiting hwaiting
  refine ⟨m, i, m', j, hdue, hdue', hpoint, hpoint', ?_⟩
  rcases (point_eq_iff ring.placement _ _ i j).1 (hpoint.trans hpoint'.symm) with ⟨hn, rfl⟩ | hcollision
  · rw [hexact.eq_of_name_eq (mem_due.1 hdue).1 (mem_due.1 hdue').1 hn] at hne
    exact absurd rfl hne
  · exact hcollision

/-- A name that extends another with a number sign and a digit takes no claim of it; what meets here are labels of one
size under a hash that sees the size alone. -/
theorem labels_tell_claims_extended :
    let ring := ofList (.make (fun bytes => bytes.size.toUInt64) 2) [⟨"a", "a", 1⟩, (⟨"a#1", "a#1", 2⟩ : Node)]
    label "a#1" 0 ≠ label "a" 10 ∧
    Reached (.make (fun bytes => bytes.size.toUInt64) 2) ring ∧
    ring.waiting[(5 : UInt64)]? = some [⟨"a#1", "a#1", 2⟩] ∧
    ∃ m i m' j, (m, i) ∈ ring.due ∧ (m', j) ∈ ring.due ∧
      Collision (fun bytes => bytes.size.toUInt64) (label m.name i).toUTF8 (label m'.name j).toUTF8 := by
  intro ring
  have h : Reached (.make (fun bytes => bytes.size.toUInt64) 2) ring := .ofList _
  have hwaiting : ring.waiting[(5 : UInt64)]? = some [⟨"a#1", "a#1", 2⟩] := by decide +kernel
  obtain ⟨htells, -, hmeet⟩ := labels_tell_claims (M := Node)
  obtain ⟨m, i, m', j, hdue, hdue', -, -, hcollision⟩ := hmeet _ ring h 5 _ hwaiting
  refine ⟨fun heq => ?_, h, hwaiting, m, i, m', j, hdue, hdue', hcollision⟩
  exact absurd ((htells "a#1" "a" 0 10).1 heq).2 (by decide)

end Ring

end LogGateway
