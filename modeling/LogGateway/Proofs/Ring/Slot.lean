/-
What a hash ring keeps for one point: the owner and those that wait for it. Placing a member adds one claim
to the slot of its point, giving the point up takes away a claim of the name and none of another, and a slot
stays tidy: nobody waits for a point without an owner, and no claim has a smaller name than the owner's.
-/
import LogGateway.Proofs.OrderedMap
import LogGateway.Ring

namespace LogGateway.Ring

variable {M : Type}

/-- The owner of a point and the claims that wait for it, as far as the ring keeps them. -/
structure Slot (M : Type) where
  owner : Option M
  waiting : Option (List M)

/-- What the ring keeps for a point. -/
def slot (ring : Ring M) (point : UInt64) : Slot M := ⟨ring.points[point]?, ring.waiting[point]?⟩

namespace Slot

/-- The owner's claim first, then those that wait. -/
def claims (slot : Slot M) : List M := slot.owner.toList ++ slot.waiting.getD []

/-- A waiting list is kept only while it has claims. -/
def keep (waiting : List M) : Option (List M) := if waiting.isEmpty then none else some waiting

theorem getD_keep (waiting : List M) : (keep waiting).getD [] = waiting := by
  cases waiting <;> rfl

variable [Named M]

/-- A new claim. The smaller name owns the point, the other waits. -/
def place (slot : Slot M) (m : M) : Slot M :=
  match slot.owner with
  | none => ⟨some m, slot.waiting⟩
  | some owner =>
    if Named.name owner ≤ Named.name m then ⟨some owner, some (slot.waiting.getD [] ++ [m])⟩
    else ⟨some m, some (slot.waiting.getD [] ++ [owner])⟩

/-- A name gives up its claim: as the owner to the smallest name that waits, else all that it waits for. -/
def unplace (slot : Slot M) (name : String) : Slot M :=
  if slot.owner.any fun owner => Named.name owner = name then
    match (slot.waiting.getD []).mergeSort fun a b => Named.name a ≤ Named.name b with
    | [] => ⟨none, slot.waiting⟩
    | heir :: rest => ⟨some heir, keep rest⟩
  else ⟨slot.owner, keep ((slot.waiting.getD []).filter fun m => Named.name m ≠ name)⟩

/-- A point is free, has an owner alone, or an owner of the smallest name and others that wait. -/
inductive Tidy : Slot M → Prop
  | free : Tidy ⟨none, none⟩
  | alone (owner : M) : Tidy ⟨some owner, none⟩
  | contested {owner : M} {waiting : List M} (nonempty : waiting ≠ [])
      (smallest : ∀ m ∈ waiting, Named.name owner ≤ Named.name m) : Tidy ⟨some owner, some waiting⟩

/-- An owner of the smallest name and whatever waits make a tidy slot. -/
theorem Tidy.owned {owner : M} {waiting : List M} (h : ∀ m ∈ waiting, Named.name owner ≤ Named.name m) :
    Tidy ⟨some owner, keep waiting⟩ := by
  cases waiting with
  | nil => exact .alone owner
  | cons m rest => exact .contested (List.cons_ne_nil m rest) h

theorem Tidy.claims_eq_nil {slot : Slot M} (h : slot.Tidy) (hn : slot.owner = none) : slot.claims = [] := by
  cases h with
  | free => rfl
  | alone | contested => cases hn

/-- A waiting list that is kept has claims, and there is an owner to wait for. -/
theorem Tidy.of_waiting {slot : Slot M} (h : slot.Tidy) {waiting : List M} (hw : slot.waiting = some waiting) :
    waiting ≠ [] ∧ ∃ owner, slot.owner = some owner := by
  cases h with
  | free | alone => cases hw
  | @contested owner _ nonempty =>
    cases hw
    exact ⟨nonempty, owner, rfl⟩

/-- The owner has the smallest name of all claims. -/
theorem Tidy.le_of_mem {slot : Slot M} (h : slot.Tidy) {owner m : M} (ho : slot.owner = some owner)
    (hm : m ∈ slot.claims) : Named.name owner ≤ Named.name m := by
  cases h with
  | free => cases ho
  | alone =>
    cases ho
    obtain rfl := List.mem_singleton.1 hm
    exact Std.le_refl _
  | contested _ smallest =>
    cases ho
    rcases List.mem_cons.1 hm with rfl | hm
    · exact Std.le_refl _
    · exact smallest m hm

/-! ## Placing -/

theorem place_claims (slot : Slot M) (m : M) : (slot.place m).claims.Perm (m :: slot.claims) := by
  obtain ⟨owner, waiting⟩ := slot
  cases owner with
  | none => exact .refl _
  | some owner =>
    simp only [place]
    split
    · exact List.perm_append_singleton m (owner :: waiting.getD [])
    · exact (List.perm_append_singleton owner (waiting.getD [])).cons m

theorem Tidy.place {slot : Slot M} (h : slot.Tidy) (m : M) : (slot.place m).Tidy := by
  obtain ⟨owner, waiting⟩ := slot
  cases owner with
  | none =>
    cases h
    exact .alone m
  | some owner =>
    have hle : ∀ w ∈ waiting.getD [], Named.name owner ≤ Named.name w :=
      fun w hw => h.le_of_mem rfl (List.mem_cons_of_mem owner hw)
    simp only [Slot.place]
    split
    · rename_i hm
      refine .contested (by simp) fun w hw => ?_
      rcases List.mem_append.1 hw with hw | hw
      · exact hle w hw
      · rw [List.mem_singleton.1 hw]; exact hm
    · rename_i hm
      have hm := Std.le_of_not_ge hm
      refine .contested (by simp) fun w hw => ?_
      rcases List.mem_append.1 hw with hw | hw
      · exact Std.le_trans hm (hle w hw)
      · rw [List.mem_singleton.1 hw]; exact hm

/-! ## Giving a point up -/

/-- How many claims a name has. -/
def count (slot : Slot M) (name : String) : Nat := slot.claims.countP fun m => Named.name m = name

/-- The claims of all other names. -/
def others (slot : Slot M) (name : String) : List M := slot.claims.filter fun m => Named.name m ≠ name

theorem filter_others (slot : Slot M) {name other : String} (hne : other ≠ name) :
    (slot.others name).filter (fun m => Named.name m = other) =
      slot.claims.filter fun m => Named.name m = other := by
  rw [others, List.filter_filter]
  refine List.filter_congr fun m _ => ?_
  by_cases hm : Named.name m = other
  · simp [hm, hne]
  · simp [hm]

/-- An owner of the name hands the point to those that wait. -/
theorem unplace_claims_of_owner {slot : Slot M} {name : String} {owner : M} (ho : slot.owner = some owner)
    (hn : Named.name owner = name) : (slot.unplace name).claims.Perm (slot.waiting.getD []) := by
  have hsort := List.mergeSort_perm (slot.waiting.getD []) fun a b => Named.name a ≤ Named.name b
  have hany : slot.owner.any (fun owner => Named.name owner = name) = true := by
    rw [ho]; exact decide_eq_true hn
  rw [unplace, if_pos hany]
  split
  · rename_i hnil
    exact .refl _
  · rename_i heir rest hcons
    rw [hcons] at hsort
    rw [claims, getD_keep]
    exact hsort

/-- Where another name or nobody owns the point, all claims of the name go. -/
theorem unplace_claims_of_ne {slot : Slot M} {name : String}
    (hn : ∀ owner ∈ slot.owner, Named.name owner ≠ name) : (slot.unplace name).claims = slot.others name := by
  have hany : ¬ slot.owner.any (fun owner => Named.name owner = name) = true := by
    intro h
    obtain ⟨owner, ho, hown⟩ := (Option.any_eq_true _ _).1 h
    exact hn owner ho (of_decide_eq_true hown)
  rw [unplace, if_neg hany]
  simp only [claims, others, getD_keep, List.filter_append]
  cases ho : slot.owner with
  | none => rfl
  | some owner =>
    have := hn owner ho
    simp [this]

/-- Giving a point up takes no claim of another name. -/
theorem others_unplace (slot : Slot M) (name : String) :
    ((slot.unplace name).others name).Perm (slot.others name) := by
  by_cases h : ∃ owner, slot.owner = some owner ∧ Named.name owner = name
  · obtain ⟨owner, ho, hn⟩ := h
    have hp := (unplace_claims_of_owner ho hn).filter fun m => Named.name m ≠ name
    simpa [others, claims, ho, hn] using hp
  · have hne : ∀ owner ∈ slot.owner, Named.name owner ≠ name := fun owner ho hn => h ⟨owner, ho, hn⟩
    rw [others, unplace_claims_of_ne hne, others, List.filter_filter]
    simp

/-- Giving a point up takes at least one claim of the name, if it has any. -/
theorem count_unplace_le (slot : Slot M) (name : String) :
    (slot.unplace name).count name ≤ slot.count name - 1 := by
  by_cases h : ∃ owner, slot.owner = some owner ∧ Named.name owner = name
  · obtain ⟨owner, ho, hn⟩ := h
    have hp := (unplace_claims_of_owner ho hn).countP_eq fun m => decide (Named.name m = name)
    simp only [count, hp]
    simp [claims, ho, hn]
  · have hne : ∀ owner ∈ slot.owner, Named.name owner ≠ name := fun owner ho hn => h ⟨owner, ho, hn⟩
    have : (slot.unplace name).count name = 0 := by
      rw [count, unplace_claims_of_ne hne, List.countP_eq_zero]
      intro m hm
      simpa using (List.mem_filter.1 hm).2
    omega

theorem sorted_mergeSort (waiting : List M) :
    (waiting.mergeSort fun a b => Named.name a ≤ Named.name b).Pairwise fun a b =>
      decide (Named.name a ≤ Named.name b) = true := by
  apply List.pairwise_mergeSort
  · intro a b c hab hbc
    exact decide_eq_true (Std.le_trans (of_decide_eq_true hab) (of_decide_eq_true hbc))
  · intro a b
    rw [Bool.or_eq_true, decide_eq_true_eq, decide_eq_true_eq]
    exact Std.le_total

theorem Tidy.unplace {slot : Slot M} (h : slot.Tidy) (name : String) : (slot.unplace name).Tidy := by
  unfold Slot.unplace
  cases h with
  | free => exact .free
  | alone owner =>
    simp only [Option.getD_none, List.mergeSort_nil, List.filter_nil]
    split
    · exact .free
    · exact .alone owner
  | @contested owner waiting nonempty smallest =>
    have hperm := List.mergeSort_perm waiting fun a b => Named.name a ≤ Named.name b
    have hsorted := sorted_mergeSort waiting
    simp only [Option.getD_some]
    split
    · split
      · rename_i hnil
        rw [hnil] at hperm
        exact absurd hperm.symm.eq_nil nonempty
      · rename_i heir rest hcons
        rw [hcons] at hsorted
        exact .owned fun m hm => of_decide_eq_true ((List.pairwise_cons.1 hsorted).1 m hm)
    · exact .owned fun m hm => smallest m (List.mem_filter.1 hm).1

end Slot

end LogGateway.Ring
