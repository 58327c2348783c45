/-
Every ring that adding and removing members leads to holds, at each point, exactly the claims of its members:
the member itself, once for each of its counters that falls there, and no claim of anybody else. Placing
and giving up touch one slot at a time; adding and removing fold over the points that a name claims.
-/
import LogGateway.Proofs.Ring.Slot

namespace LogGateway.Ring

variable {M : Type}

/-! ## Members -/

theorem contains_iff_get? {ring : Ring M} {name : String} :
    ring.contains name = true ↔ ∃ m, ring.get? name = some m := by
  rw [contains, Std.TreeMap.contains_eq_isSome_getElem?, Option.isSome_iff_exists, get?]

theorem get?_eq_none {ring : Ring M} {name : String} (h : ¬ ring.contains name = true) :
    ring.get? name = none := by
  rw [contains_iff_get?, not_exists] at h
  exact Option.eq_none_iff_forall_ne_some.2 h

theorem get?_empty (placement : Placement) (name : String) : (empty placement : Ring M).get? name = none :=
  Std.TreeMap.getElem?_emptyc

/-! ## Slots of a ring -/

@[simp] theorem slot_empty (placement : Placement) (point : UInt64) :
    (empty placement : Ring M).slot point = ⟨none, none⟩ := by
  simp [slot, empty]

theorem setWaiting_waiting (ring : Ring M) (point q : UInt64) (waiting : List M) :
    (ring.setWaiting point waiting).waiting[q]? =
      if q = point then Slot.keep waiting else ring.waiting[q]? := by
  unfold setWaiting Slot.keep
  split
  · rw [OrderedMap.getElem?_erase]
  · rw [OrderedMap.getElem?_insert]

theorem setWaiting_points (ring : Ring M) (point : UInt64) (waiting : List M) :
    (ring.setWaiting point waiting).points = ring.points := by
  unfold setWaiting; split <;> rfl

/-- A change of points and waiting claims only. -/
structure SameMembers (ring other : Ring M) : Prop where
  members : other.members = ring.members
  placement : other.placement = ring.placement

theorem claimed_eq {ring other : Ring M} (h : other.placement = ring.placement) (name : String) :
    other.claimed name = ring.claimed name := by
  rw [claimed, claimed, h]

/-- Equal copies in any order are the same list. -/
theorem eq_of_perm_elim_replicate {claims : List M} {member : Option M} {n : Nat}
    (h : claims.Perm (member.elim [] (List.replicate n))) : claims = member.elim [] (List.replicate n) := by
  cases member with
  | none => exact h.eq_nil
  | some m => exact List.perm_replicate.1 h

variable [Named M]

theorem slot_place (ring : Ring M) (m : M) (point q : UInt64) :
    (ring.place m point).slot q = if q = point then (ring.slot q).place m else ring.slot q := by
  unfold place
  by_cases hq : q = point
  · subst hq
    rw [if_pos rfl]
    cases ho : ring.points[q]? with
    | none => simp [slot, Slot.place, ho]
    | some owner =>
      simp only [slot, Slot.place, ho, Std.TreeMap.getD_eq_getD_getElem?]
      split <;> simp [ho]
  · rw [if_neg hq]
    cases ho : ring.points[point]? with
    | none => simp [slot, OrderedMap.getElem?_insert, hq]
    | some owner =>
      simp only
      split <;> simp [slot, OrderedMap.getElem?_insert, hq]

theorem slot_unplace (ring : Ring M) (name : String) (point q : UInt64) :
    (ring.unplace name point).slot q = if q = point then (ring.slot q).unplace name else ring.slot q := by
  have hw : ring.waiting.getD point [] = (ring.slot point).waiting.getD [] :=
    Std.TreeMap.getD_eq_getD_getElem?
  rw [unplace, hw]
  by_cases hq : q = point
  · subst hq
    rw [if_pos rfl, Slot.unplace]
    by_cases hown : (ring.slot q).owner.any (fun owner => decide (Named.name owner = name)) = true
    · rw [if_pos hown, if_pos (show ring.points[q]?.any _ = true from hown)]
      cases ((ring.slot q).waiting.getD []).mergeSort fun a b => decide (Named.name a ≤ Named.name b) with
      | nil => simp [slot]
      | cons heir rest => simp [slot, setWaiting_waiting]
    · rw [if_neg hown, if_neg (show ¬ ring.points[q]?.any _ = true from hown)]
      simp [slot, setWaiting_waiting, setWaiting_points]
  · rw [if_neg hq]
    simp only
    split
    · split
      · simp [slot, OrderedMap.getElem?_erase, hq]
      · simp [slot, OrderedMap.getElem?_insert, setWaiting_waiting, hq]
    · simp [slot, setWaiting_waiting, setWaiting_points, hq]

theorem sameMembers_place (ring : Ring M) (m : M) (point : UInt64) :
    SameMembers ring (ring.place m point) := by
  unfold place
  split
  · exact ⟨rfl, rfl⟩
  · simp only; split <;> exact ⟨rfl, rfl⟩

theorem sameMembers_unplace (ring : Ring M) (name : String) (point : UInt64) :
    SameMembers ring (ring.unplace name point) := by
  unfold unplace setWaiting
  simp only
  repeat' split
  all_goals exact ⟨rfl, rfl⟩

/-! ## A name's points one after the other -/

theorem foldl_place (m : M) : ∀ (points : List UInt64) (ring : Ring M),
    let placed := points.foldl (fun r point => r.place m point) ring
    SameMembers ring placed ∧
    ∀ q, (placed.slot q).claims.Perm (List.replicate (points.count q) m ++ (ring.slot q).claims) ∧
      ((ring.slot q).Tidy → (placed.slot q).Tidy)
  | [], ring => ⟨⟨rfl, rfl⟩, fun q => ⟨.refl _, id⟩⟩
  | point :: points, ring => by
    obtain ⟨hsame, hslot⟩ := foldl_place m points (ring.place m point)
    have hp := sameMembers_place ring m point
    refine ⟨⟨hsame.members.trans hp.members, hsame.placement.trans hp.placement⟩, fun q => ?_⟩
    obtain ⟨hclaims, htidy⟩ := hslot q
    rw [slot_place] at hclaims htidy
    by_cases hq : q = point
    · subst hq
      rw [if_pos rfl] at hclaims htidy
      refine ⟨?_, fun h => htidy (h.place m)⟩
      rw [List.count_cons_self, List.replicate_succ, List.cons_append]
      -- the new claim moves ahead of the copies placed before it
      exact (hclaims.trans ((Slot.place_claims _ m).append_left _)).trans List.perm_middle
    · rw [if_neg hq] at hclaims htidy
      rw [List.count_cons_of_ne (Ne.symm hq)]
      exact ⟨hclaims, htidy⟩

theorem foldl_unplace (name : String) : ∀ (points : List UInt64) (ring : Ring M),
    let left := points.foldl (fun r point => r.unplace name point) ring
    SameMembers ring left ∧
    ∀ q, ((left.slot q).others name).Perm ((ring.slot q).others name) ∧
      (left.slot q).count name ≤ (ring.slot q).count name - points.count q ∧
      ((ring.slot q).Tidy → (left.slot q).Tidy)
  | [], ring => ⟨⟨rfl, rfl⟩, fun q => ⟨.refl _, Nat.le_refl _, id⟩⟩
  | point :: points, ring => by
    obtain ⟨hsame, hslot⟩ := foldl_unplace name points (ring.unplace name point)
    have hp := sameMembers_unplace ring name point
    refine ⟨⟨hsame.members.trans hp.members, hsame.placement.trans hp.placement⟩, fun q => ?_⟩
    obtain ⟨hothers, hcount, htidy⟩ := hslot q
    rw [slot_unplace] at hothers hcount htidy
    by_cases hq : q = point
    · subst hq
      rw [if_pos rfl] at hothers hcount htidy
      have := Slot.count_unplace_le (ring.slot q) name
      refine ⟨hothers.trans (Slot.others_unplace _ name), ?_, fun h => htidy (h.unplace name)⟩
      rw [List.count_cons_self]
      exact Nat.le_trans hcount (by omega)
    · rw [if_neg hq] at hothers hcount htidy
      rw [List.count_cons_of_ne (Ne.symm hq)]
      exact ⟨hothers, hcount, htidy⟩

/-! ## Adding and removing -/

theorem add_of_contains {ring : Ring M} {m : M} (hc : ring.contains (Named.name m) = true) :
    ring.add m = ring := by
  rw [add, add?, if_pos hc, Option.getD_none]

theorem remove_of_not_contains {ring : Ring M} {name : String} (hc : ¬ ring.contains name = true) :
    ring.remove name = ring := by
  rw [remove, remove?, if_neg hc, Option.getD_none]

/-- What adding a new name does to members and slots. -/
structure Added (ring : Ring M) (m : M) (other : Ring M) : Prop where
  members : other.members = ring.members.insert (Named.name m) m
  placement : other.placement = ring.placement
  claims : ∀ q, (other.slot q).claims.Perm
    (List.replicate ((ring.claimed (Named.name m)).count q) m ++ (ring.slot q).claims)
  tidy : ∀ q, (ring.slot q).Tidy → (other.slot q).Tidy

theorem added {ring : Ring M} {m : M} (hc : ¬ ring.contains (Named.name m) = true) :
    Added ring m (ring.add m) := by
  rw [add, add?, if_neg hc, Option.getD_some]
  obtain ⟨hsame, hslot⟩ := foldl_place m (ring.claimed (Named.name m)) ring
  refine ⟨?_, hsame.placement, fun q => (hslot q).1, fun q => (hslot q).2⟩
  rw [hsame.members]

/-- What removing a member does to members and slots. -/
structure Removed (ring : Ring M) (name : String) (other : Ring M) : Prop where
  members : other.members = ring.members.erase name
  placement : other.placement = ring.placement
  others : ∀ q, ((other.slot q).others name).Perm ((ring.slot q).others name)
  count : ∀ q, (other.slot q).count name ≤ (ring.slot q).count name - (ring.claimed name).count q
  tidy : ∀ q, (ring.slot q).Tidy → (other.slot q).Tidy

theorem removed {ring : Ring M} {name : String} (hc : ring.contains name = true) :
    Removed ring name (ring.remove name) := by
  rw [remove, remove?, if_pos hc, Option.getD_some]
  obtain ⟨hsame, hslot⟩ :=
    foldl_unplace name (ring.claimed name) { ring with members := ring.members.erase name }
  exact ⟨hsame.members, hsame.placement, fun q => (hslot q).1, fun q => (hslot q).2.1, fun q => (hslot q).2.2⟩

/-- A member that is there stays, whoever is added under its name. -/
theorem get?_add (ring : Ring M) (m : M) (name : String) :
    (ring.add m).get? name = (ring.get? name).or (if Named.name m = name then some m else none) := by
  by_cases hc : ring.contains (Named.name m) = true
  · rw [add_of_contains hc]
    split
    · rename_i hn
      subst hn
      obtain ⟨m', hm'⟩ := contains_iff_get?.1 hc
      rw [hm', Option.some_or]
    · rw [Option.or_none]
  · rw [get?, (added hc).members, OrderedMap.getElem?_insert]
    by_cases hn : name = Named.name m
    · subst hn
      rw [if_pos rfl, if_pos rfl, get?_eq_none hc, Option.none_or]
    · rw [if_neg hn, if_neg (Ne.symm hn), Option.or_none, get?]

theorem get?_remove (ring : Ring M) (name name' : String) :
    (ring.remove name).get? name' = if name' = name then none else ring.get? name' := by
  by_cases hc : ring.contains name = true
  · rw [get?, (removed hc).members, OrderedMap.getElem?_erase, get?]
  · rw [remove_of_not_contains hc]
    split
    · rename_i hn
      rw [hn, get?_eq_none hc]
    · rfl

theorem get?_foldl_add : ∀ (members : List M) (ring : Ring M) (name : String),
    (members.foldl (fun ring m => ring.add m) ring).get? name =
      (ring.get? name).or (members.find? fun m => Named.name m = name)
  | [], ring, name => by rw [List.foldl_nil, List.find?_nil, Option.or_none]
  | m :: members, ring, name => by
    rw [List.foldl_cons, get?_foldl_add members, get?_add, Option.or_assoc, List.find?_cons]
    by_cases hn : Named.name m = name
    · simp [hn]
    · simp [hn]

theorem get?_foldl_remove : ∀ (names : List String) (ring : Ring M) (name : String),
    (names.foldl (fun ring name => ring.remove name) ring).get? name =
      if name ∈ names then none else ring.get? name
  | [], ring, name => by rw [List.foldl_nil, if_neg List.not_mem_nil]
  | removed :: names, ring, name => by
    rw [List.foldl_cons, get?_foldl_remove names, get?_remove]
    by_cases hn : name = removed
    · simp [hn]
    · simp [hn]

/-- Of members of one name the first counts. -/
theorem get?_ofList (placement : Placement) (members : List M) (name : String) :
    (ofList placement members).get? name = members.find? fun m => Named.name m = name := by
  rw [ofList, get?_foldl_add, get?_empty, Option.none_or]

/-! ## Rings that hold exactly the claims of their members -/

/-- Slots are tidy, members are kept under their own names, and the claims of a name to a point are those of
its member, one for each of its counters that falls there. -/
structure Exact (ring : Ring M) : Prop where
  tidy : ∀ point, (ring.slot point).Tidy
  named : ∀ (name : String) (m : M), ring.members[name]? = some m → Named.name m = name
  claims : ∀ (point : UInt64) (name : String),
    (ring.slot point).claims.filter (fun m => Named.name m = name) =
      (ring.members[name]?).elim [] fun m => List.replicate ((ring.claimed name).count point) m

theorem empty_exact (placement : Placement) : (empty placement : Ring M).Exact := by
  refine ⟨fun point => ?_, fun name m h => ?_, fun point name => ?_⟩
  · rw [slot_empty]; exact .free
  · simp [empty] at h
  · rw [slot_empty]; simp [empty, Slot.claims]

theorem Exact.add {ring : Ring M} (h : ring.Exact) (m : M) : (ring.add m).Exact := by
  by_cases hc : ring.contains (Named.name m) = true
  · rw [add_of_contains hc]; exact h
  have ha := added hc
  refine ⟨fun point => ha.tidy point (h.tidy point), fun name m' hm => ?_, fun point name => ?_⟩
  · rw [ha.members, OrderedMap.getElem?_insert] at hm
    split at hm
    · rename_i hn
      cases hm
      exact hn.symm
    · exact h.named name m' hm
  · have hfree : ring.members[Named.name m]? = none := by
      simpa [contains] using hc
    have hp := (ha.claims point).filter fun m => Named.name m = name
    rw [List.filter_append, h.claims point name] at hp
    refine eq_of_perm_elim_replicate (hp.trans (.of_eq ?_))
    rw [claimed_eq ha.placement, ha.members, OrderedMap.getElem?_insert]
    by_cases hn : name = Named.name m
    · subst hn
      simp [hfree]
    · simp [hn, Ne.symm hn]

theorem Exact.remove {ring : Ring M} (h : ring.Exact) (name : String) : (ring.remove name).Exact := by
  by_cases hc : ring.contains name = true
  · have hr := removed hc
    refine ⟨fun point => hr.tidy point (h.tidy point), fun name' m hm => ?_, fun point name' => ?_⟩
    · rw [hr.members, OrderedMap.getElem?_erase] at hm
      split at hm
      · cases hm
      · exact h.named name' m hm
    · rw [claimed_eq hr.placement, hr.members, OrderedMap.getElem?_erase]
      by_cases hn : name' = name
      · -- the name had as many claims here as it now gives up
        subst hn
        have hheld : (ring.slot point).count name' ≤ (ring.claimed name').count point := by
          rw [Slot.count, List.countP_eq_length_filter, h.claims point name']
          cases ring.members[name']? with
          | none => exact Nat.zero_le _
          | some m => exact Nat.le_of_eq List.length_replicate
        have hnone : ((ring.remove name').slot point).count name' = 0 := by
          have := hr.count point
          omega
        rw [if_pos rfl, Option.elim_none, List.filter_eq_nil_iff]
        exact List.countP_eq_zero.1 hnone
      · have hp := (hr.others point).filter fun m => Named.name m = name'
        rw [Slot.filter_others _ hn, Slot.filter_others _ hn, h.claims point name'] at hp
        rw [if_neg hn]
        exact eq_of_perm_elim_replicate hp
  · rw [remove_of_not_contains hc]; exact h

/-! ## Every ring that can be reached -/

/-- The rings that start empty or from a list, and those that adding and removing leads to from there. -/
inductive Reached (placement : Placement) : Ring M → Prop
  | empty : Reached placement (empty placement)
  | ofList (members : List M) : Reached placement (ofList placement members)
  | add {ring : Ring M} (h : Reached placement ring) (m : M) : Reached placement (ring.add m)
  | remove {ring : Ring M} (h : Reached placement ring) (name : String) : Reached placement (ring.remove name)

theorem add_placement (ring : Ring M) (m : M) : (ring.add m).placement = ring.placement := by
  by_cases hc : ring.contains (Named.name m) = true
  · rw [add_of_contains hc]
  · exact (added hc).placement

theorem remove_placement (ring : Ring M) (name : String) : (ring.remove name).placement = ring.placement := by
  by_cases hc : ring.contains name = true
  · exact (removed hc).placement
  · rw [remove_of_not_contains hc]

/-- Changes one after the other keep what each of them keeps. -/
theorem foldl_exact {α : Type} {change : Ring M → α → Ring M}
    (hchange : ∀ ring a, ring.Exact → (change ring a).Exact ∧ (change ring a).placement = ring.placement) :
    ∀ (changes : List α) {ring : Ring M}, ring.Exact →
      (changes.foldl change ring).Exact ∧ (changes.foldl change ring).placement = ring.placement
  | [], _, h => ⟨h, rfl⟩
  | a :: changes, ring, h => by
    obtain ⟨hexact, hplaced⟩ := hchange ring a h
    obtain ⟨hall, hsame⟩ := foldl_exact hchange changes hexact
    exact ⟨hall, hsame.trans hplaced⟩

theorem foldl_add_exact (members : List M) {ring : Ring M} (h : ring.Exact) :
    (members.foldl (fun ring m => ring.add m) ring).Exact ∧
      (members.foldl (fun ring m => ring.add m) ring).placement = ring.placement :=
  foldl_exact (fun ring m h => ⟨h.add m, add_placement ring m⟩) members h

theorem foldl_remove_exact (names : List String) {ring : Ring M} (h : ring.Exact) :
    (names.foldl (fun ring name => ring.remove name) ring).Exact ∧
      (names.foldl (fun ring name => ring.remove name) ring).placement = ring.placement :=
  foldl_exact (fun ring name h => ⟨h.remove name, remove_placement ring name⟩) names h

theorem Reached.exact {placement : Placement} {ring : Ring M} (h : Reached placement ring) :
    ring.Exact ∧ ring.placement = placement := by
  induction h with
  | empty => exact ⟨empty_exact placement, rfl⟩
  | ofList members => exact foldl_add_exact members (empty_exact placement)
  | add _ m ih => exact ⟨ih.1.add m, (add_placement _ m).trans ih.2⟩
  | remove _ name ih => exact ⟨ih.1.remove name, (remove_placement _ name).trans ih.2⟩

end LogGateway.Ring
