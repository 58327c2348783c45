/-
What a ring holds as a whole. Main statement: in every ring that can be reached, the owner of a point and those that
wait for it are the members that have a counter falling there, each once for every such counter, and the owner has the
smallest name of them. So a ring holds as many claims of each member as the member makes, and a member that is removed
takes its own claims along and no others. What is true of every slot stays true at each step of a removal, so a point is
never handed on from a list on which nobody waits.
-/
import LogGateway.Proofs.Ring.Lookup
import Mathlib.Data.List.Nodup
import Mathlib.Data.List.Perm.Basic
import Mathlib.Data.List.ProdSigma

namespace LogGateway.Ring

/-! ## Lists by key -/

section

variable {α κ : Type} [DecidableEq κ] {f : α → κ} {l l' : List α}

/-- Lists with the same elements of each key have the same elements. -/
theorem perm_of_filter_eq (h : ∀ k, (l.filter fun a => f a = k) = l'.filter fun a => f a = k) : l.Perm l' := by
  classical
  rw [List.perm_iff_count]
  intro a
  have hkey (l : List α) : (l.filter fun b => f b = f a).count a = l.count a :=
    List.count_filter (p := fun b => decide (f b = f a)) (decide_eq_true rfl)
  rw [← hkey l, ← hkey l', h]

/-- Taken by their keys one after the other, the elements of a list are all there. -/
theorem flatMap_filter_perm {keys : List κ} (hnodup : keys.Nodup) (hkeys : ∀ a ∈ l, f a ∈ keys) :
    (keys.flatMap fun k => l.filter fun a => f a = k).Perm l := by
  induction keys generalizing l with
  | nil =>
    cases l with
    | nil => exact .refl _
    | cons a l => cases hkeys a List.mem_cons_self
  | cons k keys ih =>
    obtain ⟨hk, hnodup⟩ := List.nodup_cons.1 hnodup
    let rest := l.filter fun a => !decide (f a = k)
    have hrest : ∀ a ∈ rest, f a ∈ keys := by
      intro a ha
      obtain ⟨ha, hne⟩ := List.mem_filter.1 ha
      exact (List.mem_cons.1 (hkeys a ha)).resolve_left (by simpa using hne)
    have hsame : (keys.flatMap fun k' => l.filter fun a => f a = k') =
        keys.flatMap fun k' => rest.filter fun a => f a = k' := by
      refine List.flatMap_congr fun k' hk' => ?_
      rw [List.filter_filter]
      refine List.filter_congr fun a _ => ?_
      by_cases ha : f a = k'
      · have hne : k' ≠ k := fun heq => hk (heq ▸ hk')
        simp [ha, hne]
      · simp [ha]
    rw [List.flatMap_cons, hsame]
    exact ((ih hnodup hrest).append_left _).trans (List.filter_append_perm _ l)

theorem filter_product {β : Type} (p : α → Bool) (l : List α) (others : List β) :
    ((l ×ˢ others).filter fun c => p c.1) = l.filter p ×ˢ others := by
  induction l with
  | nil => rfl
  | cons a l ih =>
    rw [List.product_cons, List.filter_append, ih, List.filter_map]
    cases ha : p a with
    | true => simp [ha, Function.comp_def]
    | false => simp [ha, Function.comp_def]

end

/-! ## The claims that are due -/

variable {M : Type} {ring : Ring M}

/-- Every member with each of its counters. -/
def due (ring : Ring M) : List (M × Nat) := ring.toList ×ˢ List.range ring.placement.claims

theorem mem_due {m : M} {i : Nat} : (m, i) ∈ ring.due ↔ m ∈ ring.toList ∧ i < ring.placement.claims := by
  rw [due, List.mem_product, List.mem_range]

theorem count_claimed (name : String) (point : UInt64) : (ring.claimed name).count point =
    ((List.range ring.placement.claims).filter fun i => ring.placement.point name i = point).length := by
  rw [claimed, List.count_eq_countP, List.countP_map, List.countP_eq_length_filter]
  rfl

variable [Named M]

/-- The members that have a counter falling on a point, each once for every such counter. -/
def dueAt (ring : Ring M) (point : UInt64) : List M :=
  (ring.due.filter fun (m, i) => ring.placement.point (Named.name m) i = point).map Prod.fst

theorem Exact.mem_toList (h : ring.Exact) {m : M} : m ∈ ring.toList ↔ ring.get? (Named.name m) = some m := by
  rw [toList, OrderedMap.mem_values_iff]
  constructor
  · rintro ⟨name, hm⟩
    rw [h.named name m hm]
    exact hm
  · intro hm
    exact ⟨_, hm⟩

theorem Exact.nodup_due (h : ring.Exact) : ring.due.Nodup := by
  have hnames : (ring.toList.map Named.name).Nodup := by
    rw [toList, OrderedMap.map_values h.named]
    exact Std.TreeMap.nodup_keys
  exact (List.Nodup.of_map _ hnames).product List.nodup_range

theorem Exact.filter_due (h : ring.Exact) (name : String) :
    (ring.due.filter fun c => Named.name c.1 = name) =
      (ring.get? name).toList ×ˢ List.range ring.placement.claims := by
  rw [due, filter_product (fun m => decide (Named.name m = name)), toList, OrderedMap.filter_values h.named, get?]

/-- A slot holds what is due at its point. -/
theorem Exact.claims_perm (h : ring.Exact) (point : UInt64) : (ring.slot point).claims.Perm (ring.dueAt point) := by
  refine perm_of_filter_eq (f := Named.name) fun name => ?_
  have hcomm : (ring.dueAt point).filter (fun m => Named.name m = name) =
      ((ring.due.filter fun c => Named.name c.1 = name).filter fun c =>
        ring.placement.point (Named.name c.1) c.2 = point).map Prod.fst := by
    rw [dueAt, List.filter_map, List.filter_filter, List.filter_filter]
    simp only [Function.comp_def, Bool.and_comm]
  rw [h.claims point name, hcomm, h.filter_due, get?]
  cases hm : ring.members[name]? with
  | none => rfl
  | some m =>
    have hn : Named.name m = name := h.named name m hm
    simp [hn, count_claimed, List.filter_map, Function.comp_def]

/-! ## The ring as a whole -/

/-- All that a ring holds: the owners of its points and those that wait. -/
def held (ring : Ring M) : List M := ring.points.values ++ ring.waiting.values.flatten

/-- What a ring holds is what its slots hold, point by point. -/
theorem Exact.held_perm_slots (h : ring.Exact) :
    ring.held.Perm (ring.points.keys.flatMap fun point => (ring.slot point).claims) := by
  have howners : (ring.points.keys.flatMap fun point => (ring.slot point).owner.toList) = ring.points.values := by
    rw [← List.filterMap_eq_flatMap_toList]
    exact OrderedMap.filterMap_keys ring.points
  have hlists : (ring.points.keys.flatMap fun point => (ring.slot point).waiting.getD []) =
      (ring.points.keys.filterMap fun point => ring.waiting[point]?).flatten := by
    rw [List.filterMap_eq_flatMap_toList, List.flatten_eq_flatMap, List.flatMap_assoc]
    refine List.flatMap_congr fun point _ => ?_
    show ring.waiting[point]?.getD [] = _
    cases ring.waiting[point]? <;> simp
  -- nobody waits for a point without an owner, so the points with an owner are all there are
  have hpoints : ∀ point, point ∈ ring.waiting → point ∈ ring.points := by
    intro point hpoint
    obtain ⟨waiting, hwaiting⟩ := Option.isSome_iff_exists.1 (Std.TreeMap.mem_iff_isSome_getElem?.1 hpoint)
    obtain ⟨-, owner, howner⟩ := (h.tidy point).of_waiting hwaiting
    exact Std.TreeMap.mem_iff_isSome_getElem?.2 (Option.isSome_iff_exists.2 ⟨owner, howner⟩)
  have hall := List.flatMap_append_perm ring.points.keys (fun point => (ring.slot point).owner.toList) fun point =>
    (ring.slot point).waiting.getD []
  rw [howners, hlists] at hall
  exact ((OrderedMap.filterMap_keys_perm hpoints).flatten.symm.append_left _).trans hall

/-- What is due falls on points that have an owner. -/
theorem Exact.mem_points (h : ring.Exact) {m : M} {i : Nat} (hdue : (m, i) ∈ ring.due) :
    ring.placement.point (Named.name m) i ∈ ring.points.keys := by
  obtain ⟨hm, hi⟩ := mem_due.1 hdue
  have hname := contains_iff_get?.2 ⟨m, h.mem_toList.1 hm⟩
  obtain ⟨owner, howner, -⟩ := h.exists_owner hname (List.mem_map.2 ⟨i, List.mem_range.2 hi, rfl⟩)
  exact Std.TreeMap.mem_keys.2 (Std.TreeMap.mem_iff_isSome_getElem?.2 (Option.isSome_iff_exists.2 ⟨owner, howner⟩))

/-- A ring holds what is due. -/
theorem Exact.held_perm (h : ring.Exact) : ring.held.Perm (ring.due.map Prod.fst) := by
  have hslots : (ring.points.keys.flatMap fun point => (ring.slot point).claims).Perm
      (ring.points.keys.flatMap ring.dueAt) :=
    List.Perm.flatMap_left _ fun point _ => h.claims_perm point
  have hpoints : (ring.points.keys.flatMap ring.dueAt).Perm (ring.due.map Prod.fst) := by
    have hcover : ∀ c ∈ ring.due, ring.placement.point (Named.name c.1) c.2 ∈ ring.points.keys :=
      fun c hc => h.mem_points hc
    have hdue := (flatMap_filter_perm Std.TreeMap.nodup_keys hcover).map Prod.fst
    rw [List.map_flatMap] at hdue
    exact hdue
  exact (h.held_perm_slots.trans hslots).trans hpoints

/-- Under each name a ring holds as many claims as a member makes, all of the member of that name. -/
theorem Exact.filter_held (h : ring.Exact) (name : String) :
    (ring.held.filter fun m => Named.name m = name) =
      (ring.get? name).elim [] (List.replicate ring.placement.claims) := by
  refine eq_of_perm_elim_replicate ((h.held_perm.filter _).trans (.of_eq ?_))
  rw [List.filter_map]
  show ((ring.due.filter fun c => Named.name c.1 = name).map Prod.fst) = _
  rw [h.filter_due]
  cases ring.get? name with
  | none => rfl
  | some m => simp [Function.comp_def]

/-! ## Removals -/

/-- A member that is removed takes its claims along and no others. -/
theorem Exact.claims_remove (h : ring.Exact) (name : String) (point : UInt64) :
    ((ring.remove name).slot point).claims.Perm ((ring.slot point).others name) := by
  refine perm_of_filter_eq (f := Named.name) fun name' => ?_
  have hleft : (ring.remove name).members[name']? = if name' = name then none else ring.members[name']? :=
    get?_remove ring name name'
  rw [(h.remove name).claims point name', hleft, claimed_eq (remove_placement ring name)]
  by_cases hn : name' = name
  · rw [if_pos hn, hn, Option.elim_none, Slot.others, List.filter_filter]
    simp
  · rw [if_neg hn, Slot.filter_others _ hn, h.claims point name']

/-- A removal on its way: the member is gone, and the first `k` of its points are given up. -/
def removing (ring : Ring M) (name : String) (k : Nat) : Ring M :=
  ((ring.claimed name).take k).foldl (fun r point => r.unplace name point)
    { ring with members := ring.members.erase name }

theorem removing_succ (ring : Ring M) (name : String) {k : Nat} (hk : k < ring.placement.claims) :
    ring.removing name (k + 1) = (ring.removing name k).unplace name (ring.placement.point name k) := by
  have hlength : k < (ring.claimed name).length := by
    rw [claimed, List.length_map, List.length_range]
    exact hk
  have hpoint : (ring.claimed name)[k] = ring.placement.point name k := by
    simp [claimed]
  rw [removing, List.take_succ_eq_append_getElem hlength, List.foldl_append, hpoint]
  rfl

/-- A removal has reached its end when all points are given up. -/
theorem removing_claims {name : String} (hc : ring.contains name = true) :
    ring.removing name ring.placement.claims = ring.remove name := by
  have hlength : (ring.claimed name).length = ring.placement.claims := by
    rw [claimed, List.length_map, List.length_range]
  rw [removing, ← hlength, List.take_length, remove, remove?, if_pos hc]
  rfl

/-- Slots are tidy also while a member is removed. -/
theorem Exact.tidy_removing (h : ring.Exact) (name : String) (k : Nat) (point : UInt64) :
    ((ring.removing name k).slot point).Tidy :=
  ((foldl_unplace name _ _).2 point).2.2 (h.tidy point)

/-- In every ring that can be reached the claims to a point are those that are due there: the members that have a
counter falling on it, each once for every such counter. The owner has the smallest name of them, and a list of those
that wait has somebody on it and an owner before it. So of each member the ring holds exactly as many claims as a member
makes, and of other names none; a removal takes away the claims of its name and leaves all others, and at each of its
steps the list that waits for the point that is given up is not empty if there is one. -/
theorem holds_what_is_due {placement : Placement} (h : Reached placement ring) :
    ring.placement = placement ∧
    (∀ point,
      (ring.slot point).claims.Perm (ring.dueAt point) ∧
      (∀ owner, ring.points[point]? = some owner → ∀ m ∈ ring.dueAt point, Named.name owner ≤ Named.name m) ∧
      ∀ waiting, ring.waiting[point]? = some waiting →
        waiting ≠ [] ∧ ∃ owner, ring.points[point]? = some owner) ∧
    (∀ name, (ring.held.filter fun m => Named.name m = name) =
      (ring.get? name).elim [] (List.replicate placement.claims)) ∧
    ∀ name,
      (∀ point, ((ring.remove name).slot point).claims.Perm
        ((ring.slot point).claims.filter fun m => Named.name m ≠ name)) ∧
      (ring.contains name = true → ring.removing name placement.claims = ring.remove name) ∧
      ∀ k < placement.claims,
        ring.removing name (k + 1) = (ring.removing name k).unplace name (placement.point name k) ∧
        (ring.removing name k).waiting[placement.point name k]? ≠ some [] := by
  obtain ⟨hexact, hplaced⟩ := h.exact
  subst hplaced
  refine ⟨rfl, fun point => ⟨hexact.claims_perm point, fun owner howner m hm => ?_, fun waiting hwaiting => ?_⟩,
    hexact.filter_held, fun name => ⟨hexact.claims_remove name, removing_claims, fun k hk => ?_⟩⟩
  · exact (hexact.tidy point).le_of_mem howner ((hexact.claims_perm point).mem_iff.2 hm)
  · exact (hexact.tidy point).of_waiting hwaiting
  · refine ⟨ring.removing_succ name hk, fun hempty => ?_⟩
    exact ((hexact.tidy_removing name k _).of_waiting hempty).1 rfl

/-- Two members of which each meets itself and the other: the smaller name waits behind itself, and the larger name has
both its claims left when the smaller is removed. -/
theorem holds_what_is_due_crowded :
    let ring := ofList (.make (fun bytes => bytes.size.toUInt64) 2)
      [⟨"c", "c", 1⟩, ⟨"a", "a", 2⟩, (⟨"bb", "bb", 3⟩ : Node)]
    Reached (.make (fun bytes => bytes.size.toUInt64) 2) ring ∧
    (ring.slot 3).claims = [⟨"a", "a", 2⟩, ⟨"c", "c", 1⟩, ⟨"c", "c", 1⟩, ⟨"a", "a", 2⟩] ∧
    (ring.removing "a" 1).waiting[(3 : UInt64)]? ≠ some [] ∧
    ((ring.remove "a").slot 3).claims.Perm [⟨"c", "c", 1⟩, ⟨"c", "c", 1⟩] := by
  intro ring
  have h : Reached (.make (fun bytes => bytes.size.toUInt64) 2) ring := .ofList _
  obtain ⟨hleft, -, hsteps⟩ := (holds_what_is_due h).2.2.2 "a"
  refine ⟨h, by decide +kernel, ?_, ?_⟩
  · exact (hsteps 1 (by decide)).2
  · exact (hleft 3).trans (.of_eq (by decide +kernel))

end LogGateway.Ring
