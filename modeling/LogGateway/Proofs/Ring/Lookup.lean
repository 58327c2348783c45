/-
Where keys go. A key belongs to the member with the nearest claim at or after the key's digest, going around
the end of the digests; of equally near claims the smallest name counts. So a look-up depends on the members
alone, and a ring with fewer members moves no key of the members it keeps.
-/
import LogGateway.Cluster.Node
import LogGateway.Proofs.Ring.Claims

namespace LogGateway.Ring

variable {M : Type}

/-! ## Distances on the ring -/

/-- The way from `hash` up to a point, around the end of the digests for points below `hash`. -/
theorem sub_le_sub_of_le {hash p q : UInt64} (hp : hash ≤ p) (hq : hash ≤ q → p ≤ q) :
    p - hash ≤ q - hash := by
  rw [UInt64.le_iff_toNat_le] at hp ⊢
  rw [UInt64.le_iff_toNat_le, UInt64.le_iff_toNat_le] at hq
  rw [UInt64.toNat_sub, UInt64.toNat_sub]
  have := hash.toNat_lt
  have := p.toNat_lt
  have := q.toNat_lt
  omega

theorem sub_le_sub_of_lt {hash p q : UInt64} (hq : q < hash) (hpq : p ≤ q) : p - hash ≤ q - hash := by
  rw [UInt64.lt_iff_toNat_lt] at hq
  rw [UInt64.le_iff_toNat_le] at hpq ⊢
  rw [UInt64.toNat_sub, UInt64.toNat_sub]
  have := hash.toNat_lt
  omega

/-- The owner from a digest on holds the nearest point that has an owner. -/
theorem ownerFrom_eq_some {ring : Ring M} {hash : UInt64} {m : M} (h : ring.ownerFrom hash = some m) :
    ∃ p, ring.points[p]? = some m ∧ ∀ q o, ring.points[q]? = some o → p - hash ≤ q - hash := by
  rw [ownerFrom, Option.map_eq_some_iff] at h
  obtain ⟨⟨p, m'⟩, h, rfl⟩ := h
  rcases Option.or_eq_some_iff.1 h with h | ⟨hnone, h⟩
  · obtain ⟨hp, hge, hmin⟩ := OrderedMap.getEntryGE?_eq_some h
    refine ⟨p, hp, fun q o hq => sub_le_sub_of_le (Std.isGE_compare.1 hge) fun hle => ?_⟩
    exact Std.isLE_compare.1 (hmin q o hq (Std.isGE_compare.2 hle))
  · obtain ⟨hp, hmin⟩ := OrderedMap.minEntry?_eq_some h
    refine ⟨p, hp, fun q o hq => ?_⟩
    have hlt : q < hash := Std.compare_eq_lt.1 (OrderedMap.getEntryGE?_eq_none hnone hq)
    exact sub_le_sub_of_lt hlt (Std.isLE_compare.1 (hmin q o hq))

theorem ownerFrom_eq_none {ring : Ring M} {hash : UInt64} (h : ring.ownerFrom hash = none) (q : UInt64) :
    ring.points[q]? = none := by
  rw [ownerFrom, Option.map_eq_none_iff, Option.or_eq_none_iff] at h
  exact OrderedMap.minEntry?_eq_none h.2 q

variable [Named M]

/-! ## Owners and members -/

/-- Who has a claim to a point is a member and claims the point. -/
theorem Exact.mem_claims {ring : Ring M} (h : ring.Exact) {p : UInt64} {m : M} (hm : m ∈ (ring.slot p).claims) :
    ring.get? (Named.name m) = some m ∧ p ∈ ring.claimed (Named.name m) := by
  have hf : m ∈ (ring.slot p).claims.filter fun m' => Named.name m' = Named.name m :=
    List.mem_filter.2 ⟨hm, decide_eq_true rfl⟩
  rw [h.claims p (Named.name m)] at hf
  cases hstored : ring.members[Named.name m]? with
  | none => rw [hstored] at hf; cases hf
  | some m' =>
    rw [hstored] at hf
    obtain ⟨hcount, rfl⟩ := List.mem_replicate.1 hf
    exact ⟨hstored, List.count_pos_iff.1 (Nat.pos_of_ne_zero hcount)⟩

/-- The owner of a point is a member and claims the point. -/
theorem Exact.owner {ring : Ring M} (h : ring.Exact) {p : UInt64} {o : M} (ho : ring.points[p]? = some o) :
    ring.get? (Named.name o) = some o ∧ p ∈ ring.claimed (Named.name o) := by
  refine h.mem_claims ?_
  rw [Slot.claims, slot, ho]
  exact List.mem_cons_self

/-- A point that a member claims has an owner, and no member with a smaller name claims it. -/
theorem Exact.exists_owner {ring : Ring M} (h : ring.Exact) {name : String} {p : UInt64}
    (hm : ring.contains name = true) (hp : p ∈ ring.claimed name) :
    ∃ o, ring.points[p]? = some o ∧ Named.name o ≤ name := by
  obtain ⟨m, hm⟩ := contains_iff_get?.1 hm
  rw [get?] at hm
  have hmem : m ∈ (ring.slot p).claims.filter fun m => Named.name m = name := by
    rw [h.claims p name, hm]
    exact List.mem_replicate.2 ⟨Nat.ne_of_gt (List.count_pos_iff.2 hp), rfl⟩
  obtain ⟨hmem, hn⟩ := List.mem_filter.1 hmem
  have hn : Named.name m = name := of_decide_eq_true hn
  cases ho : (ring.slot p).owner with
  | none => rw [(h.tidy p).claims_eq_nil ho] at hmem; cases hmem
  | some o => exact ⟨o, ho, hn ▸ (h.tidy p).le_of_mem ho hmem⟩

/-! ## The nearest claim -/

/-- The way from a key's digest to a claim of a name. -/
def distance (placement : Placement) (key : ByteArray) (name : String) (i : Nat) : UInt64 :=
  placement.point name i - placement.hash key

/-- A stored member one of whose claims is nearest to the key: no other claim is nearer, and of those as near
none has a smaller name. -/
structure Nearest (placement : Placement) (ring : Ring M) (key : ByteArray) (m : M) : Prop where
  stored : ring.get? (Named.name m) = some m
  claim : ∃ i < placement.claims, ∀ name, ring.contains name = true → ∀ j < placement.claims,
    distance placement key (Named.name m) i < distance placement key name j ∨
    distance placement key (Named.name m) i = distance placement key name j ∧ Named.name m ≤ name

/-- Only one member is nearest. -/
theorem Nearest.unique {placement : Placement} {ring : Ring M} {key : ByteArray} {m m' : M}
    (h : Nearest placement ring key m) (h' : Nearest placement ring key m') : m = m' := by
  obtain ⟨i, hi, hnear⟩ := h.claim
  obtain ⟨j, hj, hnear'⟩ := h'.claim
  have hle := hnear _ (contains_iff_get?.2 ⟨m', h'.stored⟩) j hj
  have hge := hnear' _ (contains_iff_get?.2 ⟨m, h.stored⟩) i hi
  have hn : Named.name m = Named.name m' := by
    rcases hle with hlt | ⟨heq, hle⟩
    · rcases hge with hgt | ⟨heq, -⟩
      · exact absurd hlt (UInt64.lt_asymm hgt)
      · exact absurd heq.symm (UInt64.ne_of_lt hlt)
    · rcases hge with hgt | ⟨-, hge⟩
      · exact absurd heq.symm (UInt64.ne_of_lt hgt)
      · exact Std.le_antisymm hle hge
  exact Option.some.inj (h.stored.symm.trans (hn ▸ h'.stored))

theorem Exact.nearest_of_locate {ring : Ring M} (h : ring.Exact) {key : ByteArray} {m : M}
    (hm : ring.locate key = some m) : Nearest ring.placement ring key m := by
  obtain ⟨p, hp, hmin⟩ := ownerFrom_eq_some hm
  obtain ⟨hstored, hclaimed⟩ := h.owner hp
  obtain ⟨i, hi, rfl⟩ := List.mem_map.1 hclaimed
  refine ⟨hstored, i, List.mem_range.1 hi, fun name hname j hj => ?_⟩
  obtain ⟨o, ho, hle⟩ := h.exists_owner hname (List.mem_map.2 ⟨j, List.mem_range.2 hj, rfl⟩)
  rcases Std.le_iff_lt_or_eq.1 (hmin _ o ho) with hlt | heq
  · exact .inl hlt
  · -- equally near claims meet at one point, so they have one owner
    have hpq := (UInt64.sub_left_inj _).1 heq
    rw [hpq, ho] at hp
    cases hp
    exact .inr ⟨heq, hle⟩

theorem Exact.locate_eq_none {ring : Ring M} (h : ring.Exact) (hpos : 0 < ring.placement.claims)
    {key : ByteArray} (hnone : ring.locate key = none) (name : String) : ring.contains name = false := by
  rw [Bool.eq_false_iff]
  intro hname
  obtain ⟨o, ho, -⟩ := h.exists_owner hname (List.mem_map.2 ⟨0, List.mem_range.2 hpos, rfl⟩)
  rw [ownerFrom_eq_none hnone] at ho
  cases ho

/-- A look-up finds the nearest member. -/
theorem Exact.locate_eq_some_iff {ring : Ring M} (h : ring.Exact) (hpos : 0 < ring.placement.claims)
    {key : ByteArray} {m : M} : ring.locate key = some m ↔ Nearest ring.placement ring key m := by
  refine ⟨h.nearest_of_locate, fun hm => ?_⟩
  cases hl : ring.locate key with
  | none =>
    have := h.locate_eq_none hpos hl (Named.name m)
    rw [contains_iff_get?.2 ⟨m, hm.stored⟩] at this; cases this
  | some m' => rw [(h.nearest_of_locate hl).unique hm]

/-- A member that is nearest in a ring is nearest in every smaller ring that has its name. -/
theorem Nearest.of_subset {placement : Placement} {smaller ring : Ring M} {key : ByteArray} {m kept : M}
    (h : Nearest placement ring key m)
    (hsub : ∀ name, smaller.contains name = true → ring.contains name = true)
    (hn : Named.name kept = Named.name m) (hkept : smaller.get? (Named.name m) = some kept) :
    Nearest placement smaller key kept := by
  obtain ⟨i, hi, hnear⟩ := h.claim
  refine ⟨by rw [hn, hkept], i, hi, fun name hname j hj => ?_⟩
  rw [hn]
  exact hnear name (hsub name hname) j hj

/-- Where a list gives the members, it also gives the nearest. -/
theorem Nearest.of_list {placement : Placement} {ring : Ring M} {members : List M} {key : ByteArray}
    {m : M} {i : Nat}
    (hget : ∀ name, ring.get? name = members.find? fun m => Named.name m = name)
    (hm : members.find? (fun m' => Named.name m' = Named.name m) = some m) (hi : i < placement.claims)
    (hnear : ∀ other ∈ members, ∀ j ∈ List.range placement.claims,
      distance placement key (Named.name m) i < distance placement key (Named.name other) j ∨
      distance placement key (Named.name m) i = distance placement key (Named.name other) j ∧
        Named.name m ≤ Named.name other) : Nearest placement ring key m := by
  refine ⟨(hget _).trans hm, i, hi, fun name hname j hj => ?_⟩
  obtain ⟨other, hother⟩ := contains_iff_get?.1 hname
  rw [hget] at hother
  have hn := List.find?_some hother
  simp only [decide_eq_true_eq] at hn
  subst hn
  exact hnear other (List.mem_of_find?_eq_some hother) j (List.mem_range.2 hj)

/-- Two rings of one placement with the same members find the same member. -/
theorem Exact.locate_congr {ring other : Ring M} (h : ring.Exact) (h' : other.Exact)
    (hpos : 0 < ring.placement.claims) (hplaced : other.placement = ring.placement)
    (hget : ∀ name, other.get? name = ring.get? name) (key : ByteArray) :
    other.locate key = ring.locate key := by
  have hcontains : ∀ name, other.contains name = true ↔ ring.contains name = true := by
    intro name
    rw [contains_iff_get?, contains_iff_get?, hget name]
  refine Option.ext fun m => ?_
  rw [h.locate_eq_some_iff hpos, h'.locate_eq_some_iff (hplaced ▸ hpos), hplaced]
  refine ⟨fun hm => ?_, fun hm => ?_⟩
  · exact hm.of_subset (fun name => (hcontains name).2) rfl ((hget _).symm.trans hm.stored)
  · exact hm.of_subset (fun name => (hcontains name).1) rfl ((hget _).trans hm.stored)

/-- The members that a smaller ring keeps, keep their keys. -/
theorem Exact.locate_of_subset {smaller ring : Ring M} (h : ring.Exact) (h' : smaller.Exact)
    (hpos : 0 < ring.placement.claims) (hplaced : smaller.placement = ring.placement)
    (hsub : ∀ name, smaller.contains name = true → ring.contains name = true) {key : ByteArray} {m kept : M}
    (hm : ring.locate key = some m) (hkept : smaller.get? (Named.name m) = some kept) :
    smaller.locate key = some kept := by
  rw [h'.locate_eq_some_iff (hplaced ▸ hpos), hplaced]
  exact (h.nearest_of_locate hm).of_subset hsub (h'.named _ _ hkept) hkept

/-- Two rings of one placement whose members have the same names find members of the same name. -/
theorem Exact.map_name_locate {ring other : Ring M} (h : ring.Exact) (h' : other.Exact)
    (hpos : 0 < ring.placement.claims) (hplaced : other.placement = ring.placement)
    (hsame : ∀ name, other.contains name = true ↔ ring.contains name = true) (key : ByteArray) :
    (other.locate key).map Named.name = (ring.locate key).map Named.name := by
  cases hm : ring.locate key with
  | none =>
    cases hm' : other.locate key with
    | none => rfl
    | some m' =>
      have hstored := contains_iff_get?.2 ⟨m', (h'.nearest_of_locate hm').stored⟩
      have hnone := h.locate_eq_none hpos hm (Named.name m')
      rw [(hsame _).1 hstored] at hnone
      cases hnone
  | some m =>
    obtain ⟨kept, hkept⟩ := contains_iff_get?.1
      ((hsame _).2 (contains_iff_get?.2 ⟨m, (h.nearest_of_locate hm).stored⟩))
    rw [h.locate_of_subset h' hpos hplaced (fun name => (hsame name).1) hm hkept, Option.map_some, Option.map_some,
      h'.named _ _ hkept]

theorem make_claims_pos (hash : ByteArray → UInt64) (virtualNodes : Nat) :
    0 < (Placement.make hash virtualNodes).claims :=
  Nat.lt_of_lt_of_le Nat.one_pos (Nat.le_max_right virtualNodes 1)

/-! ## Look-ups -/

/-- In every ring that can be reached a look-up finds nobody exactly if there are no members, and otherwise
the stored member with the nearest claim. It depends on the members alone, not on how the ring came to
have them. -/
theorem locate_nearest (hash : ByteArray → UInt64) (virtualNodes : Nat) {ring : Ring M}
    (h : Reached (.make hash virtualNodes) ring) (key : ByteArray) :
    (ring.locate key = none ↔ ring.isEmpty = true) ∧
    (∀ m, ring.locate key = some m ↔ Nearest (.make hash virtualNodes) ring key m) ∧
    ∀ other : Ring M, Reached (.make hash virtualNodes) other → (∀ name, other.get? name = ring.get? name) →
      other.locate key = ring.locate key := by
  obtain ⟨hexact, hplaced⟩ := h.exact
  have hpos : 0 < ring.placement.claims := hplaced ▸ make_claims_pos hash virtualNodes
  refine ⟨⟨fun hnone => ?_, fun hempty => ?_⟩, fun m => ?_, fun other hother hget => ?_⟩
  · exact Std.TreeMap.isEmpty_iff_forall_contains.2 (hexact.locate_eq_none hpos hnone)
  · rw [Option.eq_none_iff_forall_ne_some]
    intro m hm
    have hin := contains_iff_get?.2 ⟨m, (hexact.nearest_of_locate hm).stored⟩
    rw [contains, Std.TreeMap.contains_of_isEmpty hempty] at hin
    cases hin
  · rw [hexact.locate_eq_some_iff hpos, hplaced]
  · obtain ⟨hexact', hplaced'⟩ := hother.exact
    exact hexact.locate_congr hexact' hpos (hplaced'.trans hplaced.symm) hget key

/-- A node that came back is found under its name, past the end of the digests and where claims meet. -/
theorem locate_nearest_returned :
    let ring := ((ofList (.make (fun bytes => bytes.size.toUInt64) 2)
      [⟨"c", "c", 1⟩, ⟨"a", "a", 2⟩, ⟨"bb", "bb", 3⟩]).remove "a").add (⟨"a", "a", 4⟩ : Node)
    Reached (.make (fun bytes => bytes.size.toUInt64) 2) ring ∧
    ring.locate "a key".toUTF8 = some ⟨"a", "a", 4⟩ := by
  intro ring
  have h : Reached (.make (fun bytes => bytes.size.toUInt64) 2) ring := .add (.remove (.ofList _) "a") _
  have hget : ∀ name, ring.get? name =
      [⟨"a", "a", 4⟩, ⟨"c", "c", 1⟩, ⟨"bb", "bb", 3⟩].find? fun m : Node => m.name = name := by
    intro name
    rw [get?_add, get?_remove, get?_ofList]
    by_cases hn : name = "a"
    · simp [hn, Named.name]
    · simp [hn, Ne.symm hn, Named.name, List.find?_cons]
  have hnear : Nearest (.make (fun bytes => bytes.size.toUInt64) 2) ring "a key".toUTF8 ⟨"a", "a", 4⟩ :=
    .of_list hget rfl (show 0 < 2 by decide) (by decide)
  exact ⟨h, ((locate_nearest _ 2 h "a key".toUTF8).2.1 _).2 hnear⟩

/-! ## Fewer and more members -/

/-- In a smaller ring the members that are left keep the keys that the larger ring gives them. So members that
are removed give up their own keys alone, and members that are added take keys for themselves alone. -/
theorem locate_minimal_disruption (hash : ByteArray → UInt64) (virtualNodes : Nat) {ring : Ring M}
    (h : Reached (.make hash virtualNodes) ring) (key : ByteArray) :
    (∀ smaller : Ring M, Reached (.make hash virtualNodes) smaller →
      (∀ name, smaller.contains name = true → ring.contains name = true) →
      ∀ m, ring.locate key = some m → smaller.contains (Named.name m) = true →
        ∃ kept, smaller.locate key = some kept ∧ Named.name kept = Named.name m) ∧
    (∀ (names : List String) (m : M), ring.locate key = some m → Named.name m ∉ names →
      (names.foldl (fun ring name => ring.remove name) ring).locate key = some m) ∧
    ∀ (members : List M) (m : M), (members.foldl (fun ring m => ring.add m) ring).locate key = some m →
      ring.locate key = some m ∨ m ∈ members ∧ ring.contains (Named.name m) = false := by
  obtain ⟨hexact, hplaced⟩ := h.exact
  have hpos : 0 < ring.placement.claims := hplaced ▸ make_claims_pos hash virtualNodes
  refine ⟨fun smaller hsmaller hsub m hm hin => ?_, fun names m hm hstays => ?_, fun members m hm => ?_⟩
  · obtain ⟨hexact', hplaced'⟩ := hsmaller.exact
    obtain ⟨kept, hkept⟩ := contains_iff_get?.1 hin
    exact ⟨kept, hexact.locate_of_subset hexact' hpos (hplaced'.trans hplaced.symm) hsub hm hkept,
      hexact'.named _ _ hkept⟩
  · obtain ⟨hexact', hplaced'⟩ := foldl_remove_exact names hexact
    refine hexact.locate_of_subset hexact' hpos hplaced' (fun name hname => ?_) hm ?_
    · obtain ⟨m', hm'⟩ := contains_iff_get?.1 hname
      rw [get?_foldl_remove] at hm'
      split at hm'
      · cases hm'
      · exact contains_iff_get?.2 ⟨m', hm'⟩
    · rw [get?_foldl_remove, if_neg hstays]
      exact (hexact.nearest_of_locate hm).stored
  · obtain ⟨hexact', hplaced'⟩ := foldl_add_exact members hexact
    have hstored := (hexact'.nearest_of_locate hm).stored
    rw [get?_foldl_add] at hstored
    rcases Option.or_eq_some_iff.1 hstored with hold | ⟨hnew, hfound⟩
    · -- a member of the ring before: that ring is the smaller one
      refine .inl (hexact'.locate_of_subset hexact (hplaced'.symm ▸ hpos) hplaced'.symm
        (fun name hname => ?_) hm hold)
      obtain ⟨m', hm'⟩ := contains_iff_get?.1 hname
      exact contains_iff_get?.2 ⟨m', by rw [get?_foldl_add, hm', Option.some_or]⟩
    · refine .inr ⟨List.mem_of_find?_eq_some hfound, Bool.eq_false_iff.2 fun hin => ?_⟩
      obtain ⟨m', hm'⟩ := contains_iff_get?.1 hin
      rw [hnew] at hm'
      cases hm'

/-- Removing the smallest of two names that meet moves no key of a third. -/
theorem locate_minimal_disruption_removed :
    let ring := ofList (.make (fun bytes => bytes.size.toUInt64) 2)
      [⟨"c", "c", 1⟩, ⟨"a", "a", 2⟩, (⟨"bb", "bb", 3⟩ : Node)]
    Reached (.make (fun bytes => bytes.size.toUInt64) 2) ring ∧
    ((ring.remove "a").remove "c").locate "name".toUTF8 = some ⟨"bb", "bb", 3⟩ := by
  intro ring
  have h : Reached (.make (fun bytes => bytes.size.toUInt64) 2) ring := .ofList _
  have hnear : Nearest (.make (fun bytes => bytes.size.toUInt64) 2) ring "name".toUTF8 ⟨"bb", "bb", 3⟩ :=
    .of_list (get?_ofList _ _) rfl (show 0 < 2 by decide) (by decide)
  obtain ⟨hexact, hplaced⟩ := h.exact
  have hm := (hexact.locate_eq_some_iff (hplaced ▸ make_claims_pos _ 2)).2 (hplaced ▸ hnear)
  exact ⟨h, (locate_minimal_disruption _ 2 h "name".toUTF8).2.1 ["a", "c"] _ hm (by decide)⟩

end LogGateway.Ring
