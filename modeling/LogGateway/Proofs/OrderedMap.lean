/-
Ordered maps through the equality of their keys: what a map holds after a change, the first entry at or
after a key as the first such entry of the ordered list, and the entries of a part of the keys as what the
look-ups of these keys give. An entry whose key lies behind all others is listed last.
-/
import Std.Data.TreeMap

namespace LogGateway.OrderedMap

open Std

variable {κ α : Type} [Ord κ] [TransOrd κ] [LawfulEqOrd κ]

/-! ## Look-ups -/

section
variable [DecidableEq κ]

theorem getElem?_insert (t : TreeMap κ α) (k a : κ) (v : α) :
    (t.insert k v)[a]? = if a = k then some v else t[a]? := by
  rw [TreeMap.getElem?_insert]
  by_cases h : a = k
  · rw [if_pos h, if_pos (Std.compare_eq_iff_eq.2 h.symm)]
  · rw [if_neg h, if_neg fun hc => h (Std.compare_eq_iff_eq.1 hc).symm]

theorem getElem?_erase (t : TreeMap κ α) (k a : κ) :
    (t.erase k)[a]? = if a = k then none else t[a]? := by
  rw [TreeMap.getElem?_erase]
  by_cases h : a = k
  · rw [if_pos h, if_pos (Std.compare_eq_iff_eq.2 h.symm)]
  · rw [if_neg h, if_neg fun hc => h (Std.compare_eq_iff_eq.1 hc).symm]

theorem getElem?_alter (t : TreeMap κ α) (k a : κ) (f : Option α → Option α) :
    (t.alter k f)[a]? = if a = k then f t[k]? else t[a]? := by
  rw [TreeMap.getElem?_alter]
  by_cases h : a = k
  · rw [if_pos h, if_pos (Std.compare_eq_iff_eq.2 h.symm)]
  · rw [if_neg h, if_neg fun hc => h (Std.compare_eq_iff_eq.1 hc).symm]

end

/-! ## Entries in order -/

omit [TransOrd κ] [LawfulEqOrd κ] in
theorem toList_eq_map (t : TreeMap κ α) : t.toList = t.inner.inner.toListModel.map fun e => (e.1, e.2) :=
  DTreeMap.Internal.Impl.Const.toList_eq_toListModel_map

omit [TransOrd κ] [LawfulEqOrd κ] in
theorem values_eq_map (t : TreeMap κ α) : t.values = t.toList.map Prod.snd := by
  rw [toList_eq_map, List.map_map]
  exact DTreeMap.Internal.Impl.values_eq_map_snd

theorem mem_values_iff {t : TreeMap κ α} {v : α} : v ∈ t.values ↔ ∃ k : κ, t[k]? = some v := by
  rw [values_eq_map, List.mem_map]
  constructor
  · rintro ⟨⟨k, v⟩, hkv, rfl⟩
    exact ⟨k, TreeMap.mem_toList_iff_getElem?_eq_some.1 hkv⟩
  · rintro ⟨k, hk⟩
    exact ⟨(k, v), TreeMap.mem_toList_iff_getElem?_eq_some.2 hk, rfl⟩

omit [LawfulEqOrd κ] in
theorem getEntryGE?_eq_find? (t : TreeMap κ α) (k : κ) :
    t.getEntryGE? k = t.toList.find? fun e => (compare e.1 k).isGE := by
  rw [toList_eq_map, List.find?_map]
  show DTreeMap.Internal.Impl.Const.getEntryGE? k t.inner.inner = _
  rw [DTreeMap.Internal.Impl.Const.getEntryGE?_eq_map,
    DTreeMap.Internal.Impl.getEntryGE?_eq_find? t.inner.wf.ordered]
  rfl

omit [LawfulEqOrd κ] in
theorem minEntry?_eq_head? (t : TreeMap κ α) : t.minEntry? = t.toList.head? := by
  rw [toList_eq_map, List.head?_map]
  show DTreeMap.Internal.Impl.Const.minEntry? t.inner.inner = _
  rw [DTreeMap.Internal.Impl.Const.minEntry?_eq_minEntry?,
    DTreeMap.Internal.Impl.minEntry?_eq_minEntry? t.inner.wf.ordered,
    Std.Internal.List.minEntry?_eq_head? t.inner.wf.ordered]

/-- Entries of the ordered list from one entry on are not before it. -/
theorem isLE_of_suffix {t : TreeMap κ α} {e : κ × α} {before after : List (κ × α)}
    (hl : t.toList = before ++ e :: after) {a : κ} {v : α} (ha : (a, v) ∈ e :: after) :
    (compare e.1 a).isLE := by
  have hp := t.ordered_keys_toList
  rw [hl] at hp
  have hp := (List.pairwise_append.1 hp).2.1
  rcases List.mem_cons.1 ha with rfl | ha
  · exact ReflCmp.isLE_rfl
  · exact Ordering.isLE_of_eq_lt ((List.pairwise_cons.1 hp).1 _ ha)

theorem getEntryGE?_eq_some {t : TreeMap κ α} {k : κ} {e : κ × α} (h : t.getEntryGE? k = some e) :
    t[e.1]? = some e.2 ∧ (compare e.1 k).isGE ∧
      ∀ a v, t[a]? = some v → (compare a k).isGE → (compare e.1 a).isLE := by
  rw [getEntryGE?_eq_find?, List.find?_eq_some_iff_append] at h
  obtain ⟨hk, before, after, hl, hbefore⟩ := h
  refine ⟨TreeMap.mem_toList_iff_getElem?_eq_some.1 (by rw [hl]; simp), hk, fun a v ha hak => ?_⟩
  have hm := TreeMap.mem_toList_iff_getElem?_eq_some.2 ha
  rw [hl] at hm
  rcases List.mem_append.1 hm with hm | hm
  · have := hbefore _ hm
    rw [hak] at this; cases this
  · exact isLE_of_suffix hl hm

theorem getEntryGE?_eq_none {t : TreeMap κ α} {k : κ} (h : t.getEntryGE? k = none) {a : κ} {v : α}
    (ha : t[a]? = some v) : compare a k = .lt := by
  rw [getEntryGE?_eq_find?, List.find?_eq_none] at h
  have := h _ (TreeMap.mem_toList_iff_getElem?_eq_some.2 ha)
  simpa using this

theorem minEntry?_eq_some {t : TreeMap κ α} {e : κ × α} (h : t.minEntry? = some e) :
    t[e.1]? = some e.2 ∧ ∀ a v, t[a]? = some v → (compare e.1 a).isLE := by
  rw [minEntry?_eq_head?, List.head?_eq_some_iff] at h
  obtain ⟨rest, hl⟩ := h
  refine ⟨TreeMap.mem_toList_iff_getElem?_eq_some.1 (by rw [hl]; simp), fun a v ha => ?_⟩
  have hm := TreeMap.mem_toList_iff_getElem?_eq_some.2 ha
  rw [hl] at hm
  have hl : t.toList = [] ++ e :: rest := hl
  exact isLE_of_suffix hl hm

theorem minEntry?_eq_none {t : TreeMap κ α} (h : t.minEntry? = none) (a : κ) : t[a]? = none := by
  rw [minEntry?_eq_head?, List.head?_eq_none_iff] at h
  rw [Option.eq_none_iff_forall_ne_some]
  intro v ha
  have := TreeMap.mem_toList_iff_getElem?_eq_some.2 ha
  rw [h] at this; cases this

/-- Values that tell their keys tell them in order. -/
theorem map_values {t : TreeMap κ α} {f : α → κ} (h : ∀ k v, t[k]? = some v → f v = k) : t.values.map f = t.keys := by
  rw [values_eq_map, List.map_map, ← TreeMap.map_fst_toList_eq_keys]
  refine List.map_congr_left fun e he => ?_
  exact h e.1 e.2 (TreeMap.mem_toList_iff_getElem?_eq_some.1 he)

/-- Looking up the keys of a map gives its values, in their order. -/
theorem filterMap_keys (t : TreeMap κ α) : (t.keys.filterMap fun k => t[k]?) = t.values := by
  have hentries : (t.toList.map fun e => t[e.1]?) = t.toList.map (some ∘ Prod.snd) :=
    List.map_congr_left fun e he => TreeMap.mem_toList_iff_getElem?_eq_some.1 he
  calc (t.keys.filterMap fun k => t[k]?)
      = (t.toList.map fun e => t[e.1]?).filterMap id := by
        rw [← TreeMap.map_fst_toList_eq_keys, List.filterMap_map, List.filterMap_map]; rfl
    _ = t.toList.filterMap (some ∘ Prod.snd) := by rw [hentries, List.filterMap_map]; rfl
    _ = t.values := by rw [List.filterMap_eq_map, values_eq_map]

/-- Looking up more keys than those of a map gives its values too, in some order. -/
theorem filterMap_keys_perm {β : Type} {t : TreeMap κ α} {u : TreeMap κ β} (h : ∀ k, k ∈ t → k ∈ u) :
    (u.keys.filterMap fun k => t[k]?).Perm t.values := by
  have hkeys : (u.keys.filter t.contains).Perm t.keys := by
    refine (List.perm_ext_iff_of_nodup (TreeMap.nodup_keys.filter _) TreeMap.nodup_keys).2 fun k => ?_
    rw [List.mem_filter, TreeMap.mem_keys, TreeMap.mem_keys, ← TreeMap.mem_iff_contains]
    exact ⟨And.right, fun hk => ⟨h k hk, hk⟩⟩
  have hnone : (fun k => t[k]?) = fun k => if t.contains k then t[k]? else none := by
    funext k
    split
    · rfl
    · rename_i hk
      exact TreeMap.getElem?_eq_none_of_contains_eq_false (Bool.eq_false_iff.2 hk)
  rw [← filterMap_keys t, hnone, ← List.filterMap_filter, ← List.filterMap_filter]
  refine (hkeys.filterMap _).trans (.of_eq ?_)
  rw [List.filter_eq_self.2 fun k hk => TreeMap.mem_iff_contains.1 (TreeMap.mem_keys.1 hk)]

/-- Erasing a key that is not there changes no value. -/
theorem values_erase_of_not_contains [DecidableEq κ] {t : TreeMap κ α} {k : κ} (h : ¬ t.contains k = true) :
    (t.erase k).values = t.values := by
  refine TreeMap.Equiv.values_eq (TreeMap.Equiv.of_forall_constGet?_eq fun a => ?_)
  rw [getElem?_erase]
  split
  · rename_i ha
    rw [ha]
    exact (TreeMap.getElem?_eq_none_of_contains_eq_false (Bool.eq_false_iff.2 h)).symm
  · rfl

/-! ## Parts -/

theorem getElem?_filter (t : TreeMap κ α) (p : κ → Bool) (k : κ) :
    (t.filter fun k _ => p k)[k]? = if p k then t[k]? else none := by
  rw [TreeMap.getElem?_filter']
  cases p k with
  | true => cases t[k]? <;> rfl
  | false => cases t[k]? <;> rfl

/-- Maps that agree on some keys list the same entries of these keys. -/
theorem toList_filter_congr {t u : TreeMap κ α} {p : κ → Bool} (h : ∀ k, p k = true → t[k]? = u[k]?) :
    (t.toList.filter fun e => p e.1) = u.toList.filter fun e => p e.1 := by
  have heq : ∀ k : κ, (t.filter fun k _ => p k)[k]? = (u.filter fun k _ => p k)[k]? := by
    intro k
    rw [getElem?_filter, getElem?_filter]
    split
    · rename_i hp; exact h k hp
    · rfl
  have hlist := TreeMap.equiv_iff_toList_eq.1 (TreeMap.Equiv.of_forall_constGet?_eq heq)
  rwa [TreeMap.toList_filter, TreeMap.toList_filter] at hlist

/-- A map lists at most one entry of a key. -/
theorem toList_filter_key [DecidableEq κ] (t : TreeMap κ α) {p : κ → Bool} {k : κ}
    (h : ∀ a, p a = true ↔ a = k) :
    (t.toList.filter fun e => p e.1) = t[k]?.toList.map fun v => (k, v) := by
  cases hk : t[k]? with
  | none =>
    refine List.filter_eq_nil_iff.2 fun e he hp => ?_
    have := TreeMap.mem_toList_iff_getElem?_eq_some.1 he
    rw [(h e.1).1 hp, hk] at this
    cases this
  | some v =>
    have hsame : ∀ a, p a = true → t[a]? = ((∅ : TreeMap κ α).insert k v)[a]? := by
      intro a ha
      rw [(h a).1 ha, hk, getElem?_insert, if_pos rfl]
    have hone : ((∅ : TreeMap κ α).insert k v).toList.Perm [(k, v)] := TreeMap.toList_insert_perm
    rw [toList_filter_congr hsame, List.perm_singleton.1 hone]
    exact List.filter_cons_of_pos ((h k).2 rfl)

/-- Of values that tell their keys at most one tells a key, the one that is stored under it. -/
theorem filter_values [DecidableEq κ] {t : TreeMap κ α} {f : α → κ} (h : ∀ k v, t[k]? = some v → f v = k) (k : κ) :
    (t.values.filter fun v => f v = k) = t[k]?.toList := by
  have hkeys : (t.toList.filter fun e => decide (f e.2 = k)) = t.toList.filter fun e => decide (e.1 = k) := by
    refine List.filter_congr fun e he => ?_
    rw [h e.1 e.2 (TreeMap.mem_toList_iff_getElem?_eq_some.1 he)]
  rw [values_eq_map, List.filter_map]
  show List.map Prod.snd (t.toList.filter fun e => decide (f e.2 = k)) = _
  rw [hkeys, toList_filter_key _ fun _ => decide_eq_true_iff]
  cases t[k]? <;> rfl

/-- A key behind all others is listed last. -/
theorem toList_insert_of_lt [DecidableEq κ] {t : TreeMap κ α} {k : κ} (v : α) (h : ∀ a ∈ t, compare a k = .lt) :
    (t.insert k v).toList = t.toList ++ [(k, v)] := by
  have hother : ∀ e ∈ t.toList, compare e.1 k = .lt := by
    intro e he
    refine h e.1 (TreeMap.mem_iff_isSome_getElem?.2 ?_)
    rw [TreeMap.mem_toList_iff_getElem?_eq_some.1 he]
    rfl
  refine @List.Perm.eq_of_pairwise _ (fun a b => compare a.1 b.1 = .lt) _ _ ?_ TreeMap.ordered_keys_toList ?_ ?_
  · intro a b _ _ hab hba
    exact absurd hba (OrientedCmp.not_lt_of_lt hab)
  · refine List.pairwise_append.2 ⟨t.ordered_keys_toList, List.pairwise_singleton _ _, ?_⟩
    intro e he b hb
    rw [List.mem_singleton.1 hb]
    exact hother e he
  · refine TreeMap.toList_insert_perm.trans ?_
    rw [List.filter_eq_self.2]
    · exact (List.perm_append_singleton _ _).symm
    · intro e he
      simp only [decide_eq_true_eq, beq_iff_eq]
      intro heq
      have := hother e he
      rw [heq, compare_self] at this
      cases this

end LogGateway.OrderedMap
