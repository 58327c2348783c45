/-
The invariant of a cluster: its ring has the managed nodes and no others, each of them is managed under the name
of its URL, only managed nodes have epochs, and none of them is closed. Joining, leaving and reporting keep it.
-/
import LogGateway.Cluster
import LogGateway.Proofs.Ring.Claims
import LogGateway.Proofs.Text.Pieces

namespace LogGateway

/-! ## Names -/

/-- Blanks around a URL are not part of the name. -/
theorem nodeName_trim (url : String) : nodeName (Text.trim url) = nodeName url := by
  unfold nodeName Text.trim normalUrl
  rw [String.toList_ofList, Text.trimChars_idem]

namespace Closures

theorem isClosed_iff {closures : Closures} {node : Node} :
    closures.isClosed node = true ↔ node.serial ∈ closures.serials := by
  rw [isClosed, List.contains_iff_mem]

theorem mem_close {closures : Closures} {node : Node} {serial : Nat} :
    serial ∈ (closures.close node).serials ↔ serial = node.serial ∨ serial ∈ closures.serials := by
  unfold close
  split
  · rename_i hc
    rw [isClosed_iff] at hc
    constructor
    · exact .inr
    · rintro (rfl | h)
      · exact hc
      · exact h
  · exact List.mem_cons

end Closures

namespace Cluster

variable {cluster : Cluster} {name url : String} {node : Node}

theorem contains_iff : cluster.members.contains name = true ↔ ∃ node, cluster.members[name]? = some node := by
  rw [Std.TreeMap.contains_eq_isSome_getElem?, Option.isSome_iff_exists]

theorem mem_members_iff : name ∈ cluster.members ↔ ∃ node, cluster.members[name]? = some node := by
  rw [Std.TreeMap.mem_iff_contains, contains_iff]

/-- A cluster whose parts fit together. -/
structure Sound (cluster : Cluster) : Prop where
  exact : cluster.ring.Exact
  placed : ∀ name : String, cluster.ring.get? name = cluster.members[name]?
  named : ∀ (name : String) (node : Node), cluster.members[name]? = some node →
    node.name = name ∧ nodeName node.url = name
  reported : ∀ name : String, name ∈ cluster.epochs → name ∈ cluster.members
  running : ∀ (name : String) (node : Node), cluster.members[name]? = some node →
    node.serial ∉ cluster.closures.serials
  joined : ∀ (name : String) (node : Node), cluster.members[name]? = some node → node.serial < cluster.nextSerial
  left : ∀ serial ∈ cluster.closures.serials, serial < cluster.nextSerial
  distinct : ∀ (name : String) (node : Node) (name' : String) (node' : Node), cluster.members[name]? = some node →
    cluster.members[name']? = some node' → node.serial = node'.serial → name = name'

theorem sound_empty (placement : Placement) (bindings : Bindings) : (empty placement bindings).Sound := by
  have hnone : ∀ name : String, (empty placement bindings).members[name]? = none :=
    fun name => Std.TreeMap.getElem?_emptyc
  refine ⟨Ring.empty_exact placement, fun name => ?_, ?_, ?_, ?_, ?_, ?_, ?_⟩
  · rw [hnone]
    exact Ring.get?_empty placement name
  · intro name node h
    rw [hnone] at h
    cases h
  · intro name h
    exact absurd h Std.TreeMap.not_mem_emptyc
  · intro name node h
    rw [hnone] at h
    cases h
  · intro name node h
    rw [hnone] at h
    cases h
  · intro serial h
    cases h
  · intro name node name' node' h
    rw [hnone] at h
    cases h

/-! ## Joining -/

theorem add_of_contains (h : cluster.members.contains (nodeName url) = true) : cluster.add url = cluster := if_pos h

theorem add_of_not_contains (h : ¬ cluster.members.contains (nodeName url) = true) :
    cluster.add url = { cluster with
      members := cluster.members.insert (nodeName url) (.make url cluster.nextSerial)
      ring := cluster.ring.add (.make url cluster.nextSerial)
      nextSerial := cluster.nextSerial + 1 } := if_neg h

/-- A node that is there stays, whoever joins under its name. -/
theorem getElem?_add (cluster : Cluster) (url name : String) : (cluster.add url).members[name]? =
    (cluster.members[name]?).or (if nodeName url = name then some (.make url cluster.nextSerial) else none) := by
  by_cases hc : cluster.members.contains (nodeName url) = true
  · rw [add_of_contains hc]
    split
    · rename_i hn
      obtain ⟨node, hnode⟩ := contains_iff.1 hc
      rw [← hn, hnode, Option.some_or]
    · rw [Option.or_none]
  · have hnone : cluster.members[nodeName url]? = none := by simpa using hc
    rw [add_of_not_contains hc, OrderedMap.getElem?_insert]
    by_cases hn : name = nodeName url
    · rw [if_pos hn, if_pos hn.symm, hn, hnone, Option.none_or]
    · rw [if_neg hn, if_neg (Ne.symm hn), Option.or_none]

theorem mem_add {name : String} :
    name ∈ (cluster.add url).members ↔ name ∈ cluster.members ∨ name = nodeName url := by
  rw [mem_members_iff, mem_members_iff, getElem?_add]
  by_cases hn : nodeName url = name
  · rw [if_pos hn]
    cases cluster.members[name]? <;> simp [hn]
  · rw [if_neg hn, Option.or_none]
    simp [Ne.symm hn]

/-- Whoever is managed after a node joined was so before, or is the node. -/
theorem getElem?_add_cases (h : (cluster.add url).members[name]? = some node) :
    cluster.members[name]? = some node ∨ cluster.members[name]? = none ∧ nodeName url = name ∧
      node = .make url cluster.nextSerial := by
  rw [getElem?_add] at h
  rcases Option.or_eq_some_iff.1 h with h | ⟨hnone, h⟩
  · exact .inl h
  · split at h
    · rename_i hn
      cases h
      exact .inr ⟨hnone, hn, rfl⟩
    · cases h

theorem Sound.add (h : cluster.Sound) (url : String) : (cluster.add url).Sound := by
  by_cases hc : cluster.members.contains (nodeName url) = true
  · rw [add_of_contains hc]
    exact h
  have hcases : ∀ {name : String} {node : Node}, (cluster.add url).members[name]? = some node →
      cluster.members[name]? = some node ∨ cluster.members[name]? = none ∧ nodeName url = name ∧
        node = .make url cluster.nextSerial := getElem?_add_cases
  have hring : (cluster.add url).ring = cluster.ring.add (.make url cluster.nextSerial) := by
    rw [add_of_not_contains hc]
  have hrest : (cluster.add url).epochs = cluster.epochs ∧ (cluster.add url).closures = cluster.closures ∧
      (cluster.add url).nextSerial = cluster.nextSerial + 1 := by
    rw [add_of_not_contains hc]
    exact ⟨rfl, rfl, rfl⟩
  obtain ⟨hepochs, hclosures, hnext⟩ := hrest
  refine ⟨?_, ?_, ?_, ?_, ?_, ?_, ?_, ?_⟩
  · rw [hring]
    exact h.exact.add _
  · intro name
    rw [hring, Ring.get?_add, h.placed, getElem?_add]
    rfl
  · intro name node hnode
    rcases hcases hnode with hold | ⟨-, hn, rfl⟩
    · exact h.named name node hold
    · exact ⟨hn, (nodeName_trim url).trans hn⟩
  · intro name hname
    rw [hepochs] at hname
    exact mem_add.2 (.inl (h.reported name hname))
  · intro name node hnode
    rw [hclosures]
    rcases hcases hnode with hold | ⟨-, -, rfl⟩
    · exact h.running name node hold
    · exact fun hin => Nat.lt_irrefl _ (h.left _ hin)
  · intro name node hnode
    rw [hnext]
    rcases hcases hnode with hold | ⟨-, -, rfl⟩
    · exact Nat.lt_succ_of_lt (h.joined name node hold)
    · exact Nat.lt_succ_self _
  · intro serial hin
    rw [hclosures] at hin
    rw [hnext]
    exact Nat.lt_succ_of_lt (h.left serial hin)
  · -- the new serial number is above all others
    intro name node name' node' hnode hnode' hserial
    rcases hcases hnode with hold | ⟨-, hn, rfl⟩
    · rcases hcases hnode' with hold' | ⟨-, -, rfl⟩
      · exact h.distinct name node name' node' hold hold' hserial
      · exact absurd hserial (Nat.ne_of_lt (h.joined name node hold))
    · rcases hcases hnode' with hold' | ⟨-, hn', rfl⟩
      · exact absurd hserial.symm (Nat.ne_of_lt (h.joined name' node' hold'))
      · exact hn.symm.trans hn'

/-! ## Leaving -/

theorem remove_of_none (h : cluster.get? url = none) : cluster.remove url = cluster := by
  rw [get?] at h
  simp only [remove, h]

theorem remove_of_some (h : cluster.get? url = some node) :
    cluster.remove url = { cluster with
      members := cluster.members.erase (nodeName url)
      ring := cluster.ring.remove (nodeName url)
      epochs := cluster.epochs.erase (nodeName url)
      midEpoch := cluster.midWithout (nodeName url)
      closures := cluster.closures.close node } := by
  rw [get?] at h
  simp only [remove, h]

theorem getElem?_remove (cluster : Cluster) (url name : String) :
    (cluster.remove url).members[name]? = if name = nodeName url then none else cluster.members[name]? := by
  cases hn : cluster.get? url with
  | none =>
    rw [remove_of_none hn]
    split
    · rename_i heq
      rw [heq]
      exact hn
    · rfl
  | some node => rw [remove_of_some hn, OrderedMap.getElem?_erase]

theorem mem_remove {name : String} :
    name ∈ (cluster.remove url).members ↔ name ∈ cluster.members ∧ name ≠ nodeName url := by
  rw [mem_members_iff, mem_members_iff, getElem?_remove]
  by_cases hn : name = nodeName url
  · simp [hn]
  · simp [hn]

theorem Sound.remove (h : cluster.Sound) (url : String) : (cluster.remove url).Sound := by
  cases hleaves : cluster.get? url with
  | none =>
    rw [remove_of_none hleaves]
    exact h
  | some leaver =>
  -- whoever is still managed was managed before, under another name
  have hstays : ∀ {name : String} {node : Node}, (cluster.remove url).members[name]? = some node →
      name ≠ nodeName url ∧ cluster.members[name]? = some node := by
    intro name node hnode
    rw [getElem?_remove] at hnode
    split at hnode
    · cases hnode
    · rename_i hn
      exact ⟨hn, hnode⟩
  have hrest : (cluster.remove url).ring = cluster.ring.remove (nodeName url) ∧
      (cluster.remove url).epochs = cluster.epochs.erase (nodeName url) ∧
      (cluster.remove url).closures = cluster.closures.close leaver ∧
      (cluster.remove url).nextSerial = cluster.nextSerial := by
    rw [remove_of_some hleaves]
    exact ⟨rfl, rfl, rfl, rfl⟩
  obtain ⟨hring, hepochs, hclosures, hnext⟩ := hrest
  refine ⟨?_, ?_, ?_, ?_, ?_, ?_, ?_, ?_⟩
  · rw [hring]
    exact h.exact.remove _
  · intro name
    rw [hring, Ring.get?_remove, h.placed, getElem?_remove]
  · intro name node hnode
    exact h.named name node (hstays hnode).2
  · intro name hname
    rw [hepochs, Std.TreeMap.mem_erase] at hname
    refine mem_remove.2 ⟨h.reported name hname.2, ?_⟩
    rintro rfl
    exact hname.1 Std.ReflCmp.compare_self
  · intro name node hnode
    obtain ⟨hn, hold⟩ := hstays hnode
    rw [hclosures, Closures.mem_close]
    rintro (hserial | hin)
    · exact hn (h.distinct name node _ leaver hold hleaves hserial)
    · exact h.running name node hold hin
  · intro name node hnode
    rw [hnext]
    exact h.joined name node (hstays hnode).2
  · intro serial hin
    rw [hclosures, Closures.mem_close] at hin
    rw [hnext]
    rcases hin with rfl | hin
    · exact h.joined _ leaver hleaves
    · exact h.left serial hin
  · intro name node name' node' hnode hnode'
    exact h.distinct name node name' node' (hstays hnode).2 (hstays hnode').2

/-! ## Reporting -/

theorem Sound.report (h : cluster.Sound) (hname : name ∈ cluster.members) (epoch midEpoch : UInt64) :
    { cluster with epochs := cluster.epochs.insert name epoch, midEpoch }.Sound := by
  refine ⟨h.exact, h.placed, h.named, ?_, h.running, h.joined, h.left, h.distinct⟩
  intro other hother
  rcases Std.TreeMap.mem_insert.1 hother with hn | hother
  · rw [← Std.compare_eq_iff_eq.1 hn]
    exact hname
  · exact h.reported other hother

/-- The bindings are no part of it. -/
theorem Sound.rebind (h : cluster.Sound) (bindings : Bindings) : { cluster with bindings }.Sound :=
  ⟨h.exact, h.placed, h.named, h.reported, h.running, h.joined, h.left, h.distinct⟩

end Cluster

end LogGateway
