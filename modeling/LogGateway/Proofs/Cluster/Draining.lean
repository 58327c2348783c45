/-
Nodes that are drained: they leave, and their bindings are dropped right after. Main statement: as long as no node leaves
in another way and nobody else changes the bindings, every bound key is with a managed node, so that keys go nowhere only
if nobody is there, and draining a node moves no key of another.
-/
import LogGateway.Proofs.Cluster.Epochs
import LogGateway.Proofs.Cluster.Routing

namespace LogGateway

/-! ## Bindings of one name -/

/-- A binding either is to the name or is left without it. -/
theorem BindingTable.size_eq (table : BindingTable) (name : String) :
    table.size = (table.toList.filter (·.2 = name)).length + (table.withoutNode name).size := by
  unfold withoutNode
  rw [← Std.TreeMap.length_toList, ← Std.TreeMap.length_toList, Std.TreeMap.toList_filter,
    List.length_eq_countP_add_countP (·.2 = name), List.countP_eq_length_filter, List.countP_eq_length_filter]
  simp only [decide_eq_true_eq]

namespace Bindings

/-- As many bindings are dropped with a name as digests are bound to it. -/
theorem droppedWith_spec (bindings : Bindings) (name : String) :
    ∃ hashes : List UInt64, hashes.Nodup ∧ (∀ hash, hash ∈ hashes ↔ bindings.get? hash = some name) ∧
      bindings.droppedWith name = hashes.length := by
  cases bindings with
  | off => exact ⟨[], List.nodup_nil, by simp [get?_off], rfl⟩
  | sticky table =>
    refine ⟨(table.toList.filter (·.2 = name)).map Prod.fst, ?_, fun hash => ?_, ?_⟩
    · have hkeys := Std.TreeMap.nodup_keys (t := table)
      rw [← Std.TreeMap.map_fst_toList_eq_keys] at hkeys
      exact hkeys.sublist (List.filter_sublist.map _)
    · show _ ↔ table[hash]? = some name
      simp only [List.mem_map, List.mem_filter, Prod.exists, Std.TreeMap.mem_toList_iff_getElem?_eq_some,
        decide_eq_true_eq]
      constructor
      · rintro ⟨_, _, ⟨hbound, rfl⟩, rfl⟩
        exact hbound
      · exact fun hbound => ⟨hash, name, ⟨hbound, rfl⟩, rfl⟩
    · show table.size - (table.withoutNode name).size = _
      rw [table.size_eq name, Nat.add_sub_cancel, List.length_map]

end Bindings

namespace Cluster

variable {cluster : Cluster} {node : Node} {url : String}

/-! ## Clean clusters -/

/-- A cluster in which every bound digest is bound to the name of a managed node. -/
def Clean (cluster : Cluster) : Prop :=
  ∀ (hash : UInt64) (name : String), cluster.bindings.get? hash = some name → name ∈ cluster.members

theorem clean_ofUrls (placement : Placement) (urls : List String) : (ofUrls placement (.sticky ∅) urls).Clean := by
  intro hash name hbound
  cases (ofUrls_free placement urls hash).symm.trans hbound

/-- What leaves every bound key with a managed node. -/
inductive Upkeep where
  | add (url : String)
  | report (url : String) (epoch : UInt64)
  | distribute (key : ByteArray)
  | drain (url : String)

/-- What happens in turn. A node that is drained takes its bindings with it. -/
def Upkeep.events : Upkeep → List Event
  | .add url => [.add url]
  | .report url epoch => [.report url epoch]
  | .distribute key => [.distribute key]
  | .drain url => [.remove url, .invalidateNode (nodeName url)]

def keepUp (cluster : Cluster) (upkeep : Upkeep) : Cluster := upkeep.events.foldl happen cluster

theorem Sound.keepUp (h : cluster.Sound) (upkeep : Upkeep) : (cluster.keepUp upkeep).Sound :=
  List.foldlRecOn upkeep.events happen h fun _ hsound _ _ => hsound.apply _

theorem bindings_report (cluster : Cluster) (url : String) (epoch : UInt64) :
    (cluster.reportEpoch url epoch).bindings = cluster.bindings := by
  simp only [reportEpoch]
  split <;> rfl

theorem members_drain (cluster : Cluster) (url : String) :
    (cluster.keepUp (.drain url)).members = (cluster.remove url).members := rfl

theorem get?_bindings_drain (cluster : Cluster) (url : String) (hash : UInt64) (name : String) :
    (cluster.keepUp (.drain url)).bindings.get? hash = some name ↔
      cluster.bindings.get? hash = some name ∧ name ≠ nodeName url := by
  show ((cluster.remove url).bindings.dropNode (nodeName url)).get? hash = some name ↔ _
  rw [Bindings.get?_dropNode_iff, remove_bindings]

theorem Clean.distribute (h : cluster.Clean) (hsound : cluster.Sound) (key : ByteArray) :
    (cluster.distribute key).2.Clean := by
  have hroutes := cluster.distribute_routes key
  generalize cluster.distribute key = result at hroutes
  cases hroutes with
  | bound | nobody => exact h
  | @free node _ howner =>
    intro hash name hbound
    by_cases hhash : cluster.ring.placement.hash key = hash
    · -- the digest was bound just now, to the owner on the ring
      rw [hhash] at hbound
      obtain rfl := Bindings.eq_of_get?_put hbound
      exact mem_members_iff.2 ⟨node, hsound.owner_managed howner⟩
    · rw [Bindings.get?_put_of_ne hhash] at hbound
      exact h hash name hbound

theorem Clean.keepUp (h : cluster.Clean) (hsound : cluster.Sound) (upkeep : Upkeep) : (cluster.keepUp upkeep).Clean := by
  intro hash name hbound
  cases upkeep with
  | add url => exact mem_add.2 (.inl (h hash name (add_bindings cluster url ▸ hbound)))
  | report url epoch =>
    have hmember := h hash name (bindings_report cluster url epoch ▸ hbound)
    rwa [← members_report cluster url epoch] at hmember
  | distribute key => exact h.distribute hsound key hash name hbound
  | drain url =>
    rw [get?_bindings_drain] at hbound
    rw [members_drain, mem_remove]
    exact ⟨h hash name hbound.1, hbound.2⟩

theorem Clean.foldl (h : cluster.Clean) (hsound : cluster.Sound) (upkeeps : List Upkeep) :
    (upkeeps.foldl Cluster.keepUp cluster).Clean := by
  have hboth : (upkeeps.foldl Cluster.keepUp cluster).Sound ∧ (upkeeps.foldl Cluster.keepUp cluster).Clean :=
    List.foldlRecOn (motive := fun cluster => cluster.Sound ∧ cluster.Clean) upkeeps Cluster.keepUp ⟨hsound, h⟩
      fun _ ⟨hsound, hclean⟩ upkeep _ => ⟨hsound.keepUp upkeep, hclean.keepUp hsound upkeep⟩
  exact hboth.2

/-- A drained node leaves the keys of all others where they are, bound or not. -/
theorem Sound.distribute_drain (h : cluster.Sound) (hpos : 0 < cluster.ring.placement.claims) {key : ByteArray}
    (hd : (cluster.distribute key).1 = some node) (hother : node.name ≠ nodeName url) :
    ((cluster.keepUp (.drain url)).distribute key).1 = some node := by
  have hplaced : (cluster.keepUp (.drain url)).ring.placement.hash key = cluster.ring.placement.hash key :=
    congrArg (Placement.hash · key) (cluster.placement_apply (.remove url))
  have hroutes := cluster.distribute_routes key
  generalize cluster.distribute key = result at hroutes hd
  cases hroutes with
  | nobody => cases hd
  | @bound name hbound =>
    -- the binding is to another name and so outlives the drained one
    obtain ⟨rfl, -⟩ := h.named name node hd
    have hstays := (get?_bindings_drain cluster url _ _).2 ⟨hbound, hother⟩
    rw [distribute_of_bound (hplaced ▸ hstays), members_drain, getElem?_remove, if_neg hother]
    exact hd
  | free hfree howner =>
    -- a free key stays free and finds its owner on the smaller ring
    cases hd
    have hstays : (cluster.keepUp (.drain url)).bindings.get? (cluster.ring.placement.hash key) = none := by
      rw [Option.eq_none_iff_forall_ne_some]
      intro name hbound
      rw [get?_bindings_drain, hfree] at hbound
      cases hbound.1
    have hmore := h.locate_remove hpos howner hother
    rw [@distribute_of_free (cluster.keepUp (.drain url)) node key (hplaced ▸ hstays) hmore]

/-- From every clean cluster that can be reached, joining, reporting, routing and draining lead to clean ones, in which a
key goes nowhere exactly if nobody is managed. Dropping the bindings of a node that has just left gives the number of
digests that were bound to its name. Whoever was routed to another node before it was drained is routed to that node
afterwards. -/
theorem drained_clean (hash : ByteArray → UInt64) (virtualNodes : Nat) (table : BindingTable) (urls : List String)
    (events : List Event) :
    let cluster := events.foldl happen (ofUrls (.make hash virtualNodes) (.sticky table) urls)
    (cluster.Clean → (∀ upkeeps : List Upkeep, (upkeeps.foldl keepUp cluster).Clean) ∧
      ∀ key, (cluster.distribute key).1 = none ↔ cluster.isEmpty = true) ∧
    ∀ url, (∃ hashes : List UInt64, hashes.Nodup ∧
        (∀ hash, hash ∈ hashes ↔ cluster.bindings.get? hash = some (nodeName url)) ∧
        (cluster.remove url).bindings.droppedWith (nodeName url) = hashes.length) ∧
      ∀ key node, (cluster.distribute key).1 = some node → node.name ≠ nodeName url →
        ((cluster.keepUp (.drain url)).distribute key).1 = some node := by
  intro cluster
  have hcluster : cluster.Binding (.make hash virtualNodes) := (binding_ofUrls _ table urls).foldl events
  have hpos : 0 < cluster.ring.placement.claims := hcluster.placed ▸ Ring.make_claims_pos hash virtualNodes
  refine ⟨fun hclean => ⟨hclean.foldl hcluster.sound, fun key => ?_⟩, fun url => ⟨?_, fun key node hd hother => ?_⟩⟩
  · rw [hcluster.sound.distribute_eq_none_iff hpos]
    constructor
    · rintro (hempty | ⟨name, hbound, hgone⟩)
      · exact hempty
      · exact absurd (hclean _ name hbound) hgone
    · exact .inl
  · rw [remove_bindings]
    exact cluster.bindings.droppedWith_spec (nodeName url)
  · exact hcluster.sound.distribute_drain hpos hd hother

/-- Two keys are routed, and the node of the first is drained under another spelling of its URL. The key of the other
stays with its node, and there is one for the first. -/
theorem drained_clean_rerouted :
    let hash : ByteArray → UInt64 := fun bytes => bytes.size.toUInt64
    let events : List Event := [.distribute "key".toUTF8, .distribute "thirteen keys".toUTF8]
    let cluster := events.foldl happen (ofUrls (.make hash 2) (.sticky ∅) ["http://a:1", "http://bb:1"])
    let drained := cluster.keepUp (.drain "HTTP://A:1/")
    (cluster.distribute "key".toUTF8).1 = some ⟨"http://a:1", "http://a:1", 0⟩ ∧
      0 < (cluster.remove "HTTP://A:1/").bindings.droppedWith "http://a:1" ∧ drained.Clean ∧
      (drained.distribute "keys thirteen".toUTF8).1 = some ⟨"http://bb:1", "http://bb:1", 1⟩ ∧
      (cluster.distribute "yek".toUTF8).1 ≠ none := by
  intro hash events cluster drained
  obtain ⟨hkept, hdrain⟩ := drained_clean hash 2 ∅ ["http://a:1", "http://bb:1"] events
  have hfresh := clean_ofUrls (.make hash 2) ["http://a:1", "http://bb:1"]
  have hclean : cluster.Clean :=
    hfresh.foldl (sound_ofUrls _ _ _) [.distribute "key".toUTF8, .distribute "thirteen keys".toUTF8]
  obtain ⟨hlater, hnowhere⟩ := hkept hclean
  have hdrained := hlater [.drain "HTTP://A:1/"]
  rw [List.foldl_cons, List.foldl_nil] at hdrained
  have hsome : ¬ cluster.isEmpty = true := by decide
  have hd : (cluster.distribute "keys thirteen".toUTF8).1 = some ⟨"http://bb:1", "http://bb:1", 1⟩ := by decide
  obtain ⟨⟨hashes, -, hmem, hcount⟩, hstays⟩ := hdrain "HTTP://A:1/"
  have hone : 3 ∈ hashes := (hmem 3).2 (by decide)
  have hpos : 0 < (cluster.remove "HTTP://A:1/").bindings.droppedWith "http://a:1" :=
    Nat.lt_of_lt_of_eq (List.length_pos_of_mem hone) hcount.symm
  have hfirst : (cluster.distribute "key".toUTF8).1 = some ⟨"http://a:1", "http://a:1", 0⟩ := by decide
  exact ⟨hfirst, hpos, hdrained, hstays _ _ hd (by decide), mt (hnowhere "yek".toUTF8).1 hsome⟩

end Cluster

end LogGateway
