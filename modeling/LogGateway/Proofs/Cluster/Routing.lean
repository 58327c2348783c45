/-
Where keys are routed. Main statement: a key is only ever given to a managed node, which is found under its own URL and
is given again to the next who asks; a key that goes nowhere finds an empty cluster or is bound to a name that is not
managed. Bindings may have any content. Routing changes nothing but the binding of the key.
-/
import LogGateway.Proofs.Cluster.Shrinking

namespace LogGateway.Cluster

variable {cluster : Cluster} {key : ByteArray} {node : Node}

theorem route_url (cluster : Cluster) (key : ByteArray) :
    (cluster.route key).1 = ((cluster.distribute key).1.map Node.url).getD "" := rfl

/-! ## Keys that go to a node -/

/-- A managed node is found under its URL, trimmed as it is. -/
theorem Sound.get?_url (h : cluster.Sound) {name : String} (hnode : cluster.members[name]? = some node) :
    cluster.get? node.url = some node := by
  rw [get?, (h.named name node hnode).2]
  exact hnode

/-- Asking again gives the same node, whether the first look-up bound the key or not. -/
theorem Sound.distribute_again (h : cluster.Sound) (hd : (cluster.distribute key).1 = some node) :
    ((cluster.distribute key).2.distribute key).1 = some node := by
  have hroutes := cluster.distribute_routes key
  generalize hresult : cluster.distribute key = result at hroutes hd
  cases hroutes with
  | bound => rwa [hresult]
  | nobody => cases hd
  | @free owner _ howner =>
    cases hd
    let after : Cluster := { cluster with
      bindings := cluster.bindings.put (cluster.ring.placement.hash key) node.name }
    show (after.distribute key).1 = some node
    cases hbound : after.bindings.get? (after.ring.placement.hash key) with
    | some name =>
      obtain rfl := Bindings.eq_of_get?_put hbound
      rw [distribute_of_bound hbound]
      exact h.owner_managed howner
    | none => rw [@distribute_of_free after node key hbound howner]

/-! ## Keys that go nowhere -/

theorem isEmpty_iff : cluster.isEmpty = true ↔ ∀ name : String, name ∉ cluster.members :=
  Std.TreeMap.isEmpty_iff_forall_not_mem

/-- A free key goes to some node as soon as there is one. -/
theorem Sound.locate_eq_none_iff (h : cluster.Sound) (hpos : 0 < cluster.ring.placement.claims) :
    cluster.ring.locate key = none ↔ cluster.isEmpty = true := by
  rw [isEmpty_iff]
  constructor
  · intro hnone name hin
    obtain ⟨node, hnode⟩ := mem_members_iff.1 hin
    have hmissing := h.exact.locate_eq_none hpos hnone name
    rw [Ring.contains_iff_get?.2 ⟨node, (h.placed name).trans hnode⟩] at hmissing
    cases hmissing
  · intro hempty
    cases hl : cluster.ring.locate key with
    | none => rfl
    | some node =>
      exact absurd (mem_members_iff.2 ⟨node, h.owner_managed hl⟩) (hempty node.name)

theorem Sound.distribute_eq_none_iff (h : cluster.Sound) (hpos : 0 < cluster.ring.placement.claims) :
    (cluster.distribute key).1 = none ↔ cluster.isEmpty = true ∨
      ∃ name, cluster.bindings.get? (cluster.ring.placement.hash key) = some name ∧ name ∉ cluster.members := by
  have hunmanaged : ∀ name : String, cluster.members[name]? = none ↔ name ∉ cluster.members := by
    intro name
    rw [Std.TreeMap.mem_iff_isSome_getElem?]
    simp
  have hroutes := cluster.distribute_routes key
  generalize cluster.distribute key = result at hroutes
  cases hroutes with
  | @bound name hbound =>
    rw [hunmanaged, hbound]
    constructor
    · exact fun hout => .inr ⟨name, rfl, hout⟩
    · rintro (hempty | ⟨_, hname, hout⟩)
      · exact isEmpty_iff.1 hempty name
      · cases hname
        exact hout
  | @free node hfree howner =>
    have hsome : ¬ cluster.isEmpty = true := by
      rw [← h.locate_eq_none_iff hpos, howner]
      exact Option.some_ne_none node
    simp [hfree, hsome]
  | nobody hfree howner => simp [(h.locate_eq_none_iff hpos).1 howner]

/-- Whatever was done to a cluster and whatever its bindings are, a key that goes to a node goes to one that is managed,
open, found under its URL and routed to again. A key goes nowhere exactly if nobody is managed or it is bound to a name
that is not managed. A look-up leaves all of the cluster as it is but the binding of the key's digest. -/
theorem distribute_live (hash : ByteArray → UInt64) (virtualNodes : Nat) (bindings : Bindings) (urls : List String)
    (actions : List Action) (key : ByteArray) :
    let cluster := actions.foldl apply (ofUrls (.make hash virtualNodes) bindings urls)
    let after := (cluster.distribute key).2
    (∀ node, (cluster.distribute key).1 = some node → node ∈ cluster.toList ∧ cluster.get? node.url = some node ∧
      cluster.isClosed node = false ∧ (after.route key).1 = node.url) ∧
    ((cluster.distribute key).1 = none ↔ cluster.isEmpty = true ∨
      ∃ name, cluster.bindings.get? (hash key) = some name ∧ name ∉ cluster.members) ∧
    ∃ bindings', after = { cluster with bindings := bindings' } ∧
      ∀ other, other ≠ hash key → bindings'.get? other = cluster.bindings.get? other := by
  intro cluster after
  have hsound : cluster.Sound := (sound_ofUrls _ _ urls).foldl actions
  have hplaced : cluster.ring.placement = .make hash virtualNodes :=
    List.foldlRecOn (motive := fun cluster => cluster.ring.placement = _) actions apply (ofUrls_placement _ _ urls)
      fun cluster h action _ => (cluster.placement_apply action).trans h
  have hkey : cluster.ring.placement.hash key = hash key := congrArg (Placement.hash · key) hplaced
  have hpos : 0 < cluster.ring.placement.claims := hplaced ▸ Ring.make_claims_pos hash virtualNodes
  refine ⟨fun node hd => ?_, hkey ▸ hsound.distribute_eq_none_iff hpos, hkey ▸ cluster.distribute_frame key⟩
  obtain ⟨name, hnode⟩ := hsound.distribute_managed hd
  refine ⟨OrderedMap.mem_values_iff.2 ⟨name, hnode⟩, hsound.get?_url hnode, ?_, ?_⟩
  · rw [isClosed, Bool.eq_false_iff]
    exact fun hclosed => hsound.running name node hnode (Closures.isClosed_iff.1 hclosed)
  · rw [route_url, hsound.distribute_again hd]
    rfl

/-- A key is pinned to a node that has left, and goes nowhere. Another goes to the node that is left, whose URL has
blanks around it and a slash at its end. -/
theorem distribute_live_pinned :
    let hash : ByteArray → UInt64 := fun bytes => bytes.size.toUInt64
    let pins : BindingTable := (∅ : BindingTable).insert 3 "http://b:1"
    let actions : List Action := [.remove "http://b:1", .rebind (.sticky pins)]
    let cluster := actions.foldl apply (ofUrls (.make hash 2) .off [" HTTP://A:1/ ", "http://b:1"])
    (cluster.distribute "key".toUTF8).1 = none ∧
      ∃ node, (cluster.distribute "other".toUTF8).1 = some node ∧ node.url = "HTTP://A:1/" ∧
        cluster.get? node.url = some node ∧
        ((cluster.distribute "other".toUTF8).2.route "other".toUTF8).1 = node.url := by
  intro hash pins actions cluster
  obtain ⟨-, hnowhere, -⟩ := distribute_live hash 2 .off [" HTTP://A:1/ ", "http://b:1"] actions "key".toUTF8
  obtain ⟨hlive, -, -⟩ := distribute_live hash 2 .off [" HTTP://A:1/ ", "http://b:1"] actions "other".toUTF8
  have hpinned : cluster.bindings.get? (hash "key".toUTF8) = some "http://b:1" := by decide
  have hgone : "http://b:1" ∉ cluster.members := by decide
  have hd : (cluster.distribute "other".toUTF8).1 = some ⟨"http://a:1", "HTTP://A:1/", 0⟩ := by decide
  obtain ⟨-, hget, -, hagain⟩ := hlive _ hd
  exact ⟨hnowhere.2 (.inr ⟨"http://b:1", hpinned, hgone⟩), _, hd, rfl, hget, hagain⟩

end LogGateway.Cluster
