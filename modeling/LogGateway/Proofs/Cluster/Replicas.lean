/-
Replicas of a cluster. Without bindings a key goes where the ring has it, and the ring depends on the names of the
managed nodes alone. Main statement: clusters that manage the same names route every key to the same name, whatever
was done to each of them.
-/
import LogGateway.Proofs.Cluster.Lifecycle

namespace LogGateway.Cluster

variable {cluster replica : Cluster}

/-- A call of the cluster itself, not of whoever keeps its bindings. -/
def Action.isCall : Action → Bool
  | .rebind _ => false
  | _ => true

/-- A cluster that keeps no bindings and places nodes and keys so. -/
structure Unbound (placement : Placement) (cluster : Cluster) : Prop where
  off : cluster.bindings = .off
  placed : cluster.ring.placement = placement

/-- Without bindings the ring alone decides, and routing changes nothing. -/
theorem distribute_of_off (h : cluster.bindings = .off) (key : ByteArray) :
    cluster.distribute key = (cluster.ring.locate key, cluster) := by
  obtain ⟨members, ring, epochs, bindings, closures, nextSerial⟩ := cluster
  subst h
  unfold distribute
  have hnone : Bindings.off.get? (ring.placement.hash key) = none := Std.TreeMap.getElem?_emptyc
  simp only [hnone]
  cases ring.locate key <;> rfl

theorem Unbound.apply {placement : Placement} (h : cluster.Unbound placement) {action : Action}
    (hcall : action.isCall = true) : (cluster.apply action).Unbound placement := by
  refine ⟨?_, (cluster.placement_apply action).trans h.placed⟩
  generalize hnext : cluster.apply action = next
  cases hnext ▸ cluster.step_apply action with
  | stays | joins | leaves | reports => exact h.off
  | binds _ name => exact congrArg (Bindings.put · _ name) h.off
  | rebinds => cases hcall

theorem Unbound.foldl {placement : Placement} (h : cluster.Unbound placement) {actions : List Action}
    (hcalls : ∀ action ∈ actions, action.isCall = true) :
    (actions.foldl Cluster.apply cluster).Unbound placement := by
  induction actions generalizing cluster with
  | nil => exact h
  | cons action actions ih =>
    have hfirst := h.apply (hcalls action (List.mem_cons_self ..))
    exact ih hfirst fun action hin => hcalls action (List.mem_cons_of_mem _ hin)

theorem unbound_ofUrls (placement : Placement) (urls : List String) :
    (ofUrls placement .off urls).Unbound placement := by
  have hempty : (empty placement .off).Unbound placement := ⟨rfl, rfl⟩
  have hall := @Unbound.foldl _ placement hempty (urls.map .add) (by simp [Action.isCall])
  rwa [List.foldl_map] at hall

/-- Sound clusters of one placement that manage the same names route a key to the same name. -/
theorem map_name_distribute {hash : ByteArray → UInt64} {virtualNodes : Nat} (h : cluster.Sound)
    (h' : replica.Sound) (hunbound : cluster.Unbound (.make hash virtualNodes))
    (hunbound' : replica.Unbound (.make hash virtualNodes))
    (hsame : ∀ name : String, name ∈ replica.members ↔ name ∈ cluster.members) (key : ByteArray) :
    (replica.distribute key).1.map Node.name = (cluster.distribute key).1.map Node.name := by
  rw [distribute_of_off hunbound.off, distribute_of_off hunbound'.off]
  have hpos : 0 < cluster.ring.placement.claims := hunbound.placed ▸ Ring.make_claims_pos hash virtualNodes
  have hplaced : replica.ring.placement = cluster.ring.placement := hunbound'.placed.trans hunbound.placed.symm
  have hnames : ∀ name, replica.ring.contains name = true ↔ cluster.ring.contains name = true := by
    intro name
    rw [Ring.contains_iff_get?, Ring.contains_iff_get?, h.placed, h'.placed, ← mem_members_iff, ← mem_members_iff]
    exact hsame name
  exact h.exact.map_name_locate h'.exact hpos hplaced hnames key

/-- Two clusters without bindings and with as many claims for each node agree on every key as soon as they manage
the same names, whatever URLs each began with and whatever was done to each since. -/
theorem distribute_replicas (hash : ByteArray → UInt64) (virtualNodes : Nat) (urls urls' : List String)
    (actions actions' : List Action) (hcalls : ∀ action ∈ actions, action.isCall = true)
    (hcalls' : ∀ action ∈ actions', action.isCall = true) :
    let cluster := actions.foldl apply (ofUrls (.make hash virtualNodes) .off urls)
    let replica := actions'.foldl apply (ofUrls (.make hash virtualNodes) .off urls')
    (∀ name : String, name ∈ replica.members ↔ name ∈ cluster.members) →
      ∀ key, (replica.distribute key).1.map Node.name = (cluster.distribute key).1.map Node.name := by
  intro cluster replica hsame key
  have hsound : cluster.Sound := (sound_ofUrls _ _ urls).foldl actions
  have hsound' : replica.Sound := (sound_ofUrls _ _ urls').foldl actions'
  have hunbound := (unbound_ofUrls (.make hash virtualNodes) urls).foldl hcalls
  have hunbound' := (unbound_ofUrls (.make hash virtualNodes) urls').foldl hcalls'
  exact map_name_distribute hsound hsound' hunbound hunbound' hsame key

/-- One cluster lets a node go, the other has only ever had the one that is left, under another spelling. -/
theorem distribute_replicas_spellings :
    let hash : ByteArray → UInt64 := fun bytes => bytes.size.toUInt64
    let cluster := [Action.remove "http://b:1/"].foldl apply
      (ofUrls (.make hash 2) .off ["http://a:1", "http://b:1"])
    let replica := [Action.add "HTTP://A:1/", .add "http://a:1"].foldl apply (ofUrls (.make hash 2) .off [])
    (∀ name : String, name ∈ replica.members ↔ name ∈ cluster.members) ∧
      (replica.distribute "key".toUTF8).1.map Node.name = (cluster.distribute "key".toUTF8).1.map Node.name := by
  intro hash cluster replica
  have hsame : ∀ name : String, name ∈ replica.members ↔ name ∈ cluster.members := by
    intro name
    have hnone : ¬ name ∈ (empty (.make hash 2) .off).members := Std.TreeMap.not_mem_emptyc
    have hspelling : nodeName "HTTP://A:1/" = nodeName "http://a:1" := by decide
    have hslash : nodeName "http://b:1/" = nodeName "http://b:1" := by decide
    have hother : nodeName "http://a:1" ≠ nodeName "http://b:1" := by decide
    show name ∈ (((empty (.make hash 2) .off).add "HTTP://A:1/").add "http://a:1").members ↔
      name ∈ ((((empty (.make hash 2) .off).add "http://a:1").add "http://b:1").remove "http://b:1/").members
    rw [mem_add, mem_add, mem_remove, mem_add, mem_add, hspelling, hslash]
    grind
  exact ⟨hsame, distribute_replicas hash 2 ["http://a:1", "http://b:1"] [] _ _ (by simp [Action.isCall])
    (by simp [Action.isCall]) hsame _⟩

end LogGateway.Cluster
