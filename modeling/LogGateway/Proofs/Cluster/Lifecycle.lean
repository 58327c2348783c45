/-
The life of a cluster and of its nodes. Whatever is done to a cluster, its parts fit together. A node that leaves is
closed, stays closed and is never handed out again; if its URL joins again, another node stands there.
-/
import LogGateway.Proofs.Cluster.Sound
import LogGateway.Proofs.Ring.Lookup

namespace LogGateway

theorem Bindings.get?_put_of_ne {bindings : Bindings} {hash other : UInt64} (h : other ≠ hash) (name : String) :
    (bindings.put other name).get? hash = bindings.get? hash := by
  cases bindings with
  | off => rfl
  | sticky table => exact (OrderedMap.getElem?_insert table other hash name).trans (if_neg h.symm)

namespace Cluster

variable {cluster : Cluster} {url name : String} {node : Node} {key : ByteArray}

/-! ## What a look-up does -/

/-- A bound key goes to whoever is managed under its name, and nothing changes. -/
theorem distribute_of_bound (h : cluster.bindings.get? (cluster.ring.placement.hash key) = some name) :
    cluster.distribute key = (cluster.members[name]?, cluster) := by
  simp only [distribute, h]

/-- A free key follows the ring and is bound to its owner. -/
theorem distribute_of_free (h : cluster.bindings.get? (cluster.ring.placement.hash key) = none)
    (howner : cluster.ring.locate key = some node) :
    cluster.distribute key = (some node, { cluster with
      bindings := cluster.bindings.put (cluster.ring.placement.hash key) node.name }) := by
  simp only [distribute, h, howner]

/-- A free key goes nowhere, and stays free, if nobody is there. -/
theorem distribute_of_nobody (h : cluster.bindings.get? (cluster.ring.placement.hash key) = none)
    (howner : cluster.ring.locate key = none) : cluster.distribute key = (none, cluster) := by
  simp only [distribute, h, howner]

/-- All that a look-up of a key can do. -/
inductive Routes (cluster : Cluster) (key : ByteArray) : Option Node × Cluster → Prop
  | bound {name : String} (bound : cluster.bindings.get? (cluster.ring.placement.hash key) = some name) :
      Routes cluster key (cluster.members[name]?, cluster)
  | free {node : Node} (free : cluster.bindings.get? (cluster.ring.placement.hash key) = none)
      (owner : cluster.ring.locate key = some node) :
      Routes cluster key (some node, { cluster with
        bindings := cluster.bindings.put (cluster.ring.placement.hash key) node.name })
  | nobody (free : cluster.bindings.get? (cluster.ring.placement.hash key) = none)
      (owner : cluster.ring.locate key = none) : Routes cluster key (none, cluster)

theorem distribute_routes (cluster : Cluster) (key : ByteArray) : Routes cluster key (cluster.distribute key) := by
  cases hbound : cluster.bindings.get? (cluster.ring.placement.hash key) with
  | some name =>
    rw [distribute_of_bound hbound]
    exact .bound hbound
  | none =>
    cases howner : cluster.ring.locate key with
    | some node =>
      rw [distribute_of_free hbound howner]
      exact .free hbound howner
    | none =>
      rw [distribute_of_nobody hbound howner]
      exact .nobody hbound howner

/-- A look-up touches the binding of the key's digest alone. -/
theorem distribute_frame (cluster : Cluster) (key : ByteArray) :
    ∃ bindings, (cluster.distribute key).2 = { cluster with bindings } ∧
      ∀ other, other ≠ cluster.ring.placement.hash key → bindings.get? other = cluster.bindings.get? other := by
  have hroutes := cluster.distribute_routes key
  generalize cluster.distribute key = result at hroutes
  cases hroutes with
  | bound => exact ⟨cluster.bindings, rfl, fun _ _ => rfl⟩
  | free => exact ⟨_, rfl, fun other hne => Bindings.get?_put_of_ne hne.symm _⟩
  | nobody => exact ⟨cluster.bindings, rfl, fun _ _ => rfl⟩

theorem members_distribute (cluster : Cluster) (key : ByteArray) :
    (cluster.distribute key).2.members = cluster.members := by
  obtain ⟨bindings, hframe, -⟩ := cluster.distribute_frame key
  rw [hframe]

theorem ring_distribute (cluster : Cluster) (key : ByteArray) : (cluster.distribute key).2.ring = cluster.ring := by
  obtain ⟨bindings, hframe, -⟩ := cluster.distribute_frame key
  rw [hframe]

theorem epochs_distribute (cluster : Cluster) (key : ByteArray) :
    (cluster.distribute key).2.epochs = cluster.epochs := by
  obtain ⟨bindings, hframe, -⟩ := cluster.distribute_frame key
  rw [hframe]

/-! ## What is done to a cluster -/

/-- What can be done to a cluster. Whoever keeps the bindings may change them at any time, so that a look-up may
find a digest bound to any name or to none. -/
inductive Action where
  | add (url : String)
  | remove (url : String)
  | report (url : String) (epoch : UInt64)
  | get (url : String)
  | list
  | distribute (key : ByteArray)
  | route (key : ByteArray)
  | rebind (bindings : Bindings)

def apply (cluster : Cluster) : Action → Cluster
  | .add url => cluster.add url
  | .remove url => cluster.remove url
  | .report url epoch => cluster.reportEpoch url epoch
  | .get _ => cluster
  | .list => cluster
  | .distribute key => (cluster.distribute key).2
  | .route key => (cluster.route key).2
  | .rebind bindings => { cluster with bindings }

/-- The nodes that an action hands out. -/
def given (cluster : Cluster) : Action → List Node
  | .get url => (cluster.get? url).toList
  | .list => cluster.toList
  | .distribute key => (cluster.distribute key).1.toList
  | .add _ => []
  | .remove _ => []
  | .report _ _ => []
  | .route _ => []
  | .rebind _ => []

/-- What an action makes of a cluster. Most of it stays; all that routing does is to bind a free digest, while whoever
keeps the bindings may put any others in their place. -/
inductive Step (cluster : Cluster) : Action → Cluster → Prop
  | stays (action : Action) : Step cluster action cluster
  | joins {url : String} (new : ¬ cluster.members.contains (nodeName url) = true) :
      Step cluster (.add url) { cluster with
        members := cluster.members.insert (nodeName url) (.make url cluster.nextSerial)
        ring := cluster.ring.add (.make url cluster.nextSerial)
        nextSerial := cluster.nextSerial + 1 }
  | leaves {url : String} {node : Node} (managed : cluster.get? url = some node) :
      Step cluster (.remove url) { cluster with
        members := cluster.members.erase (nodeName url)
        ring := cluster.ring.remove (nodeName url)
        epochs := cluster.epochs.erase (nodeName url)
        midEpoch := cluster.midWithout (nodeName url)
        closures := cluster.closures.close node }
  | reports {url : String} {epoch : UInt64} (managed : nodeName url ∈ cluster.members) :
      Step cluster (.report url epoch) { cluster with
        epochs := cluster.epochs.insert (nodeName url) epoch
        midEpoch := upperMedian (cluster.epochs.insert (nodeName url) epoch).values }
  | binds {action : Action} {hash : UInt64} (free : cluster.bindings.get? hash = none) (name : String) :
      Step cluster action { cluster with bindings := cluster.bindings.put hash name }
  | rebinds (bindings : Bindings) : Step cluster (.rebind bindings) { cluster with bindings }

theorem step_distribute (cluster : Cluster) (key : ByteArray) (action : Action) :
    Step cluster action (cluster.distribute key).2 := by
  have hroutes := cluster.distribute_routes key
  generalize cluster.distribute key = result at hroutes
  cases hroutes with
  | bound | nobody => exact .stays action
  | free hfree => exact .binds hfree _

theorem step_apply (cluster : Cluster) (action : Action) : Step cluster action (cluster.apply action) := by
  cases action with
  | add url =>
    rw [apply]
    by_cases hc : cluster.members.contains (nodeName url) = true
    · rw [add_of_contains hc]
      exact .stays _
    · rw [add_of_not_contains hc]
      exact .joins hc
  | remove url =>
    rw [apply]
    cases hleaves : cluster.get? url with
    | none =>
      rw [remove_of_none hleaves]
      exact .stays _
    | some node =>
      rw [remove_of_some hleaves]
      exact .leaves hleaves
  | report url epoch =>
    rw [apply, reportEpoch]
    split
    · rename_i hc
      exact .reports (Std.TreeMap.mem_iff_contains.2 hc)
    · exact .stays _
  | get | list => exact .stays _
  | distribute key | route key => exact cluster.step_distribute key _
  | rebind bindings => exact .rebinds bindings

theorem Sound.apply (h : cluster.Sound) (action : Action) : (cluster.apply action).Sound := by
  generalize hnext : cluster.apply action = next
  cases hnext ▸ cluster.step_apply action with
  | stays => exact h
  | joins new => exact add_of_not_contains new ▸ h.add _
  | leaves managed => exact remove_of_some managed ▸ h.remove _
  | reports managed => exact h.report managed _ _
  | binds => exact h.rebind _
  | rebinds bindings => exact h.rebind bindings

/-- Nothing that is done moves nodes or keys on the ring. -/
theorem placement_apply (cluster : Cluster) (action : Action) :
    (cluster.apply action).ring.placement = cluster.ring.placement := by
  generalize hnext : cluster.apply action = next
  cases hnext ▸ cluster.step_apply action with
  | stays | reports | binds | rebinds => rfl
  | joins => exact Ring.add_placement _ _
  | leaves => exact Ring.remove_placement _ _

theorem Sound.foldl (h : cluster.Sound) (actions : List Action) : (actions.foldl Cluster.apply cluster).Sound := by
  induction actions generalizing cluster with
  | nil => exact h
  | cons action actions ih => exact ih (h.apply action)

theorem sound_ofUrls (placement : Placement) (bindings : Bindings) (urls : List String) :
    (ofUrls placement bindings urls).Sound := by
  have hall := (sound_empty placement bindings).foldl (urls.map .add)
  rwa [List.foldl_map] at hall

/-! ## Nodes that are handed out -/

/-- The owner of a key on the ring is managed. -/
theorem Sound.owner_managed (h : cluster.Sound) {key : ByteArray} (howner : cluster.ring.locate key = some node) :
    cluster.members[node.name]? = some node :=
  (h.placed node.name).symm.trans (h.exact.nearest_of_locate howner).stored

/-- The node that a key is routed to is managed, whether the key is bound or not. -/
theorem Sound.distribute_managed (h : cluster.Sound) {key : ByteArray}
    (hd : (cluster.distribute key).1 = some node) : ∃ name : String, cluster.members[name]? = some node := by
  unfold distribute at hd
  simp only at hd
  split at hd
  · exact ⟨_, hd⟩
  · split at hd
    · cases hd
    · rename_i hl
      cases hd
      exact ⟨node.name, h.owner_managed hl⟩

/-- Whoever is handed out is managed. -/
theorem Sound.given_managed (h : cluster.Sound) {action : Action} (hg : node ∈ cluster.given action) :
    ∃ name : String, cluster.members[name]? = some node := by
  cases action with
  | get url => exact ⟨_, Option.mem_toList.1 hg⟩
  | list => exact OrderedMap.mem_values_iff.1 hg
  | distribute key => exact h.distribute_managed (Option.mem_toList.1 hg)
  | add | remove | report | route | rebind => cases hg

/-! ## Nodes that left -/

/-- Nobody is opened again. -/
theorem closed_apply {serial : Nat} (h : serial ∈ cluster.closures.serials) (action : Action) :
    serial ∈ (cluster.apply action).closures.serials := by
  generalize hnext : cluster.apply action = next
  cases hnext ▸ cluster.step_apply action with
  | leaves => exact Closures.mem_close.2 (.inr h)
  | stays | joins | reports | binds | rebinds => exact h

theorem closed_foldl {serial : Nat} (h : serial ∈ cluster.closures.serials) (actions : List Action) :
    serial ∈ (actions.foldl apply cluster).closures.serials := by
  induction actions generalizing cluster with
  | nil => exact h
  | cons action actions ih => exact ih (closed_apply h action)

/-- A node whose serial number is closed is not managed, and so is not handed out. -/
theorem Sound.serial_ne_of_closed (h : cluster.Sound) {serial : Nat} (hclosed : serial ∈ cluster.closures.serials)
    {action : Action} (hg : node ∈ cluster.given action) : node.serial ≠ serial := by
  obtain ⟨name, hnode⟩ := h.given_managed hg
  rintro rfl
  exact h.running name node hnode hclosed

theorem closed_remove (h : cluster.get? url = some node) :
    node.serial ∈ (cluster.remove url).closures.serials := by
  rw [remove_of_some h]
  exact Closures.mem_close.2 (.inl rfl)

theorem exists_get?_add (cluster : Cluster) (url : String) : ∃ node, (cluster.add url).get? url = some node := by
  rw [get?, getElem?_add, if_pos rfl]
  cases cluster.members[nodeName url]? with
  | none => exact ⟨_, rfl⟩
  | some node => exact ⟨node, rfl⟩

/-! ## The whole life -/

/-- Whatever was done to a cluster, its ring has the managed nodes and its claims are theirs, each node is managed
under its own name, that of its URL, and is open, only managed nodes have epochs, and only they are handed out.
A node that is removed now is closed ever after and never handed out again. A node stands at its URL if it joins
again, which is another one and open. -/
theorem sound_throughout (placement : Placement) (bindings : Bindings) (urls : List String) (actions : List Action) :
    let cluster := actions.foldl apply (ofUrls placement bindings urls)
    (∀ name : String, cluster.ring.get? name = cluster.members[name]?) ∧
    (∀ point, ∀ node ∈ (cluster.ring.slot point).claims, cluster.members[node.name]? = some node) ∧
    (∀ (name : String) (node : Node), cluster.members[name]? = some node →
      node.name = name ∧ nodeName node.url = name ∧ cluster.isClosed node = false) ∧
    (∀ name : String, name ∈ cluster.epochs → name ∈ cluster.members) ∧
    (∀ action, ∀ node ∈ cluster.given action, cluster.members[node.name]? = some node) ∧
    ∀ (url : String) (node : Node), cluster.get? url = some node → ∀ later : List Action,
      let after := later.foldl apply (cluster.remove url)
      after.isClosed node = true ∧
      (∀ action, ∀ other ∈ after.given action, other.serial ≠ node.serial) ∧
      ∃ fresh, (after.add url).get? url = some fresh ∧ (after.add url).isClosed fresh = false ∧
        fresh.serial ≠ node.serial := by
  intro cluster
  have hsound : cluster.Sound := (sound_ofUrls placement bindings urls).foldl actions
  have hopen : ∀ {cluster : Cluster}, cluster.Sound → ∀ (name : String) (node : Node),
      cluster.members[name]? = some node → cluster.isClosed node = false := by
    intro cluster h name node hnode
    rw [Bool.eq_false_iff]
    exact fun hc => h.running name node hnode (Closures.isClosed_iff.1 hc)
  refine ⟨hsound.placed, ?_, ?_, hsound.reported, ?_, ?_⟩
  · intro point node hnode
    exact (hsound.placed _).symm.trans (hsound.exact.mem_claims hnode).1
  · intro name node hnode
    obtain ⟨hname, hurl⟩ := hsound.named name node hnode
    exact ⟨hname, hurl, hopen hsound name node hnode⟩
  · intro action node hg
    obtain ⟨name, hnode⟩ := hsound.given_managed hg
    rw [(hsound.named name node hnode).1, hnode]
  · intro url node hnode later after
    have hafter : after.Sound := (hsound.remove url).foldl later
    have hclosed : node.serial ∈ after.closures.serials := closed_foldl (closed_remove hnode) later
    refine ⟨Closures.isClosed_iff.2 hclosed, fun action other hg => hafter.serial_ne_of_closed hclosed hg, ?_⟩
    obtain ⟨fresh, hfresh⟩ := exists_get?_add after url
    refine ⟨fresh, hfresh, hopen (hafter.add url) _ fresh hfresh, ?_⟩
    have hg : fresh ∈ (after.add url).given (.get url) := Option.mem_toList.2 hfresh
    exact (hafter.add url).serial_ne_of_closed (closed_apply hclosed (.add url)) hg

/-- A placement by length, two claims for each node. -/
def byLength : Placement := .make (fun bytes => bytes.size.toUInt64) 2

/-- One node, which leaves under another spelling of its URL and comes back. -/
theorem sound_throughout_returned :
    let cluster := ofUrls byLength .off ["http://a:1"]
    let after := (cluster.remove "HTTP://A:1/").add "http://a:1"
    cluster.get? "HTTP://A:1/" = some ⟨"http://a:1", "http://a:1", 0⟩ ∧
      after.isClosed ⟨"http://a:1", "http://a:1", 0⟩ = true ∧
      ∀ other ∈ after.given .list, other.serial ≠ 0 := by
  intro cluster after
  have hget : cluster.get? "HTTP://A:1/" = some ⟨"http://a:1", "http://a:1", 0⟩ := by
    have hname : nodeName "http://a:1" = nodeName "HTTP://A:1/" := by decide
    have hmake : Node.make "http://a:1" 0 = ⟨"http://a:1", "http://a:1", 0⟩ := by decide
    have hnone : (empty byLength .off).members[nodeName "HTTP://A:1/"]? = none := Std.TreeMap.getElem?_emptyc
    rw [← hmake]
    show ((empty byLength .off).add "http://a:1").members[nodeName "HTTP://A:1/"]? = _
    rw [getElem?_add, hnone, if_pos hname]
    rfl
  obtain ⟨-, -, -, -, -, hleft⟩ := sound_throughout byLength .off ["http://a:1"] []
  obtain ⟨hclosed, hgiven, -⟩ := hleft "HTTP://A:1/" _ hget [.add "http://a:1"]
  exact ⟨hget, hclosed, hgiven .list⟩

end Cluster

end LogGateway
