/-
Clusters that nodes only leave. A bound key was given to the owner that it had on a larger ring, and as long as that
owner is managed it is the owner on the smaller ring too. Main statement: kept bindings are then not seen, but for
the keys that were given to a node which has left, and these go nowhere.
-/
import LogGateway.Proofs.Cluster.Sticky

namespace LogGateway.Cluster

variable {cluster : Cluster} {placement : Placement} {hash : UInt64} {name : String} {node : Node}

/-! ## Leaving -/

/-- Routing and leaving, after which nobody is managed who was not. -/
def Action.shrinks : Action → Bool
  | .distribute _ => true
  | .remove _ => true
  | .add _ => false
  | .report _ _ => false
  | .get _ => false
  | .list => false
  | .route _ => false
  | .rebind _ => false

/-- Whether the node of that name is to leave. -/
def Action.removes (name : String) : Action → Bool
  | .remove url => nodeName url = name
  | .distribute _ => false
  | .add _ => false
  | .report _ _ => false
  | .get _ => false
  | .list => false
  | .route _ => false
  | .rebind _ => false

theorem Action.isCall_of_shrinks {action : Action} (h : action.shrinks = true) : action.isCall = true := by
  cases action with
  | rebind => cases h
  | add | remove | report | get | list | distribute | route => rfl

theorem remove_bindings (cluster : Cluster) (url : String) : (cluster.remove url).bindings = cluster.bindings := by
  cases hleaves : cluster.get? url with
  | none => rw [remove_of_none hleaves]
  | some node => rw [remove_of_some hleaves]

theorem getElem?_apply_of_shrinks {action : Action} (hshrinks : action.shrinks = true) (name : String) :
    (cluster.apply action).members[name]? = if action.removes name then none else cluster.members[name]? := by
  cases action with
  | distribute key => rw [apply, members_distribute, Action.removes, if_neg Bool.false_ne_true]
  | remove url =>
    rw [apply, getElem?_remove, Action.removes]
    by_cases hn : nodeName url = name
    · rw [if_pos hn.symm, if_pos (decide_eq_true hn)]
    · rw [if_neg (Ne.symm hn), if_neg (by simpa using hn)]
  | add | report | get | list | route | rebind => cases hshrinks

/-- Who was managed is managed until a call removes it. -/
theorem getElem?_foldl_of_shrinks {actions : List Action} (hshrinks : ∀ action ∈ actions, action.shrinks = true)
    (name : String) : (actions.foldl apply cluster).members[name]? =
      if actions.any (·.removes name) then none else cluster.members[name]? := by
  induction actions generalizing cluster with
  | nil => rfl
  | cons action actions ih =>
    rw [List.foldl_cons, ih fun action hin => hshrinks action (List.mem_cons_of_mem _ hin),
      getElem?_apply_of_shrinks (hshrinks action (List.mem_cons_self ..)), List.any_cons]
    cases action.removes name <;> simp

/-! ## A cluster without its bindings -/

/-- The same cluster as if it kept no bindings. -/
def withoutBindings (cluster : Cluster) : Cluster := { cluster with bindings := .off }

theorem add_bindings (cluster : Cluster) (url : String) : (cluster.add url).bindings = cluster.bindings := by
  unfold add
  split <;> rfl

theorem ofUrls_bindings (placement : Placement) (bindings : Bindings) (urls : List String) :
    (ofUrls placement bindings urls).bindings = bindings :=
  List.foldlRecOn (motive := fun cluster => cluster.bindings = bindings) urls add rfl
    fun cluster h url _ => (add_bindings cluster url).trans h

/-- Where there are no bindings yet, every digest is free. -/
theorem ofUrls_free (placement : Placement) (urls : List String) (hash : UInt64) :
    (ofUrls placement (.sticky ∅) urls).bindings.get? hash = none := by
  rw [ofUrls_bindings]
  exact Std.TreeMap.getElem?_emptyc

theorem ofUrls_placement (placement : Placement) (bindings : Bindings) (urls : List String) :
    (ofUrls placement bindings urls).ring.placement = placement :=
  List.foldlRecOn (motive := fun cluster => cluster.ring.placement = placement) urls add rfl
    fun cluster h url _ => (cluster.placement_apply (.add url)).trans h

theorem withoutBindings_add (cluster : Cluster) (url : String) : (cluster.add url).withoutBindings = cluster.withoutBindings.add url := by
  by_cases hc : cluster.members.contains (nodeName url) = true
  · rw [add_of_contains hc, @add_of_contains cluster.withoutBindings _ hc]
  · rw [add_of_not_contains hc, @add_of_not_contains cluster.withoutBindings _ hc]
    rfl

theorem withoutBindings_ofUrls (placement : Placement) (bindings : Bindings) (urls : List String) :
    (ofUrls placement bindings urls).withoutBindings = ofUrls placement .off urls := by
  have hfoldl : ∀ cluster : Cluster, (urls.foldl add cluster).withoutBindings = urls.foldl add cluster.withoutBindings := by
    induction urls with
    | nil => exact fun _ => rfl
    | cons url urls ih =>
      intro cluster
      rw [List.foldl_cons, List.foldl_cons, ih, withoutBindings_add]
  exact hfoldl _

theorem withoutBindings_apply {action : Action} (hshrinks : action.shrinks = true) :
    (cluster.apply action).withoutBindings = cluster.withoutBindings.apply action := by
  cases action with
  | distribute key =>
    rw [apply, apply, @distribute_of_off cluster.withoutBindings rfl]
    unfold distribute
    simp only
    split
    · rfl
    · split <;> rfl
  | remove url =>
    rw [apply, apply]
    cases hleaves : cluster.get? url with
    | none => rw [remove_of_none hleaves, @remove_of_none cluster.withoutBindings _ hleaves]
    | some node =>
      rw [remove_of_some hleaves, @remove_of_some cluster.withoutBindings _ _ hleaves]
      rfl
  | add | report | get | list | route | rebind => cases hshrinks

theorem withoutBindings_foldl {actions : List Action} (hshrinks : ∀ action ∈ actions, action.shrinks = true) :
    (actions.foldl apply cluster).withoutBindings = actions.foldl apply cluster.withoutBindings := by
  induction actions generalizing cluster with
  | nil => rfl
  | cons action actions ih =>
    rw [List.foldl_cons, List.foldl_cons, ih fun action hin => hshrinks action (List.mem_cons_of_mem _ hin),
      withoutBindings_apply (hshrinks action (List.mem_cons_self ..))]

/-! ## Bound keys and their owners -/

/-- A look-up depends on the key's digest alone. -/
theorem locate_of_hash {key key' : ByteArray} (h : cluster.ring.placement.hash key' = cluster.ring.placement.hash key) :
    cluster.ring.locate key' = cluster.ring.locate key := by
  rw [Ring.locate, Ring.locate, h]

/-- A cluster whose bindings agree with its ring: a managed node that a key is bound to is its owner. -/
structure Agreeing (placement : Placement) (cluster : Cluster) : Prop extends cluster.Binding placement where
  owner : ∀ (key : ByteArray) (name : String) (node : Node), cluster.bindings.get? (placement.hash key) = some name →
    cluster.members[name]? = some node → cluster.ring.locate key = some node

theorem Agreeing.distribute (h : cluster.Agreeing placement) (key : ByteArray) :
    (cluster.distribute key).2.Agreeing placement := by
  refine ⟨h.toBinding.happen (.distribute key), fun key' name node hbound hnode => ?_⟩
  rw [members_distribute] at hnode
  cases hfree : cluster.bindings.get? (cluster.ring.placement.hash key) with
  | some _ =>
    rw [distribute_of_bound hfree] at hbound ⊢
    exact h.owner key' name node hbound hnode
  | none =>
    cases howner : cluster.ring.locate key with
    | none =>
      rw [distribute_of_nobody hfree howner] at hbound ⊢
      exact h.owner key' name node hbound hnode
    | some owner =>
      rw [distribute_of_free hfree howner] at hbound ⊢
      show cluster.ring.locate key' = some node
      by_cases hkey : placement.hash key' = placement.hash key
      · -- the digest was bound just now, to the owner on this ring
        rw [hkey, h.placed, h.kept.get?_put, Option.some_inj] at hbound
        rw [← hbound, h.sound.owner_managed howner] at hnode
        have hsame : cluster.ring.placement.hash key' = cluster.ring.placement.hash key := by rw [h.placed, hkey]
        rw [locate_of_hash hsame, howner, hnode]
      · rw [Bindings.get?_put_of_ne (by rw [h.placed]; exact Ne.symm hkey)] at hbound
        exact h.owner key' name node hbound hnode

/-- The keys of other nodes stay where they are on the ring that a node has left. -/
theorem Sound.locate_remove (h : cluster.Sound) (hpos : 0 < cluster.ring.placement.claims) {key : ByteArray}
    (howner : cluster.ring.locate key = some node) {url : String} (hother : node.name ≠ nodeName url) :
    (cluster.remove url).ring.locate key = some node := by
  cases hleaves : cluster.get? url with
  | none =>
    rw [remove_of_none hleaves]
    exact howner
  | some leaver =>
    rw [remove_of_some hleaves]
    refine h.exact.locate_of_subset (h.exact.remove _) hpos (Ring.remove_placement _ _) (fun other hin => ?_) howner ?_
    · obtain ⟨kept, hkept⟩ := Ring.contains_iff_get?.1 hin
      rw [Ring.get?_remove] at hkept
      split at hkept
      · cases hkept
      · exact Ring.contains_iff_get?.2 ⟨kept, hkept⟩
    · exact (Ring.get?_remove ..).trans ((if_neg hother).trans (h.exact.nearest_of_locate howner).stored)

theorem Agreeing.remove (h : cluster.Agreeing placement) (hpos : 0 < placement.claims) (url : String) :
    (cluster.remove url).Agreeing placement := by
  refine ⟨h.toBinding.happen (.remove url), fun key name node hbound hnode => ?_⟩
  rw [remove_bindings] at hbound
  rw [getElem?_remove] at hnode
  split at hnode
  · cases hnode
  · rename_i hstays
    obtain ⟨rfl, -⟩ := h.sound.named name node hnode
    exact h.sound.locate_remove (h.placed ▸ hpos) (h.owner key _ node hbound hnode) hstays

theorem Agreeing.apply (h : cluster.Agreeing placement) (hpos : 0 < placement.claims) {action : Action}
    (hshrinks : action.shrinks = true) : (cluster.apply action).Agreeing placement := by
  cases action with
  | distribute key => exact h.distribute key
  | remove url => exact h.remove hpos url
  | add | report | get | list | route | rebind => cases hshrinks

theorem Agreeing.foldl (h : cluster.Agreeing placement) (hpos : 0 < placement.claims) {actions : List Action}
    (hshrinks : ∀ action ∈ actions, action.shrinks = true) :
    (actions.foldl Cluster.apply cluster).Agreeing placement :=
  List.foldlRecOn actions Cluster.apply h fun _ hagrees action hin => hagrees.apply hpos (hshrinks action hin)

theorem agreeing_ofUrls (placement : Placement) (urls : List String) :
    (ofUrls placement (.sticky ∅) urls).Agreeing placement := by
  refine ⟨binding_ofUrls placement ∅ urls, fun key name node hbound => ?_⟩
  cases (ofUrls_free placement urls _).symm.trans hbound

/-! ## Keys of nodes that left -/

/-- A key of this digest was given to a node that has been removed since. -/
def Bereft (start : Cluster) (actions : List Action) (hash : UInt64) : Prop :=
  ∃ (before after : List Action) (key : ByteArray) (node : Node),
    actions = before ++ .distribute key :: after ∧ start.ring.placement.hash key = hash ∧
      ((before.foldl apply start).distribute key).1 = some node ∧ after.any (·.removes node.name) = true

/-- Routing binds a free digest only for a key of it, and to the node that it gives. -/
theorem distributed_of_bound {key : ByteArray} (hfree : cluster.bindings.get? hash = none)
    (hbound : (cluster.distribute key).2.bindings.get? hash = some name) :
    cluster.ring.placement.hash key = hash ∧ ∃ node, (cluster.distribute key).1 = some node ∧ node.name = name := by
  cases hkey : cluster.bindings.get? (cluster.ring.placement.hash key) with
  | some _ =>
    rw [distribute_of_bound hkey, hfree] at hbound
    cases hbound
  | none =>
    cases howner : cluster.ring.locate key with
    | none =>
      rw [distribute_of_nobody hkey howner, hfree] at hbound
      cases hbound
    | some owner =>
      rw [distribute_of_free hkey howner] at hbound ⊢
      by_cases hn : cluster.ring.placement.hash key = hash
      · rw [hn] at hbound
        exact ⟨hn, owner, rfl, (Bindings.eq_of_get?_put hbound).symm⟩
      · rw [Bindings.get?_put_of_ne hn, hfree] at hbound
        cases hbound

/-- A digest is bound only if one of its keys was given to a node of the name that it is bound to. -/
theorem exists_distributed {start : Cluster} (hplaced : start.ring.placement = placement)
    (hfree : start.bindings.get? hash = none)
    {actions : List Action} (hshrinks : ∀ action ∈ actions, action.shrinks = true)
    (hbound : (actions.foldl apply start).bindings.get? hash = some name) :
    ∃ (before after : List Action) (key : ByteArray) (node : Node),
      actions = before ++ .distribute key :: after ∧ placement.hash key = hash ∧
        ((before.foldl apply start).distribute key).1 = some node ∧ node.name = name := by
  induction actions generalizing start with
  | nil =>
    rw [List.foldl_nil, hfree] at hbound
    cases hbound
  | cons action actions ih =>
    have hrest : ∀ action ∈ actions, action.shrinks = true :=
      fun action hin => hshrinks action (List.mem_cons_of_mem _ hin)
    cases hnext : (start.apply action).bindings.get? hash with
    | none =>
      obtain ⟨before, after, key, node, rfl, hfound⟩ :=
        ih ((start.placement_apply action).trans hplaced) hnext hrest hbound
      exact ⟨action :: before, after, key, node, rfl, hfound⟩
    | some bound =>
      have hlasts := bound_foldl_apply hnext fun action hin => Action.isCall_of_shrinks (hrest action hin)
      rw [List.foldl_cons, hlasts, Option.some_inj] at hbound
      subst hbound
      cases action with
      | distribute key =>
        obtain ⟨hkey, node, hnode, hn⟩ := distributed_of_bound hfree hnext
        exact ⟨[], actions, key, node, rfl, hplaced ▸ hkey, hnode, hn⟩
      | remove url =>
        rw [apply, remove_bindings, hfree] at hnext
        cases hnext
      | add | report | get | list | route | rebind => cases hshrinks _ (List.mem_cons_self ..)

theorem bereft_iff {start : Cluster} (hstart : start.Agreeing placement) (hpos : 0 < placement.claims)
    (hfree : start.bindings.get? hash = none)
    {actions : List Action} (hshrinks : ∀ action ∈ actions, action.shrinks = true) :
    Bereft start actions hash ↔ ∃ name, (actions.foldl apply start).bindings.get? hash = some name ∧
      (actions.foldl apply start).members[name]? = none := by
  constructor
  · rintro ⟨before, after, key, node, rfl, hkey, hgiven, hremoved⟩
    have hbefore : (before.foldl apply start).Agreeing placement :=
      hstart.foldl hpos fun action hin => hshrinks action (List.mem_append_left _ hin)
    have hafter : ∀ action ∈ after, action.shrinks = true :=
      fun action hin => hshrinks action (List.mem_append_right _ (List.mem_cons_of_mem _ hin))
    have hbound := hbefore.sound.bound_of_distribute hbefore.kept hgiven
    rw [hbefore.placed, ← hstart.placed, hkey] at hbound
    refine ⟨node.name, ?_, ?_⟩
    · rw [List.foldl_append, List.foldl_cons]
      exact bound_foldl_apply hbound fun action hin => Action.isCall_of_shrinks (hafter action hin)
    · rw [List.foldl_append, List.foldl_cons, getElem?_foldl_of_shrinks hafter, if_pos hremoved]
  · rintro ⟨name, hbound, hgone⟩
    obtain ⟨before, after, key, node, rfl, hkey, hgiven, rfl⟩ :=
      exists_distributed hstart.placed hfree hshrinks hbound
    have hbefore : (before.foldl apply start).Agreeing placement :=
      hstart.foldl hpos fun action hin => hshrinks action (List.mem_append_left _ hin)
    have hafter : ∀ action ∈ after, action.shrinks = true :=
      fun action hin => hshrinks action (List.mem_append_right _ (List.mem_cons_of_mem _ hin))
    refine ⟨before, after, key, node, rfl, by rw [hstart.placed, hkey], hgiven, ?_⟩
    -- the node was managed when it was given, so one of the later calls removed it
    obtain ⟨name, hnode⟩ := hbefore.sound.distribute_managed hgiven
    rw [List.foldl_append, List.foldl_cons, getElem?_foldl_of_shrinks hafter] at hgone
    rw [(hbefore.sound.named name node hnode).1, apply, members_distribute, hnode] at hgone
    rw [(hbefore.sound.named name node hnode).1]
    split at hgone
    · assumption
    · cases hgone

/-- Of two clusters with the same nodes, one keeps its bindings and the other does not. If nodes only leave them, a
key goes to nodes of one name in both, unless an earlier look-up of its digest gave a node that was removed since:
then it goes nowhere where bindings are kept. -/
theorem distribute_shrinking (hash : ByteArray → UInt64) (virtualNodes : Nat) (urls : List String)
    (actions : List Action) (hshrinks : ∀ action ∈ actions, action.shrinks = true) (key : ByteArray) :
    let start := ofUrls (.make hash virtualNodes) (.sticky ∅) urls
    let cluster := actions.foldl apply start
    let plain := actions.foldl apply (ofUrls (.make hash virtualNodes) .off urls)
    (Bereft start actions (hash key) → (cluster.distribute key).1 = none) ∧
      (¬ Bereft start actions (hash key) →
        (cluster.distribute key).1.map Node.name = (plain.distribute key).1.map Node.name) := by
  intro start cluster plain
  have hpos := Ring.make_claims_pos hash virtualNodes
  have hstart : start.Agreeing (.make hash virtualNodes) := agreeing_ofUrls _ urls
  have hcluster : cluster.Agreeing (.make hash virtualNodes) := hstart.foldl hpos hshrinks
  have hplain : plain = cluster.withoutBindings := by
    rw [withoutBindings_foldl hshrinks, withoutBindings_ofUrls]
  have howner : (plain.distribute key).1 = cluster.ring.locate key := by
    rw [hplain, @distribute_of_off cluster.withoutBindings rfl]
    rfl
  have hfree : start.bindings.get? (hash key) = none := by
    rw [ofUrls_bindings]
    exact Std.TreeMap.getElem?_emptyc
  rw [bereft_iff hstart hpos hfree hshrinks, howner]
  have hkey : cluster.ring.placement.hash key = hash key := congrArg (Placement.hash · key) hcluster.placed
  constructor
  · rintro ⟨name, hbound, hgone⟩
    rw [distribute_of_bound (hkey ▸ hbound), hgone]
  · intro hmanaged
    congr 1
    cases hbound : cluster.bindings.get? (hash key) with
    | none =>
      cases hl : cluster.ring.locate key with
      | none => rw [distribute_of_nobody (hkey ▸ hbound) hl]
      | some owner => rw [distribute_of_free (hkey ▸ hbound) hl]
    | some name =>
      cases hnode : cluster.members[name]? with
      | none => exact absurd ⟨name, hbound, hnode⟩ hmanaged
      | some node =>
        rw [distribute_of_bound (hkey ▸ hbound), hnode]
        exact (hcluster.owner key name node hbound hnode).symm

/-- Two keys are looked up and the node of one of them leaves. Other keys of that digest go nowhere now, where the
cluster without bindings has the node that is left; the keys of that node stay with it in both. -/
theorem distribute_shrinking_left :
    let hash : ByteArray → UInt64 := fun bytes => bytes.size.toUInt64
    let actions : List Action := [.distribute "key".toUTF8, .distribute "thirteen keys".toUTF8, .remove "http://a:1/"]
    let cluster := actions.foldl apply (ofUrls (.make hash 2) (.sticky ∅) ["http://a:1", "http://bb:1"])
    let plain := actions.foldl apply (ofUrls (.make hash 2) .off ["http://a:1", "http://bb:1"])
    (cluster.distribute "yek".toUTF8).1 = none ∧
      (plain.distribute "yek".toUTF8).1.map Node.name = some "http://bb:1" ∧
      (cluster.distribute "keys thirteen".toUTF8).1.map Node.name =
        (plain.distribute "keys thirteen".toUTF8).1.map Node.name := by
  intro hash actions cluster plain
  have hshrinks : ∀ action ∈ actions, action.shrinks = true := by decide
  have hsticky := distribute_shrinking hash 2 ["http://a:1", "http://bb:1"] actions hshrinks
  refine ⟨(hsticky "yek".toUTF8).1 ?_, by decide +kernel, (hsticky "keys thirteen".toUTF8).2 ?_⟩
  · exact ⟨[], actions.tail, "key".toUTF8, ⟨"http://a:1", "http://a:1", 0⟩, rfl, by decide, by decide, by decide⟩
  · have hfree : (ofUrls (.make hash 2) (.sticky ∅) ["http://a:1", "http://bb:1"]).bindings.get? 13 = none := by decide
    intro hbereft
    obtain ⟨name, hbound, hgone⟩ :=
      (bereft_iff (agreeing_ofUrls _ _) (Ring.make_claims_pos hash 2) hfree hshrinks).1 hbereft
    have hname : cluster.bindings.get? 13 = some "http://bb:1" := by decide
    have hstays : cluster.members["http://bb:1"]? = some ⟨"http://bb:1", "http://bb:1", 1⟩ := by decide
    cases hbound.symm.trans hname
    cases hgone.symm.trans hstays

end LogGateway.Cluster
