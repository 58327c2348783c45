/-
Keys that stay where they are. Where bindings are kept, a key that was routed to a node, or was pinned to a name,
goes to whoever is managed under that name, and to nobody while no one is, until its binding is changed from outside.
Joining and leaving do not touch bindings, and routing binds free digests only.
-/
import LogGateway.Proofs.Cluster.Replicas

namespace LogGateway

/-! ## Bindings -/

namespace Bindings

variable {bindings : Bindings} {hash other : UInt64} {name : String}

/-- Bindings that are kept. -/
def Kept (bindings : Bindings) : Prop := bindings ≠ .off

theorem get?_off (hash : UInt64) : Bindings.off.get? hash = none := Std.TreeMap.getElem?_emptyc

theorem Kept.get?_put (h : bindings.Kept) (hash : UInt64) (name : String) :
    (bindings.put hash name).get? hash = some name := by
  cases bindings with
  | off => exact absurd rfl h
  | sticky table => exact Std.TreeMap.getElem?_insert_self

/-- A digest that was just bound is bound to that name, if bindings are kept at all. -/
theorem eq_of_get?_put {bound : String} (h : (bindings.put hash name).get? hash = some bound) : bound = name := by
  cases bindings with
  | off => cases (get?_off hash).symm.trans h
  | sticky table => exact Option.some.inj (h.symm.trans Std.TreeMap.getElem?_insert_self)

theorem Kept.put (h : bindings.Kept) (hash : UInt64) (name : String) : (bindings.put hash name).Kept := by
  cases bindings with
  | off => exact absurd rfl h
  | sticky table => exact Bindings.noConfusion

theorem Kept.drop (h : bindings.Kept) (hash : UInt64) : (bindings.drop hash).Kept := by
  cases bindings with
  | off => exact absurd rfl h
  | sticky table => exact Bindings.noConfusion

theorem Kept.dropNode (h : bindings.Kept) (name : String) : (bindings.dropNode name).Kept := by
  cases bindings with
  | off => exact absurd rfl h
  | sticky table => exact Bindings.noConfusion

theorem get?_drop_of_ne (h : other ≠ hash) : (bindings.drop other).get? hash = bindings.get? hash := by
  cases bindings with
  | off => rfl
  | sticky table => exact (OrderedMap.getElem?_erase table other hash).trans (if_neg h.symm)

/-- The bindings to other names are those that are left. -/
theorem get?_dropNode_iff {dropped : String} :
    (bindings.dropNode dropped).get? hash = some name ↔ bindings.get? hash = some name ∧ name ≠ dropped := by
  cases bindings with
  | off => simp [dropNode, get?_off]
  | sticky table =>
    show (Std.TreeMap.filter (fun _ bound => bound ≠ dropped) table)[hash]? = some name ↔ table[hash]? = some name ∧ _
    rw [Std.TreeMap.getElem?_filter', Option.filter_eq_some_iff, decide_eq_true_iff]

end Bindings

namespace Cluster

variable {cluster : Cluster} {hash : UInt64} {name : String} {node : Node}

/-! ## Bound keys and routing -/

/-- A key that was routed to a node is bound to its name from then on. -/
theorem Sound.bound_of_distribute (h : cluster.Sound) (hkept : cluster.bindings.Kept) {key : ByteArray}
    (hd : (cluster.distribute key).1 = some node) :
    (cluster.distribute key).2.bindings.get? (cluster.ring.placement.hash key) = some node.name := by
  cases hbound : cluster.bindings.get? (cluster.ring.placement.hash key) with
  | some name =>
    rw [distribute_of_bound hbound] at hd ⊢
    rw [hbound, (h.named name node hd).1]
  | none =>
    cases howner : cluster.ring.locate key with
    | none =>
      rw [distribute_of_nobody hbound howner] at hd
      cases hd
    | some owner =>
      rw [distribute_of_free hbound howner] at hd ⊢
      cases hd
      exact hkept.get?_put _ _

/-- The calls of the cluster itself change no binding that is there. -/
theorem bound_apply (h : cluster.bindings.get? hash = some name) {action : Action} (hcall : action.isCall = true) :
    (cluster.apply action).bindings.get? hash = some name := by
  generalize hnext : cluster.apply action = next
  cases hnext ▸ cluster.step_apply action with
  | stays | joins | leaves | reports => exact h
  | @binds _ free hfree other =>
    have hne : free ≠ hash := by
      rintro rfl
      rw [h] at hfree
      cases hfree
    exact (Bindings.get?_put_of_ne hne other).trans h
  | rebinds => cases hcall

theorem bound_foldl_apply (h : cluster.bindings.get? hash = some name) {actions : List Action}
    (hcalls : ∀ action ∈ actions, action.isCall = true) :
    (actions.foldl apply cluster).bindings.get? hash = some name :=
  List.foldlRecOn (motive := fun cluster => cluster.bindings.get? hash = some name) actions apply h
    fun _ hbound action hin => bound_apply hbound (hcalls action hin)

theorem kept_apply (h : cluster.bindings.Kept) {action : Action} (hcall : action.isCall = true) :
    (cluster.apply action).bindings.Kept := by
  generalize hnext : cluster.apply action = next
  cases hnext ▸ cluster.step_apply action with
  | stays | joins | leaves | reports => exact h
  | binds _ other => exact h.put _ other
  | rebinds => cases hcall

/-! ## Changes from outside -/

/-- What happens to a cluster and to its bindings, which others may pin, put and drop. -/
inductive Event where
  | add (url : String)
  | remove (url : String)
  | report (url : String) (epoch : UInt64)
  | distribute (key : ByteArray)
  | route (key : ByteArray)
  | pin (hash : UInt64) (name : String)
  | put (hash : UInt64) (name : String)
  | invalidate (hash : UInt64)
  | invalidateNode (name : String)

/-- What an event comes to: a call of the cluster, or other bindings in the place of those that it has. -/
def Event.action (cluster : Cluster) : Event → Action
  | .add url => .add url
  | .remove url => .remove url
  | .report url epoch => .report url epoch
  | .distribute key => .distribute key
  | .route key => .route key
  | .pin hash name => .rebind (cluster.bindings.put hash name)
  | .put hash name => .rebind (cluster.bindings.put hash name)
  | .invalidate hash => .rebind (cluster.bindings.drop hash)
  | .invalidateNode name => .rebind (cluster.bindings.dropNode name)

def happen (cluster : Cluster) (event : Event) : Cluster := cluster.apply (event.action cluster)

/-- Whether an event is a change from outside to the binding of a digest to a name. -/
def Event.releases (hash : UInt64) (name : String) : Event → Bool
  | .pin other _ => other = hash
  | .put other _ => other = hash
  | .invalidate other => other = hash
  | .invalidateNode other => other = name
  | .add _ => false
  | .remove _ => false
  | .report _ _ => false
  | .distribute _ => false
  | .route _ => false

/-- A binding lasts through every event that does not release it. -/
theorem bound_happen (h : cluster.bindings.get? hash = some name) {event : Event}
    (hkeeps : event.releases hash name = false) : (cluster.happen event).bindings.get? hash = some name := by
  cases event with
  | add | remove | report | distribute | route => exact bound_apply h rfl
  | pin other _ | put other _ => exact (Bindings.get?_put_of_ne (of_decide_eq_false hkeeps) _).trans h
  | invalidate other => exact (Bindings.get?_drop_of_ne (of_decide_eq_false hkeeps)).trans h
  | invalidateNode dropped => exact Bindings.get?_dropNode_iff.2 ⟨h, Ne.symm (of_decide_eq_false hkeeps)⟩

theorem bound_foldl (h : cluster.bindings.get? hash = some name) {events : List Event}
    (hkeeps : ∀ event ∈ events, event.releases hash name = false) :
    (events.foldl happen cluster).bindings.get? hash = some name :=
  List.foldlRecOn (motive := fun cluster => cluster.bindings.get? hash = some name) events happen h
    fun _ hbound event hin => bound_happen hbound (hkeeps event hin)

/-- A sound cluster that keeps bindings and places nodes and keys so. -/
structure Binding (placement : Placement) (cluster : Cluster) : Prop where
  sound : cluster.Sound
  kept : cluster.bindings.Kept
  placed : cluster.ring.placement = placement

theorem Binding.happen {placement : Placement} (h : cluster.Binding placement) (event : Event) :
    (cluster.happen event).Binding placement := by
  refine ⟨h.sound.apply _, ?_, (cluster.placement_apply _).trans h.placed⟩
  cases event with
  | add | remove | report | distribute | route => exact kept_apply h.kept rfl
  | pin hash name | put hash name => exact h.kept.put hash name
  | invalidate hash => exact h.kept.drop hash
  | invalidateNode name => exact h.kept.dropNode name

theorem Binding.foldl {placement : Placement} (h : cluster.Binding placement) (events : List Event) :
    (events.foldl Cluster.happen cluster).Binding placement :=
  List.foldlRecOn events Cluster.happen h fun _ hbinding event _ => hbinding.happen event

theorem binding_ofUrls (placement : Placement) (table : BindingTable) (urls : List String) :
    (ofUrls placement (.sticky table) urls).Binding placement := by
  have hempty : (empty placement (.sticky table)).Binding placement :=
    ⟨sound_empty placement _, Bindings.noConfusion, rfl⟩
  exact List.foldlRecOn urls add hempty fun _ hbinding url _ => hbinding.happen (.add url)

/-- As long as nothing releases its binding, a bound key goes to whoever is managed under its name. -/
theorem Binding.distribute_foldl {placement : Placement} (h : cluster.Binding placement)
    (hbound : cluster.bindings.get? hash = some name) {events : List Event}
    (hkeeps : ∀ event ∈ events, event.releases hash name = false) {key : ByteArray} (hkey : placement.hash key = hash) :
    ((events.foldl Cluster.happen cluster).distribute key).1 = (events.foldl Cluster.happen cluster).members[name]? := by
  have hplaced := (h.foldl events).placed
  have hstill := bound_foldl hbound hkeeps
  rw [← hkey, ← hplaced] at hstill
  rw [distribute_of_bound hstill]

/-! ## Sticky keys -/

/-- Whatever happened to a cluster that keeps bindings: once a key was routed to a node, every key of its digest goes
to the node managed under that name at the time, or to nobody if there is none, until the binding is changed from
outside. So does every key of a pinned digest. -/
theorem distribute_sticky (placement : Placement) (table : BindingTable) (urls : List String) (events : List Event) :
    let cluster := events.foldl happen (ofUrls placement (.sticky table) urls)
    (∀ key node, (cluster.distribute key).1 = some node →
      ∀ later : List Event, (∀ event ∈ later, event.releases (placement.hash key) node.name = false) →
        let after := later.foldl happen (cluster.happen (.distribute key))
        ∀ key', placement.hash key' = placement.hash key → (after.distribute key').1 = after.members[node.name]?) ∧
    ∀ hash name, ∀ later : List Event, (∀ event ∈ later, event.releases hash name = false) →
      let after := later.foldl happen (cluster.happen (.pin hash name))
      ∀ key, placement.hash key = hash → (after.distribute key).1 = after.members[name]? := by
  intro cluster
  have hcluster : cluster.Binding placement := (binding_ofUrls placement table urls).foldl events
  constructor
  · intro key node hd later hkeeps after key' hkey
    have hbound := hcluster.sound.bound_of_distribute hcluster.kept hd
    rw [hcluster.placed] at hbound
    exact (hcluster.happen (.distribute key)).distribute_foldl hbound hkeeps hkey
  · intro hash name later hkeeps after key hkey
    have hbound := hcluster.kept.get?_put hash name
    exact (hcluster.happen (.pin hash name)).distribute_foldl hbound hkeeps hkey

/-- A key of the same length finds the node that took the place of the one that left, although another joined before
it. Pinned to that other one, it finds nobody once the other has left. -/
theorem distribute_sticky_rejoined :
    let cluster := ofUrls byLength (.sticky ∅) ["http://a:1"]
    let later : List Event := [.remove "http://a:1", .add "http://b:1", .add "HTTP://A:1/"]
    let after := later.foldl happen (cluster.happen (.distribute "key".toUTF8))
    let pinned := [Event.remove "http://b:1"].foldl happen (after.happen (.pin 3 "http://b:1"))
    (cluster.distribute "key".toUTF8).1 = some ⟨"http://a:1", "http://a:1", 0⟩ ∧
      (after.distribute "yek".toUTF8).1 = some ⟨"http://a:1", "HTTP://A:1/", 2⟩ ∧
      (pinned.distribute "yek".toUTF8).1 = none := by
  intro cluster later after pinned
  have hfirst : (cluster.distribute "key".toUTF8).1 = some ⟨"http://a:1", "http://a:1", 0⟩ := by decide
  obtain ⟨hrouted, -⟩ := distribute_sticky byLength ∅ ["http://a:1"] []
  obtain ⟨-, hpinned⟩ := distribute_sticky byLength ∅ ["http://a:1"] (.distribute "key".toUTF8 :: later)
  rw [List.foldl_cons] at hpinned
  have hback : after.members["http://a:1"]? = some ⟨"http://a:1", "HTTP://A:1/", 2⟩ := by decide
  have hgone : pinned.members["http://b:1"]? = none := by decide
  refine ⟨hfirst, ?_, ?_⟩
  · exact (hrouted _ _ hfirst later (by decide) "yek".toUTF8 (by decide)).trans hback
  · exact (hpinned 3 "http://b:1" [.remove "http://b:1"] (by decide) "yek".toUTF8 (by decide)).trans hgone

end Cluster

end LogGateway
