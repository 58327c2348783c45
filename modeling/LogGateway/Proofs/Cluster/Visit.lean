/-
A node that joins a cluster, reports and leaves again. Main statement: without bindings, nothing of the visit can be
seen afterwards, whatever was done to the cluster before and whoever lost points of the ring to the visitor.
-/
import LogGateway.Proofs.Cluster.Epochs
import LogGateway.Proofs.Cluster.Shrinking

namespace LogGateway.Cluster

variable {cluster other stayed : Cluster} {name url : String}

/-! ## The stay -/

/-- What is done while a visitor of that name is there: it reports, and keys are routed and nodes looked up. -/
def Action.visits (name : String) : Action → Bool
  | .report url _ => nodeName url = name
  | .distribute _ => true
  | .route _ => true
  | .get _ => true
  | .list => true
  | .add _ => false
  | .remove _ => false
  | .rebind _ => false

/-- Clusters that are the same apart from the epoch of a name and the median. -/
structure Apart (name : String) (cluster other : Cluster) : Prop where
  members : other.members = cluster.members
  ring : other.ring = cluster.ring
  bindings : other.bindings = cluster.bindings
  closures : other.closures = cluster.closures
  epochs : ∀ known : String, known ≠ name → other.epochs[known]? = cluster.epochs[known]?

theorem Apart.refl (name : String) (cluster : Cluster) : Apart name cluster cluster :=
  ⟨rfl, rfl, rfl, rfl, fun _ _ => rfl⟩

theorem Apart.trans {last : Cluster} (h : Apart name cluster other) (h' : Apart name other last) :
    Apart name cluster last where
  members := h'.members.trans h.members
  ring := h'.ring.trans h.ring
  bindings := h'.bindings.trans h.bindings
  closures := h'.closures.trans h.closures
  epochs known hne := (h'.epochs known hne).trans (h.epochs known hne)

theorem apart_report (cluster : Cluster) (url : String) (epoch : UInt64) :
    Apart (nodeName url) cluster (cluster.reportEpoch url epoch) := by
  rw [reportEpoch]
  split
  · refine ⟨rfl, rfl, rfl, rfl, fun known hne => ?_⟩
    rw [OrderedMap.getElem?_insert, if_neg hne]
  · exact .refl _ _

theorem apart_apply (hoff : cluster.bindings = .off) {action : Action} (hvisits : action.visits name = true) :
    Apart name cluster (cluster.apply action) := by
  cases action with
  | report url epoch =>
    obtain rfl : nodeName url = name := of_decide_eq_true hvisits
    exact cluster.apart_report url epoch
  | distribute key | route key =>
    show Apart name cluster (cluster.distribute key).2
    rw [distribute_of_off hoff]
    exact .refl name cluster
  | get | list => exact .refl name cluster
  | add | remove | rebind => cases hvisits

theorem apart_foldl (hoff : cluster.bindings = .off) {actions : List Action}
    (hvisits : ∀ action ∈ actions, action.visits name = true) : Apart name cluster (actions.foldl apply cluster) := by
  induction actions generalizing cluster with
  | nil => exact .refl name cluster
  | cons action actions ih =>
    have hfirst := apart_apply hoff (hvisits action (List.mem_cons_self ..))
    exact hfirst.trans (ih (hfirst.bindings.trans hoff) fun action hin => hvisits action (List.mem_cons_of_mem _ hin))

theorem Current.foldl (h : cluster.Current) (actions : List Action) : (actions.foldl Cluster.apply cluster).Current :=
  List.foldlRecOn actions Cluster.apply h fun _ hcurrent action _ => hcurrent.apply action

/-! ## After the visit -/

/-- A name that is not managed is free for the visitor. -/
theorem add_of_not_mem (hnew : nodeName url ∉ cluster.members) : cluster.add url = { cluster with
    members := cluster.members.insert (nodeName url) (.make url cluster.nextSerial)
    ring := cluster.ring.add (.make url cluster.nextSerial)
    nextSerial := cluster.nextSerial + 1 } :=
  add_of_not_contains fun hc => hnew (Std.TreeMap.mem_iff_contains.2 hc)

section Left

variable (hstay : Apart (nodeName url) (cluster.add url) stayed)

include hstay

theorem placement_left : (stayed.remove url).ring.placement = cluster.ring.placement := by
  have hleft : (stayed.remove url).ring.placement = stayed.ring.placement := stayed.placement_apply (.remove url)
  have hjoined : (cluster.add url).ring.placement = cluster.ring.placement := cluster.placement_apply (.add url)
  rw [hleft, hstay.ring, hjoined]

theorem bindings_left : (stayed.remove url).bindings = cluster.bindings := by
  rw [remove_bindings, hstay.bindings, add_bindings]

variable (hnew : nodeName url ∉ cluster.members)

include hnew

theorem getElem?_members_left (name : String) : (stayed.remove url).members[name]? = cluster.members[name]? := by
  rw [getElem?_remove, hstay.members, getElem?_add]
  by_cases hn : name = nodeName url
  · rw [if_pos hn, hn]
    exact (Std.TreeMap.getElem?_eq_none hnew).symm
  · rw [if_neg hn, if_neg (Ne.symm hn), Option.or_none]

theorem getElem?_epochs_left (h : cluster.Sound) (h' : stayed.Sound) (name : String) :
    (stayed.remove url).epochs[name]? = cluster.epochs[name]? := by
  rw [getElem?_epochs_remove h']
  by_cases hn : name = nodeName url
  · rw [if_pos hn, hn, h.getElem?_epochs_of_not_mem hnew]
  · rw [if_neg hn, hstay.epochs name hn, epochs_add]

/-- The visitor alone is closed, whose serial number is new. -/
theorem isClosed_left {node : Node} (hold : node.serial < cluster.nextSerial) :
    (stayed.remove url).isClosed node = cluster.isClosed node := by
  have hvisitor : stayed.get? url = some (.make url cluster.nextSerial) := by
    rw [get?, hstay.members, add_of_not_mem hnew, OrderedMap.getElem?_insert, if_pos rfl]
  have hclosures : stayed.closures = cluster.closures := by
    rw [hstay.closures, add_of_not_mem hnew]
  rw [remove_of_some hvisitor, isClosed, isClosed, Bool.eq_iff_iff, Closures.isClosed_iff, Closures.isClosed_iff,
    Closures.mem_close, hclosures]
  exact or_iff_right (Nat.ne_of_lt hold)

/-- The ring may hold claims in another order, but gives every key to the same node. -/
theorem locate_left (h : cluster.Sound) (h' : stayed.Sound) (hpos : 0 < cluster.ring.placement.claims)
    (key : ByteArray) : (stayed.remove url).ring.locate key = cluster.ring.locate key := by
  have hleft := h'.remove url
  refine h.exact.locate_congr hleft.exact hpos (placement_left hstay) (fun name => ?_) key
  rw [hleft.placed, h.placed, getElem?_members_left hstay hnew]

end Left

/-- To a cluster without bindings, whatever was done to it, a node joins whose name is not managed. It may report under
any spelling of its URL, and keys may be routed. Once it has left, all is as before it joined: the managed nodes, who is
found at each URL and with which epoch, the median, where each key goes, and who is closed of all nodes made before. -/
theorem visit_unseen (hash : ByteArray → UInt64) (virtualNodes : Nat) (urls : List String) (actions : List Action)
    (hcalls : ∀ action ∈ actions, action.isCall = true) (url : String) (stay : List Action)
    (hstay : ∀ action ∈ stay, action.visits (nodeName url) = true) :
    let cluster := actions.foldl apply (ofUrls (.make hash virtualNodes) .off urls)
    let left := (stay.foldl apply (cluster.add url)).remove url
    nodeName url ∉ cluster.members →
      left.toList = cluster.toList ∧ (∀ other, left.get? other = cluster.get? other) ∧
      (∀ other, left.nodeEpoch? other = cluster.nodeEpoch? other) ∧ left.midEpoch = cluster.midEpoch ∧
      (∀ key, (left.distribute key).1 = (cluster.distribute key).1) ∧
      ∀ node, node.serial < cluster.nextSerial → left.isClosed node = cluster.isClosed node := by
  intro cluster left hnew
  have hsound : cluster.Sound := (sound_ofUrls _ _ urls).foldl actions
  have hstayed : (stay.foldl apply (cluster.add url)).Sound := (hsound.add url).foldl stay
  have hcurrent : cluster.Current := (current_ofUrls _ _ urls).foldl actions
  have hcurrent' : left.Current := ((hcurrent.apply (.add url)).foldl stay).apply (.remove url)
  have hunbound := (unbound_ofUrls (.make hash virtualNodes) urls).foldl hcalls
  have hoff : (cluster.add url).bindings = .off := (cluster.add_bindings url).trans hunbound.off
  have hpos : 0 < cluster.ring.placement.claims := hunbound.placed ▸ Ring.make_claims_pos hash virtualNodes
  have hapart := apart_foldl hoff hstay
  have hmembers := getElem?_members_left hapart hnew
  have hepochs := getElem?_epochs_left hapart hnew hsound hstayed
  refine ⟨?_, fun other => hmembers _, fun other => hepochs _, ?_, fun key => ?_, fun node => isClosed_left hapart hnew⟩
  · exact (Std.TreeMap.Equiv.of_forall_constGet?_eq hmembers).values_eq
  · rw [hcurrent', hcurrent, (Std.TreeMap.Equiv.of_forall_constGet?_eq hepochs).values_eq]
  · rw [distribute_of_off hunbound.off, distribute_of_off ((bindings_left hapart).trans hunbound.off)]
    exact locate_left hapart hnew hsound hstayed hpos key

/-- The visitor takes the points of the others, as its name is the smallest, and lowers the median. -/
theorem visit_unseen_smallest :
    let hash : ByteArray → UInt64 := fun bytes => bytes.size.toUInt64
    let actions : List Action := [.report "http://b:1" 100, .report "http://a:1" 300]
    let cluster := actions.foldl apply (ofUrls (.make hash 2) .off ["http://b:1", "http://a:1"])
    let stay : List Action := [.report "HTTP://0:1/" 50, .distribute "key".toUTF8]
    let stayed := stay.foldl apply (cluster.add "http://0:1")
    let left := stayed.remove "http://0:1"
    (stayed.distribute "key".toUTF8).1.map Node.name = some "http://0:1" ∧ stayed.midEpoch = 100 ∧
      left.toList = cluster.toList ∧ left.midEpoch = 300 ∧
      (left.distribute "key".toUTF8).1.map Node.name = some "http://a:1" := by
  intro hash actions cluster stay stayed left
  have hnew : nodeName "http://0:1" ∉ cluster.members := by decide
  obtain ⟨hlist, -, -, hmid, hroutes, -⟩ := visit_unseen hash 2 ["http://b:1", "http://a:1"] actions
    (by simp [actions, Action.isCall]) "http://0:1" stay (by decide) hnew
  have hcurrent : cluster.Current := (current_ofUrls _ _ _).foldl actions
  have hbefore : cluster.midEpoch = 300 := by
    rw [hcurrent, show cluster.epochs.values = [300, 100] by decide,
      @upperMedian_eq _ [100, 300] (.swap _ _ _) (by decide)]
    rfl
  have hcurrent' : stayed.Current := (hcurrent.apply (.add "http://0:1")).foldl stay
  have hduring : stayed.midEpoch = 100 := by
    rw [hcurrent', show stayed.epochs.values = [50, 300, 100] by decide,
      @upperMedian_eq _ [50, 100, 300] (.cons _ (.swap _ _ _)) (by decide)]
    rfl
  have howner : (cluster.distribute "key".toUTF8).1.map Node.name = some "http://a:1" := by decide
  exact ⟨by decide, hduring, hlist, hmid.trans hbefore, (hroutes _).symm ▸ howner⟩

end LogGateway.Cluster
