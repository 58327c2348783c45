/-
Epochs over whole runs. A managed node has the epoch that was last reported for its name since it joined, and nobody
else has one. The median is stored and taken again only where epochs change; it is always the upper median of the
epochs on record.
-/
import LogGateway.Proofs.Cluster.Lifecycle
import Mathlib.Data.List.Induction

namespace LogGateway.Cluster

variable {cluster : Cluster} {name url : String} {epoch : UInt64}

/-! ## The upper median -/

/-- In a list in order at most as many entries are below the one at an index as come before it, and at most as many
are above it as come after it. -/
theorem countP_getElem_le {sorted : List UInt64} (hsorted : sorted.Pairwise (· ≤ ·)) {i : Nat} (hi : i < sorted.length) :
    sorted.countP (· < sorted[i]) ≤ i ∧ sorted.countP (sorted[i] < ·) ≤ sorted.length - 1 - i := by
  have hle : ∀ j k (hj : j < sorted.length) (hk : k < sorted.length), j ≤ k → sorted[j] ≤ sorted[k] := by
    intro j k hj hk hjk
    rcases Nat.lt_or_eq_of_le hjk with hlt | rfl
    · exact List.pairwise_iff_getElem.1 hsorted j k hj hk hlt
    · exact UInt64.le_refl _
  constructor
  · have hbehind : (sorted.drop i).countP (· < sorted[i]) = 0 := by
      refine List.countP_eq_zero.2 fun epoch hin => ?_
      obtain ⟨j, hj, rfl⟩ := List.mem_drop_iff_getElem.1 hin
      simpa using hle i (i + j) hi (by omega) (by omega)
    calc sorted.countP (· < sorted[i])
        = (sorted.take i).countP (· < sorted[i]) + (sorted.drop i).countP (· < sorted[i]) := by
          rw [← List.countP_append, List.take_append_drop]
      _ ≤ i := by
          rw [hbehind]
          exact Nat.le_trans List.countP_le_length (List.length_take_le i sorted)
  · have hbefore : (sorted.take (i + 1)).countP (sorted[i] < ·) = 0 := by
      refine List.countP_eq_zero.2 fun epoch hin => ?_
      obtain ⟨j, hj, rfl⟩ := List.mem_take_iff_getElem.1 hin
      simpa using hle j i (by omega) hi (by omega)
    calc sorted.countP (sorted[i] < ·)
        = (sorted.take (i + 1)).countP (sorted[i] < ·) + (sorted.drop (i + 1)).countP (sorted[i] < ·) := by
          rw [← List.countP_append, List.take_append_drop]
      _ ≤ sorted.length - 1 - i := by
          have := (sorted.drop (i + 1)).countP_le_length (p := fun epoch => decide (sorted[i] < epoch))
          rw [List.length_drop] at this
          omega

theorem upperMedian_nil : upperMedian [] = 0 := by
  rw [upperMedian, List.mergeSort_nil]
  rfl

theorem pairwise_mergeSort_le (epochs : List UInt64) : (epochs.mergeSort fun a b => a ≤ b).Pairwise (· ≤ ·) := by
  refine (List.pairwise_mergeSort ?_ ?_ epochs).imp of_decide_eq_true
  · intro a b c hab hbc
    exact decide_eq_true (UInt64.le_trans (of_decide_eq_true hab) (of_decide_eq_true hbc))
  · intro a b
    simpa using UInt64.le_total a b

/-- The median is read off the list in order, however it was put in order. -/
theorem upperMedian_eq {epochs sorted : List UInt64} (hperm : sorted.Perm epochs) (hsorted : sorted.Pairwise (· ≤ ·)) :
    upperMedian epochs = sorted[epochs.length / 2]?.getD 0 := by
  have hsame : (epochs.mergeSort fun a b => a ≤ b) = sorted :=
    ((List.mergeSort_perm epochs _).trans hperm.symm).eq_of_pairwise (fun _ _ _ _ => UInt64.le_antisymm)
      (pairwise_mergeSort_le epochs) hsorted
  simp only [upperMedian]
  rw [hsame, hperm.length_eq]

theorem upperMedian_perm {epochs epochs' : List UInt64} (h : epochs.Perm epochs') :
    upperMedian epochs = upperMedian epochs' := by
  have hperm := List.mergeSort_perm epochs' fun a b => a ≤ b
  have hsorted := pairwise_mergeSort_le epochs'
  rw [upperMedian_eq (hperm.trans h.symm) hsorted, upperMedian_eq hperm hsorted, h.length_eq]

/-- An epoch that stands in the middle of epochs, behind the middle if their number is even. -/
structure InMiddle (epochs : List UInt64) (epoch : UInt64) : Prop where
  entry : ∀ sorted : List UInt64, sorted.Perm epochs → sorted.Pairwise (· ≤ ·) →
    sorted[epochs.length / 2]? = some epoch
  mem : epoch ∈ epochs
  below : epochs.countP (· < epoch) ≤ epochs.length / 2
  above : epochs.countP (epoch < ·) ≤ epochs.length - 1 - epochs.length / 2

theorem upperMedian_inMiddle {epochs : List UInt64} (h : epochs ≠ []) : InMiddle epochs (upperMedian epochs) := by
  have hmiddle : epochs.length / 2 < epochs.length := Nat.div_lt_self (List.length_pos_iff.2 h) Nat.one_lt_two
  have hentry : ∀ sorted : List UInt64, sorted.Perm epochs → sorted.Pairwise (· ≤ ·) →
      sorted[epochs.length / 2]? = some (upperMedian epochs) := by
    intro sorted hperm hsorted
    rw [upperMedian_eq hperm hsorted, List.getElem?_eq_getElem (hperm.length_eq ▸ hmiddle), Option.getD_some]
  have hperm := List.mergeSort_perm epochs fun a b => a ≤ b
  have hsorted := pairwise_mergeSort_le epochs
  obtain ⟨hi, hmedian⟩ := List.getElem?_eq_some_iff.1 (hentry _ hperm hsorted)
  obtain ⟨hbelow, habove⟩ := countP_getElem_le hsorted hi
  rw [hmedian, hperm.countP_eq] at hbelow habove
  rw [hperm.length_eq] at habove
  exact ⟨hentry, hperm.mem_iff.1 (List.mem_of_getElem? (hentry _ hperm hsorted)), hbelow, habove⟩

/-! ## The stored median -/

/-- The epochs on record, one for each managed node that has one. -/
def recorded (cluster : Cluster) : List UInt64 := cluster.toList.filterMap fun node => cluster.nodeEpoch? node.url

/-- The managed nodes have all epochs that are stored. -/
theorem Sound.recorded_perm (h : cluster.Sound) : cluster.recorded.Perm cluster.epochs.values := by
  have hentries : (cluster.members.toList.map fun e => cluster.nodeEpoch? e.2.url) =
      cluster.members.toList.map fun e => cluster.epochs[e.1]? := by
    refine List.map_congr_left fun e he => ?_
    rw [nodeEpoch?, (h.named e.1 e.2 (Std.TreeMap.mem_toList_iff_getElem?_eq_some.1 he)).2]
  have hnames : cluster.recorded = cluster.members.keys.filterMap fun name => cluster.epochs[name]? := by
    calc cluster.recorded
        = (cluster.members.toList.map fun e => cluster.nodeEpoch? e.2.url).filterMap id := by
          rw [recorded, toList, OrderedMap.values_eq_map, List.filterMap_map, List.filterMap_map]
          rfl
      _ = cluster.members.keys.filterMap fun name => cluster.epochs[name]? := by
          rw [hentries, List.filterMap_map, ← Std.TreeMap.map_fst_toList_eq_keys, List.filterMap_map]
          rfl
  rw [hnames]
  exact OrderedMap.filterMap_keys_perm h.reported

/-- The stored median is the median of the stored epochs. -/
def Current (cluster : Cluster) : Prop := cluster.midEpoch = upperMedian cluster.epochs.values

theorem Current.apply (h : cluster.Current) (action : Action) : (cluster.apply action).Current := by
  generalize hnext : cluster.apply action = next
  cases hnext ▸ cluster.step_apply action with
  | stays | joins | binds | rebinds => exact h
  | reports => rfl
  | @leaves url node managed =>
    show cluster.midWithout (nodeName url) = upperMedian (cluster.epochs.erase (nodeName url)).values
    rw [midWithout]
    split
    · rfl
    · rename_i habsent
      -- a node without an epoch leaves: the median is not taken again
      rw [OrderedMap.values_erase_of_not_contains habsent]
      exact h

theorem current_ofUrls (placement : Placement) (bindings : Bindings) (urls : List String) :
    (ofUrls placement bindings urls).Current := by
  have hempty : (empty placement bindings).Current := upperMedian_nil.symm
  exact List.foldlRecOn urls add hempty fun cluster h url _ => h.apply (.add url)

/-! ## The last report -/

/-- The epoch that an action reports for a name. -/
def Action.reports? (name : String) : Action → Option UInt64
  | .report url epoch => if nodeName url = name then some epoch else none
  | .add _ => none
  | .remove _ => none
  | .get _ => none
  | .list => none
  | .distribute _ => none
  | .route _ => none
  | .rebind _ => none

/-- An action with which a name comes under management. -/
def Joins (cluster : Cluster) (name : String) (action : Action) : Prop :=
  (∃ url, action = .add url ∧ nodeName url = name) ∧ name ∉ cluster.members

/-- The epoch was reported for the name, and since then the name has neither joined nor reported again. -/
def LastReport (start : Cluster) (actions : List Action) (name : String) (epoch : UInt64) : Prop :=
  ∃ (before after : List Action) (action : Action), actions = before ++ action :: after ∧
    action.reports? name = some epoch ∧
    ∀ (between rest : List Action) (later : Action), after = between ++ later :: rest →
      later.reports? name = none ∧ ¬ ((before ++ action :: between).foldl apply start).Joins name later

theorem lastReport_snoc {start : Cluster} {actions : List Action} {action : Action} :
    LastReport start (actions ++ [action]) name epoch ↔ action.reports? name = some epoch ∨
      LastReport start actions name epoch ∧ action.reports? name = none ∧
        ¬ (actions.foldl apply start).Joins name action := by
  constructor
  · rintro ⟨before, after, report, heq, hreport, hlast⟩
    rcases List.eq_nil_or_concat after with rfl | ⟨after, last, rfl⟩
    · obtain ⟨-, hsame⟩ := List.append_inj' heq rfl
      cases hsame
      exact .inl hreport
    · rw [List.concat_eq_append, ← List.cons_append, ← List.append_assoc] at heq
      obtain ⟨rfl, hsame⟩ := List.append_inj' heq rfl
      cases hsame
      refine .inr ⟨⟨before, after, report, rfl, hreport, ?_⟩, hlast after [] action (List.concat_eq_append ..)⟩
      rintro between rest later rfl
      exact hlast between (rest ++ [action]) later (by simp)
  · rintro (hreport | ⟨⟨before, after, report, rfl, hreport, hlast⟩, hnone, hjoins⟩)
    · exact ⟨actions, [], action, rfl, hreport, fun between rest later h => absurd h (by simp)⟩
    · refine ⟨before, after ++ [action], report, by simp, hreport, fun between rest later h => ?_⟩
      rcases List.eq_nil_or_concat rest with rfl | ⟨rest, last, rfl⟩
      · obtain ⟨rfl, hsame⟩ := List.append_inj' h rfl
        cases hsame
        exact ⟨hnone, hjoins⟩
      · rw [List.concat_eq_append, ← List.cons_append, ← List.append_assoc] at h
        exact hlast between rest later (List.append_inj' h rfl).1

/-- A name that is not managed has no epoch. -/
theorem Sound.getElem?_epochs_of_not_mem (h : cluster.Sound) (hname : name ∉ cluster.members) :
    cluster.epochs[name]? = none :=
  Std.TreeMap.getElem?_eq_none fun hin => hname (h.reported name hin)

theorem getElem?_epochs_remove (h : cluster.Sound) (url name : String) :
    (cluster.remove url).epochs[name]? = if name = nodeName url then none else cluster.epochs[name]? := by
  cases hleaves : cluster.get? url with
  | some node => rw [remove_of_some hleaves, OrderedMap.getElem?_erase]
  | none =>
    rw [remove_of_none hleaves]
    split
    · rename_i hn
      refine h.getElem?_epochs_of_not_mem fun hin => ?_
      obtain ⟨node, hnode⟩ := mem_members_iff.1 hin
      rw [hn] at hnode
      cases hleaves.symm.trans hnode
    · rfl

theorem getElem?_epochs_report (cluster : Cluster) (url : String) (reported : UInt64) (name : String) :
    (cluster.reportEpoch url reported).epochs[name]? =
      if nodeName url = name ∧ name ∈ cluster.members then some reported else cluster.epochs[name]? := by
  by_cases hin : cluster.members.contains (nodeName url) = true
  · simp only [reportEpoch, hin, if_true]
    rw [OrderedMap.getElem?_insert]
    by_cases hn : nodeName url = name
    · rw [if_pos hn.symm, if_pos ⟨hn, hn ▸ hin⟩]
    · rw [if_neg (Ne.symm hn), if_neg fun h => hn h.1]
  · simp only [reportEpoch, hin]
    rw [if_neg Bool.false_ne_true, if_neg]
    rintro ⟨rfl, h⟩
    exact hin h

theorem members_report (cluster : Cluster) (url : String) (reported : UInt64) :
    (cluster.reportEpoch url reported).members = cluster.members := by
  simp only [reportEpoch]
  split <;> rfl

theorem epochs_add (cluster : Cluster) (url : String) : (cluster.add url).epochs = cluster.epochs := by
  unfold add
  split <;> rfl

/-- The epoch of a name as its last report has it, carried over one more action. -/
theorem epoch_apply_iff (h : cluster.Sound) {P : UInt64 → Prop}
    (hP : ∀ epoch, cluster.epochs[name]? = some epoch ↔ name ∈ cluster.members ∧ P epoch) (action : Action) :
    (cluster.apply action).epochs[name]? = some epoch ↔ name ∈ (cluster.apply action).members ∧
      (action.reports? name = some epoch ∨ P epoch ∧ action.reports? name = none ∧ ¬ cluster.Joins name action) := by
  cases action with
  | get | list | rebind =>
    rw [apply, hP]
    simp [Action.reports?, Joins]
  | distribute key | route key =>
    show (cluster.distribute key).2.epochs[name]? = some epoch ↔ name ∈ (cluster.distribute key).2.members ∧ _
    rw [epochs_distribute, members_distribute, hP]
    simp [Action.reports?, Joins]
  | add url =>
    rw [apply, epochs_add, hP, mem_add]
    simp only [Action.reports?, Joins]
    by_cases hin : name ∈ cluster.members
    · simp [hin]
    · simpa [hin, eq_comm] using fun hn _ => hn
  | remove url =>
    rw [apply, getElem?_epochs_remove h, mem_remove]
    simp only [Action.reports?, Joins]
    by_cases hn : name = nodeName url
    · simp [hn]
    · simp [hn, hP]
  | report url reported =>
    rw [apply, getElem?_epochs_report, members_report]
    simp only [Action.reports?, Joins]
    by_cases hn : nodeName url = name
    · by_cases hin : name ∈ cluster.members
      · simp [hn, hin]
      · simp [hin, h.getElem?_epochs_of_not_mem hin]
    · simp [hn, hP]

theorem epoch_iff {start : Cluster} (h : start.Sound) (hnone : ∀ name : String, start.epochs[name]? = none)
    (actions : List Action) (epoch : UInt64) :
    (actions.foldl apply start).epochs[name]? = some epoch ↔
      name ∈ (actions.foldl apply start).members ∧ LastReport start actions name epoch := by
  induction actions using List.reverseRecOn generalizing epoch with
  | nil =>
    rw [List.foldl_nil, hnone]
    constructor
    · intro hsome
      cases hsome
    · rintro ⟨-, before, after, action, heq, -⟩
      simp at heq
  | append_singleton actions action ih =>
    rw [List.foldl_append, List.foldl_cons, List.foldl_nil, epoch_apply_iff (h.foldl actions) ih, lastReport_snoc]

theorem epochs_ofUrls (placement : Placement) (bindings : Bindings) (urls : List String) :
    (ofUrls placement bindings urls).epochs = ∅ :=
  List.foldlRecOn (motive := fun cluster => cluster.epochs = ∅) urls add rfl
    fun cluster h url _ => (epochs_add cluster url).trans h

/-- Whatever is done to a cluster, the epoch of a URL is the one that was last reported for its name, under any
spelling, since the name last joined, if it is managed and such a report was made; and the middle epoch is zero if no
managed node has an epoch, and otherwise the upper median of the epochs of managed nodes. -/
theorem epochs_throughout (placement : Placement) (bindings : Bindings) (urls : List String) (actions : List Action) :
    let start := ofUrls placement bindings urls
    let cluster := actions.foldl apply start
    (∀ url epoch, cluster.nodeEpoch? url = some epoch ↔
      nodeName url ∈ cluster.members ∧ LastReport start actions (nodeName url) epoch) ∧
    (cluster.recorded = [] → cluster.midEpoch = 0) ∧
    (cluster.recorded ≠ [] → InMiddle cluster.recorded cluster.midEpoch) := by
  intro start cluster
  have hstart : start.Sound := sound_ofUrls placement bindings urls
  have hcluster : cluster.Sound := hstart.foldl actions
  have hcurrent : cluster.Current :=
    List.foldlRecOn actions apply (current_ofUrls placement bindings urls) fun cluster h action _ => h.apply action
  have hmid : cluster.midEpoch = upperMedian cluster.recorded :=
    hcurrent.trans (upperMedian_perm hcluster.recorded_perm).symm
  have hnone : ∀ name : String, start.epochs[name]? = none := by
    intro name
    rw [epochs_ofUrls]
    exact Std.TreeMap.getElem?_emptyc
  refine ⟨fun url epoch => epoch_iff hstart hnone actions epoch, fun hnone => ?_, fun hsome => ?_⟩
  · rw [hmid, hnone, upperMedian_nil]
  · rw [hmid]
    exact upperMedian_inMiddle hsome

/-- A node reports under two spellings, another leaves after its report and comes back without one. -/
theorem epochs_throughout_returned :
    let start := ofUrls byLength .off ["http://a:1", "http://b:1", "http://c:1"]
    let actions : List Action := [.report "http://a:1" 300, .report "http://b:1" 100, .report "http://c:1" 400,
      .report "HTTP://B:1/" 200, .remove "http://a:1", .add "http://a:1"]
    let cluster := actions.foldl apply start
    LastReport start actions "http://b:1" 200 ∧ ¬ LastReport start actions "http://a:1" 300 ∧
      cluster.recorded = [200, 400] ∧ InMiddle cluster.recorded cluster.midEpoch := by
  intro start actions cluster
  obtain ⟨hepochs, -, hmid⟩ := epochs_throughout byLength .off ["http://a:1", "http://b:1", "http://c:1"] actions
  have hb : cluster.nodeEpoch? "http://b:1" = some 200 := by decide
  have ha : cluster.nodeEpoch? "http://a:1" = none := by decide
  have hin : nodeName "http://a:1" ∈ cluster.members := by decide
  have hrecorded : cluster.recorded = [200, 400] := by decide
  refine ⟨((hepochs "http://b:1" 200).1 hb).2, fun hlast => ?_, hrecorded, hmid ?_⟩
  · cases ha.symm.trans ((hepochs "http://a:1" 300).2 ⟨hin, hlast⟩)
  · rw [hrecorded]
    exact List.cons_ne_nil _ _

end LogGateway.Cluster
