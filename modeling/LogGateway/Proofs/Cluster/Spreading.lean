/-
How sample keys spread over the nodes of a new cluster. Main statement: what is printed is one row for each managed
node, under its URL, with the number of sample keys that belong to the node on the ring; the rows and what went nowhere
add up to the samples, and nothing goes nowhere as long as there is a node. It makes no difference whether bindings are
kept.
-/
import LogGateway.Proofs.Cluster.Routing
import LogGateway.Proofs.Cluster.Rows
import Mathlib.Algebra.BigOperators.Group.Finset.Basic
import Mathlib.Algebra.GroupWithZero.Nat

namespace LogGateway

/-! ## Bindings that say what the ring says -/

namespace Cluster

variable {cluster : Cluster}

/-- Every bound digest is bound to the name of the node that its keys belong to on the ring. -/
structure Faithful (cluster : Cluster) : Prop where
  sound : cluster.Sound
  owner : ∀ (key : ByteArray) (name : String), cluster.bindings.get? (cluster.ring.placement.hash key) = some name →
    (cluster.ring.locate key).map Node.name = some name

/-- Keys go where the ring says, bound or not. -/
theorem Faithful.distribute_eq_locate (h : cluster.Faithful) (key : ByteArray) :
    (cluster.distribute key).1 = cluster.ring.locate key := by
  have hroutes := cluster.distribute_routes key
  generalize cluster.distribute key = result at hroutes
  cases hroutes with
  | @bound name hbound =>
    obtain ⟨node, hlocate, rfl⟩ := Option.map_eq_some_iff.1 (h.owner key name hbound)
    rw [hlocate]
    exact h.sound.owner_managed hlocate
  | free _ howner => exact howner.symm
  | nobody _ howner => exact howner.symm

theorem Faithful.distribute (h : cluster.Faithful) (key : ByteArray) : (cluster.distribute key).2.Faithful := by
  refine ⟨h.sound.apply (.distribute key), fun key' name hbound => ?_⟩
  rw [ring_distribute] at hbound ⊢
  have hroutes := cluster.distribute_routes key
  generalize cluster.distribute key = result at hroutes hbound
  cases hroutes with
  | bound | nobody => exact h.owner key' name hbound
  | @free node _ howner =>
    by_cases hhash : cluster.ring.placement.hash key = cluster.ring.placement.hash key'
    · -- the digest was bound just now, to the owner on the ring
      rw [← hhash] at hbound
      rw [locate_of_hash hhash.symm, howner, Bindings.eq_of_get?_put hbound]
      rfl
    · rw [Bindings.get?_put_of_ne hhash] at hbound
      exact h.owner key' name hbound

theorem faithful_ofUrls (placement : Placement) (keep : Bool) (urls : List String) :
    (ofUrls placement (.make keep) urls).Faithful := by
  refine ⟨sound_ofUrls .., fun key name hbound => ?_⟩
  have hfree : (ofUrls placement (.make keep) urls).bindings.get?
      ((ofUrls placement (.make keep) urls).ring.placement.hash key) = none := by
    rw [ofUrls_bindings]
    cases keep <;> exact Std.TreeMap.getElem?_emptyc
  cases hfree.symm.trans hbound

end Cluster

namespace Spread

/-! ## Tallies -/

/-- The owners of the sample keys on a ring, key by key. -/
def owners (ring : Ring Node) (samples : Nat) : List (Option Node) :=
  (List.range samples).map fun i => ring.locate (sampleKey i)

/-- Counting the nodes that the sample keys go to is counting the owners of the keys. -/
theorem sample_eq {cluster : Cluster} (h : cluster.Faithful) (samples : Nat) :
    (sample cluster samples).1 = (owners cluster.ring samples).foldl count (start cluster) ∧
      (sample cluster samples).2.Faithful ∧ (sample cluster samples).2.ring = cluster.ring := by
  induction samples with
  | zero => exact ⟨rfl, h, rfl⟩
  | succ samples ih =>
    obtain ⟨hspread, hfaithful, hring⟩ := ih
    have hnext : sample cluster (samples + 1) =
        ((sample cluster samples).1.count ((sample cluster samples).2.distribute (sampleKey samples)).1,
          ((sample cluster samples).2.distribute (sampleKey samples)).2) := by
      rw [sample, Nat.fold_succ]
      rfl
    rw [hnext]
    refine ⟨?_, hfaithful.distribute _, (Cluster.ring_distribute ..).trans hring⟩
    rw [owners, List.range_succ, List.map_append, List.foldl_append, hspread, hfaithful.distribute_eq_locate, hring]
    rfl

/-- The bindings of a new cluster make no difference. -/
theorem sample_ofUrls (placement : Placement) (keep : Bool) (urls : List String) (samples : Nat) :
    (sample (.ofUrls placement (.make keep) urls) samples).1 =
      (owners (Cluster.ofUrls placement .off urls).ring samples).foldl count (start (.ofUrls placement .off urls)) := by
  rw [(sample_eq (Cluster.faithful_ofUrls placement keep urls) samples).1,
    ← Cluster.withoutBindings_ofUrls placement (.make keep) urls]
  rfl

theorem getElem?_foldl_insert (nodes : List Node) (counts : Std.TreeMap String Nat) (url : String) :
    (nodes.foldl (fun counts node => counts.insert node.url 0) counts)[url]? =
      if url ∈ nodes.map Node.url then some 0 else counts[url]? := by
  induction nodes generalizing counts with
  | nil => simp
  | cons node nodes ih =>
    rw [List.foldl_cons, ih, OrderedMap.getElem?_insert]
    by_cases hrest : url ∈ nodes.map Node.url
    · rw [if_pos hrest, List.map_cons, if_pos (List.mem_cons_of_mem _ hrest)]
    · simp only [List.map_cons, List.mem_cons, hrest, or_false, if_false]

/-- Every managed node has a row, and nobody else. -/
theorem getElem?_start (cluster : Cluster) (url : String) :
    (start cluster).counts[url]? = if url ∈ cluster.toList.map Node.url then some 0 else none :=
  (getElem?_foldl_insert _ _ _).trans (by rw [Std.TreeMap.getElem?_emptyc])

theorem getElem?_count (spread : Spread) (owner : Option Node) (url : String) :
    (spread.count owner).counts[url]? =
      if owner.map Node.url = some url then some (spread.counts[url]?.getD 0 + 1) else spread.counts[url]? := by
  cases owner with
  | none => rfl
  | some node =>
    rw [count, Option.map_some, OrderedMap.getElem?_alter]
    by_cases hurl : url = node.url
    · rw [if_pos hurl, if_pos (congrArg some hurl.symm), hurl]
    · rw [if_neg hurl, if_neg fun h => hurl (Option.some.inj h).symm]

/-- As long as every owner has a row, no row is added and each grows by the number of its owners. -/
theorem getElem?_foldl_count {spread : Spread} {owners : List (Option Node)}
    (hrows : ∀ node, some node ∈ owners → spread.counts[node.url]?.isSome) (url : String) :
    (owners.foldl count spread).counts[url]? =
      spread.counts[url]?.map (· + owners.countP fun owner => owner.map Node.url = some url) := by
  induction owners generalizing spread with
  | nil => simp
  | cons owner owners ih =>
    have hfirst : owner.map Node.url = some url → spread.counts[url]?.isSome := by
      intro hurl
      obtain ⟨node, rfl, rfl⟩ := Option.map_eq_some_iff.1 hurl
      exact hrows node (List.mem_cons_self ..)
    rw [List.foldl_cons, ih ?_, getElem?_count, List.countP_cons]
    · by_cases hurl : owner.map Node.url = some url
      · obtain ⟨n, hn⟩ := Option.isSome_iff_exists.1 (hfirst hurl)
        simp only [hurl, hn, if_true, Option.getD_some, Option.map_some, decide_true, Option.some_inj]
        omega
      · simp [hurl]
    · intro node hnode
      rw [getElem?_count]
      split
      · rfl
      · exact hrows node (List.mem_cons_of_mem _ hnode)

theorem unrouted_foldl_count (spread : Spread) (owners : List (Option Node)) :
    (owners.foldl count spread).unrouted = spread.unrouted + owners.countP fun owner => owner = none := by
  induction owners generalizing spread with
  | nil => rfl
  | cons owner owners ih =>
    rw [List.foldl_cons, ih, List.countP_cons]
    cases owner with
    | none =>
      simp only [count, decide_true, if_true]
      omega
    | some node => rfl

/-- Each owner is one of the nodes or nobody, so their numbers add up to that of all. -/
theorem sum_countP_eq_length {nodes : List Node} (hnodes : nodes.Nodup) {owners : List (Option Node)}
    (howners : ∀ node, some node ∈ owners → node ∈ nodes) :
    (nodes.map fun node => owners.countP fun owner => owner = some node).sum +
      (owners.countP fun owner => owner = none) = owners.length := by
  have hdistinct : (none :: nodes.map some).Nodup :=
    List.nodup_cons.2 ⟨by simp, hnodes.map (Option.some_injective _)⟩
  have hall : ∀ owner ∈ (owners : Multiset (Option Node)), owner ∈ (none :: nodes.map some).toFinset := by
    intro owner howner
    cases owner with
    | none => simp
    | some node => simpa using howners node howner
  have hcount (owner : Option Node) :
      Multiset.count owner (owners : Multiset (Option Node)) = owners.countP fun other => other = owner :=
    (Multiset.coe_count owner owners).trans rfl
  have hsum := Multiset.sum_count_eq_card hall
  rw [List.sum_toFinset _ hdistinct] at hsum
  simpa [hcount, Nat.add_comm, Function.comp_def] using hsum

/-! ## The rows of the report -/

variable {cluster : Cluster} {owners : List (Option Node)}

/-- No two managed nodes have the same URL, as it gives them their names. -/
theorem nodup_urls (h : cluster.Sound) : (cluster.toList.map Node.url).Nodup := by
  have hnames : (cluster.toList.map Node.url).map nodeName = cluster.members.keys := by
    rw [List.map_map]
    exact OrderedMap.map_values fun name node hnode => (h.named name node hnode).2
  refine List.Nodup.of_map nodeName ?_
  rw [hnames]
  exact Std.TreeMap.nodup_keys

theorem countP_url (h : cluster.Sound) (howners : ∀ node, some node ∈ owners → node ∈ cluster.toList) {node : Node}
    (hnode : node ∈ cluster.toList) :
    (owners.countP fun owner => owner.map Node.url = some node.url) = owners.countP fun owner => owner = some node := by
  refine List.countP_congr fun owner howner => ?_
  rw [decide_eq_true_iff, decide_eq_true_iff, Option.map_eq_some_iff]
  constructor
  · rintro ⟨other, rfl, hurl⟩
    rw [List.inj_on_of_nodup_map (nodup_urls h) (howners other howner) hnode hurl]
  · rintro rfl
    exact ⟨node, rfl, rfl⟩

/-- The rows are those of the managed nodes, with the number of keys that each of them owns. -/
theorem toList_foldl_count (h : cluster.Sound) (howners : ∀ node, some node ∈ owners → node ∈ cluster.toList) :
    (owners.foldl count (start cluster)).counts.toList.Perm
      (cluster.toList.map fun node => (node.url, owners.countP fun owner => owner = some node)) := by
  have hurls := nodup_urls h
  have hrows : ∀ node, some node ∈ owners → (start cluster).counts[node.url]?.isSome := by
    intro node hnode
    rw [getElem?_start, if_pos (List.mem_map_of_mem (howners node hnode))]
    rfl
  refine (List.perm_ext_iff_of_nodup (.of_map Prod.fst ?_) (.of_map Prod.fst ?_)).2 ?_
  · rw [Std.TreeMap.map_fst_toList_eq_keys]
    exact Std.TreeMap.nodup_keys
  · rw [List.map_map]
    exact hurls
  · rintro ⟨url, n⟩
    rw [Std.TreeMap.mem_toList_iff_getElem?_eq_some, getElem?_foldl_count hrows, getElem?_start]
    constructor
    · intro hn
      split at hn
      · next hin =>
        obtain ⟨node, hnode, rfl⟩ := List.mem_map.1 hin
        rw [countP_url h howners hnode, Option.map_some, Nat.zero_add, Option.some_inj] at hn
        exact List.mem_map.2 ⟨node, hnode, by rw [hn]⟩
      · cases hn
    · intro hrow
      obtain ⟨node, hnode, heq⟩ := List.mem_map.1 hrow
      obtain ⟨rfl, rfl⟩ := Prod.mk.inj heq
      rw [if_pos (List.mem_map_of_mem hnode), countP_url h howners hnode, Option.map_some, Nat.zero_add]

theorem unrouted_foldl_start (cluster : Cluster) (owners : List (Option Node)) :
    (owners.foldl count (start cluster)).unrouted = owners.countP fun owner => owner = none :=
  (unrouted_foldl_count ..).trans (Nat.zero_add _)

/-- What is counted is counted once. -/
theorem sum_foldl_count (h : cluster.Sound) (howners : ∀ node, some node ∈ owners → node ∈ cluster.toList) :
    ((owners.foldl count (start cluster)).counts.toList.map Prod.snd).sum +
      (owners.foldl count (start cluster)).unrouted = owners.length := by
  have hnodes : cluster.toList.Nodup := .of_map Node.url (nodup_urls h)
  rw [((toList_foldl_count h howners).map Prod.snd).sum_nat, List.map_map, unrouted_foldl_start]
  exact sum_countP_eq_length hnodes howners

theorem mem_toList_of_owner (h : cluster.Sound) {samples : Nat} {node : Node}
    (hnode : some node ∈ Spread.owners cluster.ring samples) : node ∈ cluster.toList := by
  obtain ⟨i, -, hi⟩ := List.mem_map.1 hnode
  exact OrderedMap.mem_values_iff.2 ⟨node.name, h.owner_managed hi⟩

theorem countP_owners (ring : Ring Node) (samples : Nat) (owner : Option Node) :
    ((Spread.owners ring samples).countP fun other => other = owner) =
      (List.range samples).countP fun i => ring.locate (sampleKey i) = owner := by
  rw [Spread.owners, List.countP_map]
  rfl

/-- Nothing goes nowhere as long as there is a node. -/
theorem countP_owners_none (h : cluster.Sound) (hpos : 0 < cluster.ring.placement.claims) (samples : Nat) :
    ((Spread.owners cluster.ring samples).countP fun owner => owner = none) =
      if cluster.isEmpty then samples else 0 := by
  have hnone (key : ByteArray) : cluster.ring.locate key = none ↔ _ := h.locate_eq_none_iff hpos
  rw [countP_owners]
  split
  · next hempty => rw [List.countP_eq_length.2 fun i _ => decide_eq_true ((hnone _).2 hempty), List.length_range]
  · next hsome => exact List.countP_eq_zero.2 fun i _ hlost => hsome ((hnone _).1 (of_decide_eq_true hlost))

theorem toList_eq_nil_iff : cluster.toList = [] ↔ cluster.isEmpty = true := by
  rw [Cluster.toList, OrderedMap.values_eq_map, List.map_eq_nil_iff, Cluster.isEmpty, ← Std.TreeMap.isEmpty_toList,
    List.isEmpty_iff]

theorem perform_distribution {σ : Type} (transport : Http.Transport σ) (settings : Settings) (samples : UInt64)
    (wire : σ) : Gateway.perform transport settings (.distribution samples) wire =
      Gateway.printed ((sample settings.cluster samples.toNat).1.text samples.toNat) wire := rfl

/-- The report has one row for each managed node, under its URL and in the order of the URLs, with the number of sample
keys whose owner on the ring is that node, and one for what went nowhere if anything did. Each row says one thing, and
breaks off only where a URL does. The rows and what went nowhere add up to the samples; what goes nowhere is nothing if
there is a node, and else all. Whether keys stay with their nodes makes no difference. -/
theorem distribution_conserves {σ : Type} (transport : Http.Transport σ) (settings : Settings) (samples : UInt64)
    (wire : σ) :
    let cluster := settings.cluster
    let n := samples.toNat
    let ended := Gateway.perform transport settings (.distribution samples) wire
    ∃ (rows : List (String × Nat)) (unrouted : Nat) (lines : List (List Char)),
      ended = Gateway.printed (String.ofList (lines.flatMap (· ++ ['\n']))) wire ∧
      List.Forall₂ Says (entries rows unrouted) lines ∧ (∀ line ∈ lines, ∃! said, Says said line) ∧ lines.Nodup ∧
      ((∀ node ∈ cluster.toList, '\n' ∉ node.url.toList) → ∀ line ∈ lines, '\n' ∉ line) ∧
      rows.Perm (cluster.toList.map fun node => (node.url,
        (List.range n).countP fun i => cluster.ring.locate ("sample-" ++ toString i).toUTF8 = some node)) ∧
      (rows.map Prod.fst).Pairwise (· < ·) ∧
      (rows.map Prod.snd).sum + unrouted = n ∧
      unrouted = (if cluster.toList = [] then n else 0) ∧
      ∀ repartition, Gateway.perform transport { settings with repartition } (.distribution samples) wire = ended := by
  intro cluster n ended
  let spread := (sample cluster n).1
  have hfaithful : cluster.Faithful := Cluster.faithful_ofUrls ..
  have hsound : cluster.Sound := hfaithful.sound
  have howners : ∀ node, some node ∈ owners cluster.ring n → node ∈ cluster.toList :=
    fun node hnode => mem_toList_of_owner hsound hnode
  have hplaced : cluster.ring.placement = settings.placement := Cluster.ofUrls_placement ..
  have hpos : 0 < cluster.ring.placement.claims := hplaced ▸ Ring.make_claims_pos ..
  have hspread : spread = (owners cluster.ring n).foldl count (start cluster) := (sample_eq hfaithful n).1
  have hrows : spread.counts.toList.Perm (cluster.toList.map fun node => (node.url,
      (List.range n).countP fun i => cluster.ring.locate ("sample-" ++ toString i).toUTF8 = some node)) := by
    rw [hspread]
    refine (toList_foldl_count hsound howners).trans (.of_eq ?_)
    simp only [countP_owners]
    rfl
  have hordered : (spread.counts.toList.map Prod.fst).Pairwise (· < ·) := by
    rw [List.pairwise_map]
    refine spread.counts.ordered_keys_toList.imp fun hlt => ?_
    exact compareOfLessAndEq_eq_lt.1 hlt
  obtain ⟨lines, htext, hsays⟩ := text_says spread n
  refine ⟨spread.counts.toList, spread.unrouted, lines, ?_, hsays, fun line hline => ?_, nodup_of_says hsays ?_,
    fun hurls line hline => ?_, hrows, hordered, ?_, ?_, fun repartition => ?_⟩
  · rw [← htext, String.ofList_toList]
    exact perform_distribution ..
  · obtain ⟨said, -, hsaid⟩ := exists_of_mem_says hsays hline
    exact ⟨said, hsaid, fun other hother => hother.unique hsaid⟩
  · exact nodup_entries hordered spread.unrouted
  · obtain ⟨said, hsaid, hline⟩ := exists_of_mem_says hsays hline
    refine hline.unbroken fun url hurl => ?_
    have hurl := (hrows.map Prod.fst).mem_iff.1 (mem_entries hsaid hurl)
    rw [List.map_map] at hurl
    obtain ⟨node, hnode, rfl⟩ := List.mem_map.1 hurl
    exact hurls node hnode
  · rw [hspread, sum_foldl_count hsound howners, owners, List.length_map, List.length_range]
  · rw [hspread, unrouted_foldl_start]
    simp only [toList_eq_nil_iff]
    exact countP_owners_none hsound hpos n
  · have hsame : (sample { settings with repartition }.cluster n).1 = spread :=
      (sample_ofUrls ..).trans (sample_ofUrls ..).symm
    rw [perform_distribution, hsame]
    exact (perform_distribution ..).symm

/-- Two nodes with one point each get two of three keys and one. Without a node all keys go nowhere. -/
theorem distribution_conserves_three :
    let transport : Http.Transport Unit := fun _ _ _ => ⟨0, .failed, ()⟩
    let settings : Settings := ⟨["http://b", "http://a"], 60000, true, 1⟩
    (∃ share share' : List Char, (Gateway.perform transport settings (.distribution 3) ()).stdout.toList =
      "       2 ".toList ++ share ++ "%  http://a\n".toList ++ "       1 ".toList ++ share' ++ "%  http://b\n".toList) ∧
    (Gateway.perform transport { settings with nodeUrls := [] } (.distribution 3) ()).stdout =
      "       3          (no node available)\n" := by
  intro transport settings
  constructor
  · obtain ⟨rows, unrouted, lines, hended, hsays, -, -, -, hrows, hordered, -, hunrouted, -⟩ :=
      distribution_conserves transport settings 3 ()
    have hcounts : (settings.cluster.toList.map fun node => (node.url, (List.range 3).countP fun i =>
        settings.cluster.ring.locate ("sample-" ++ toString i).toUTF8 = some node)) =
          [("http://a", 2), ("http://b", 1)] := by
      simp only [Ring.locate, Ring.ownerFrom, OrderedMap.minEntry?_eq_head?]
      decide +kernel
    obtain rfl : rows = [("http://a", 2), ("http://b", 1)] := by
      refine (hrows.trans (.of_eq hcounts)).eq_of_pairwise (fun _ _ _ _ hlt hgt => ?_) (List.pairwise_map.1 hordered)
        (by decide)
      exact absurd hgt (String.lt_asymm hlt)
    obtain rfl : unrouted = 0 := hunrouted.trans (if_neg (by decide))
    have htwo : padded 2 = "       2".toList := by decide
    have hone : padded 1 = "       1".toList := by decide
    cases hsays with
    | cons hfirst hsays =>
      cases hsays with
      | cons hsecond hsays =>
        cases hsays
        cases hfirst with
        | @got _ _ share =>
          cases hsecond with
          | @got _ _ share' =>
            refine ⟨share, share', ?_⟩
            rw [hended, htwo, hone]
            simp [Gateway.printed]
  · obtain ⟨rows, unrouted, lines, hended, hsays, -, -, -, hrows, -, -, hunrouted, -⟩ :=
      distribution_conserves transport { settings with nodeUrls := [] } 3 ()
    obtain rfl : rows = [] := List.perm_nil.1 hrows
    obtain rfl : unrouted = 3 := hunrouted
    cases hsays with
    | cons hfirst hsays =>
      cases hsays
      cases hfirst
      rw [hended]
      rfl

end Spread

end LogGateway
