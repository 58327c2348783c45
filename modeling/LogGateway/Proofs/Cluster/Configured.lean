/-
A cluster as it is configured. Of the URLs it is made of, the first of each name has the one node of that name, and as
long as nodes neither join nor leave every key is routed to one of these URLs. Main statement: so it is for the URLs
of an environment, whatever text they are given as.
-/
import LogGateway.Proofs.Cluster.Shrinking
import LogGateway.Proofs.Settings

namespace LogGateway

namespace Cluster

variable {cluster : Cluster} {urls : List String}

/-! ## The first of each name -/

/-- The first of these URLs that has the name. -/
def firstOf (urls : List String) (name : String) : Option String := urls.find? fun url => nodeName url = name

theorem firstOf_isSome {url : String} (h : url ∈ urls) : (firstOf urls (nodeName url)).isSome = true := by
  rw [firstOf, List.find?_isSome]
  exact ⟨url, h, decide_eq_true rfl⟩

/-- Whoever was managed under a name stays; otherwise the first URL of that name joins. -/
theorem url_foldl_add (cluster : Cluster) (urls : List String) (name : String) :
    ((urls.foldl add cluster).members[name]?).map Node.url =
      ((cluster.members[name]?).map Node.url).or ((firstOf urls name).map Text.trim) := by
  induction urls generalizing cluster with
  | nil => exact Option.or_none.symm
  | cons url urls ih =>
    rw [List.foldl_cons, ih, getElem?_add, firstOf, firstOf, List.find?_cons]
    cases cluster.members[name]? with
    | some node => simp
    | none =>
      by_cases hn : nodeName url = name
      · simp [hn, Node.make]
      · simp [hn]

/-- At most one node is listed under a name, the one that is managed under it. -/
theorem Sound.filter_name (h : cluster.Sound) (name : String) :
    cluster.toList.filter (fun node => node.name = name) = (cluster.members[name]?).toList :=
  OrderedMap.filter_values (fun name node hnode => (h.named name node hnode).1) name

/-! ## Keys and their URLs -/

/-- What a cluster is asked and told while its nodes stay as they are. -/
def Action.uses : Action → Bool
  | .report _ _ => true
  | .get _ => true
  | .list => true
  | .distribute _ => true
  | .route _ => true
  | .add _ => false
  | .remove _ => false
  | .rebind _ => false

/-- A sound cluster that manages the first of each name of these URLs, and in which bound keys have their nodes. -/
structure Serving (urls : List String) (cluster : Cluster) : Prop where
  sound : cluster.Sound
  claims : 0 < cluster.ring.placement.claims
  first : ∀ name : String, (cluster.members[name]?).map Node.url = firstOf urls name
  bound : ∀ (hash : UInt64) (name : String), cluster.bindings.get? hash = some name → name ∈ cluster.members

theorem Serving.distribute (h : cluster.Serving urls) (key : ByteArray) : (cluster.distribute key).2.Serving urls := by
  have hmembers := members_distribute cluster key
  refine ⟨h.sound.apply (.distribute key), (cluster.placement_apply (.distribute key)) ▸ h.claims, fun name => ?_,
    fun hash name hbound => ?_⟩
  · rw [hmembers]
    exact h.first name
  · rw [hmembers]
    cases hfree : cluster.bindings.get? hash with
    | some bound =>
      have hstill : (cluster.apply (.distribute key)).bindings.get? hash = some bound := bound_apply hfree rfl
      rw [Cluster.apply, hbound, Option.some_inj] at hstill
      exact hstill ▸ h.bound hash bound hfree
    | none =>
      -- it was bound just now, to the node that the key was given
      obtain ⟨-, node, hgiven, rfl⟩ := distributed_of_bound hfree hbound
      obtain ⟨name, hnode⟩ := h.sound.distribute_managed hgiven
      rw [(h.sound.named name node hnode).1]
      exact mem_members_iff.mpr ⟨node, hnode⟩

theorem Serving.apply (h : cluster.Serving urls) {action : Action} (huses : action.uses = true) :
    (cluster.apply action).Serving urls := by
  cases action with
  | report url epoch =>
    have hsound := h.sound.apply (.report url epoch)
    rw [Cluster.apply, reportEpoch] at hsound ⊢
    split
    · rename_i hmanaged
      rw [if_pos hmanaged] at hsound
      exact ⟨hsound, h.claims, h.first, h.bound⟩
    · exact h
  | get | list => exact h
  | distribute key | route key => exact h.distribute key
  | add | remove | rebind => cases huses

theorem Serving.foldl (h : cluster.Serving urls) {actions : List Action}
    (huses : ∀ action ∈ actions, action.uses = true) :
    (actions.foldl Cluster.apply cluster).Serving urls :=
  List.foldlRecOn actions Cluster.apply h fun _ hserving action hin => hserving.apply (huses action hin)

/-- A new cluster of trimmed URLs serves them. -/
theorem serving_ofUrls (hash : ByteArray → UInt64) (virtualNodes : Nat) (keep : Bool)
    (htrimmed : ∀ url ∈ urls, Text.trim url = url) :
    (ofUrls (.make hash virtualNodes) (.make keep) urls).Serving urls := by
  refine ⟨sound_ofUrls _ _ urls, ?_, fun name => ?_, fun hash name hbound => ?_⟩
  · rw [ofUrls_placement]
    exact Ring.make_claims_pos hash virtualNodes
  · have hnone : (empty (.make hash virtualNodes) (.make keep)).members[name]? = none := Std.TreeMap.getElem?_emptyc
    rw [ofUrls, url_foldl_add, hnone, Option.map_none, Option.none_or]
    cases hfirst : firstOf urls name with
    | none => rfl
    | some url => rw [Option.map_some, htrimmed url (List.mem_of_find?_eq_some hfirst)]
  · have hfree : (Bindings.make keep).get? hash = none := by
      cases keep <;> exact Std.TreeMap.getElem?_emptyc
    rw [ofUrls_bindings, hfree] at hbound
    cases hbound

/-- The node that a key goes to has the first URL of its name. -/
theorem Serving.firstOf_url (h : cluster.Serving urls) {key : ByteArray} {node : Node}
    (hgiven : (cluster.distribute key).1 = some node) : firstOf urls (nodeName node.url) = some node.url := by
  obtain ⟨name, hnode⟩ := h.sound.distribute_managed hgiven
  rw [(h.sound.named name node hnode).2, ← h.first, hnode, Option.map_some]

/-- As long as there are URLs every key goes to a node. -/
theorem Serving.exists_distribute (h : cluster.Serving urls) (hurls : urls ≠ []) (key : ByteArray) :
    ∃ node, (cluster.distribute key).1 = some node := by
  cases hbound : cluster.bindings.get? (cluster.ring.placement.hash key) with
  | some name =>
    obtain ⟨node, hnode⟩ := mem_members_iff.mp (h.bound _ name hbound)
    exact ⟨node, by rw [distribute_of_bound hbound, hnode]⟩
  | none =>
    cases howner : cluster.ring.locate key with
    | some node => exact ⟨node, by rw [distribute_of_free hbound howner]⟩
    | none =>
      obtain ⟨url, rest, rfl⟩ := List.exists_cons_of_ne_nil hurls
      have hsome := firstOf_isSome (List.mem_cons_self (a := url) (l := rest))
      have hnobody := h.sound.exact.locate_eq_none h.claims howner (nodeName url)
      rw [Bool.eq_false_iff, Ne, Ring.contains_iff_get?, h.sound.placed] at hnobody
      rw [← h.first, Option.isSome_map, Option.isSome_iff_exists] at hsome
      exact absurd hsome hnobody

theorem Serving.firstOf_route (h : cluster.Serving urls) (hurls : urls ≠ []) (key : ByteArray) :
    firstOf urls (nodeName (cluster.route key).1) = some (cluster.route key).1 := by
  obtain ⟨node, hgiven⟩ := h.exists_distribute hurls key
  have hroute : (cluster.route key).1 = node.url := by
    show ((cluster.distribute key).1.map Node.url).getD "" = node.url
    rw [hgiven]
    rfl
  rw [hroute]
  exact h.firstOf_url hgiven

theorem Serving.route_nil (h : cluster.Serving []) (key : ByteArray) : (cluster.route key).1 = "" := by
  show ((cluster.distribute key).1.map Node.url).getD "" = ""
  cases hgiven : (cluster.distribute key).1 with
  | none => rfl
  | some node => cases h.firstOf_url hgiven

end Cluster

namespace Settings

open Cluster

/-! ## From the environment to the nodes -/

/-- Whatever text the URLs are given as, if nothing else in the environment is refused: they are those that the pieces
between its commas list, and pieces with other blanks that list the same give them again. With any number of virtual
nodes, and with keys that stay or without, the cluster has one node for each of their names, at the first URL of that
name, and routes every key to one of these; only if there are none does it route keys nowhere. -/
theorem routes_of_environment {env : Environment} {raw : String} (hraw : env.text? "FULLNODE_URLS" = some raw)
    (htimeout : (given? env "GET_LOGS_TIMEOUT_MS" parseNumber default.timeoutMs).isSome = true)
    (hflag : (given? env "HASH_RING_REPARTITION" parseFlag default.repartition).isSome = true) :
    ∃ settings, ofEnvironment env = .ok settings ∧
      (∃ pieces : List String, ",".intercalate pieces = raw ∧ (∀ piece ∈ pieces, ',' ∉ piece.toList) ∧
        Lists pieces settings.nodeUrls) ∧
      (∀ pieces, Lists pieces settings.nodeUrls → parseUrls (",".intercalate pieces) = settings.nodeUrls) ∧
      ∀ (virtualNodes : UInt64) (repartition : Bool),
        let cluster := { settings with virtualNodes, repartition }.cluster
        (∀ name, (cluster.toList.filter fun node => node.name = name).map Node.url =
          (settings.nodeUrls.find? fun url => nodeName url = name).toList) ∧
        ∀ actions : List Action, (∀ action ∈ actions, action.uses = true) → ∀ key,
          let url := ((actions.foldl apply cluster).route key).1
          (settings.nodeUrls = [] → url = "") ∧
            (settings.nodeUrls ≠ [] → url ∈ settings.nodeUrls ∧ url ≠ "" ∧
              (settings.nodeUrls.find? fun other => nodeName other = nodeName url) = some url) := by
  obtain ⟨timeoutMs, htimeout⟩ := Option.isSome_iff_exists.mp htimeout
  obtain ⟨flag, hflag⟩ := Option.isSome_iff_exists.mp hflag
  obtain ⟨settings, hok, hnodes⟩ : ∃ settings, ofEnvironment env = .ok settings ∧ settings.nodeUrls = parseUrls raw :=
    ⟨⟨parseUrls raw, timeoutMs, flag, virtualNodesOf env⟩,
      ofEnvironment_eq_ok_iff.mpr ⟨by rw [hraw]; rfl, htimeout, hflag, rfl⟩, rfl⟩
  obtain ⟨pieces, hjoin, hpieces, hlists⟩ := parseUrls_lists raw
  rw [← hnodes] at hlists
  refine ⟨settings, hok, ⟨pieces, hjoin, hpieces, hlists⟩, fun others hothers => ?_, ?_⟩
  · -- a comma in a URL would be one in a piece of the text
    refine parseUrls_intercalate hothers fun url hurl hcomma => ?_
    obtain ⟨-, -, piece, hpiece, hin⟩ := hlists.of_mem hurl
    exact hpieces piece hpiece (hin ',' hcomma)
  intro virtualNodes repartition cluster
  have htrimmed : ∀ url ∈ settings.nodeUrls, Text.trim url = url := fun url hurl => by
    rw [Text.trim, (hlists.of_mem hurl).1.trimChars_eq, String.ofList_toList]
  have hcluster : cluster.Serving settings.nodeUrls := serving_ofUrls digest virtualNodes.toNat repartition htrimmed
  constructor
  · intro name
    have hfirst := hcluster.first name
    rw [firstOf] at hfirst
    rw [hcluster.sound.filter_name, ← hfirst]
    cases cluster.members[name]? <;> rfl
  · intro actions huses key url
    have hserving := hcluster.foldl huses
    constructor
    · intro hnone
      rw [hnone] at hserving
      exact hserving.route_nil key
    · intro hsome
      have hfirst := hserving.firstOf_route hsome key
      have hmem := List.mem_of_find?_eq_some hfirst
      exact ⟨hmem, (hlists.of_mem hmem).2.1, hfirst⟩

/-- Two spellings of one URL with blanks and a blank piece between them. -/
def spelledEnvironment : Environment := fun name =>
  if name = "FULLNODE_URLS" then some (Utf8.encode " http://a , ,HTTP://A/") else none

theorem routes_of_environment_spelled :
    spelledEnvironment.text? "FULLNODE_URLS" = some " http://a , ,HTTP://A/" ∧
    ofEnvironment spelledEnvironment = .ok ⟨["http://a", "HTTP://A/"], 60000, false, 160⟩ ∧
    ∀ key, ((⟨["http://a", "HTTP://A/"], 60000, true, 0⟩ : Settings).cluster.route key).1 = "http://a" := by
  have hraw : spelledEnvironment.text? "FULLNODE_URLS" = some " http://a , ,HTTP://A/" := rfl
  have hsettings : ofEnvironment spelledEnvironment = .ok ⟨["http://a", "HTTP://A/"], 60000, false, 160⟩ := rfl
  have htimeout : (given? spelledEnvironment "GET_LOGS_TIMEOUT_MS" parseNumber default.timeoutMs).isSome = true := rfl
  have hflag : (given? spelledEnvironment "HASH_RING_REPARTITION" parseFlag default.repartition).isSome = true := rfl
  obtain ⟨settings, hok, -, -, hroutes⟩ := routes_of_environment hraw htimeout hflag
  cases Except.ok.inj (hok.symm.trans hsettings)
  refine ⟨hraw, hsettings, fun key => ?_⟩
  obtain ⟨-, hurl⟩ := (hroutes 0 true).2 [] (List.forall_mem_nil _) key
  obtain ⟨hmem, -, hfirst⟩ := hurl (List.cons_ne_nil _ _)
  have hspelled : (["http://a", "HTTP://A/"].find? fun other => nodeName other = nodeName "HTTP://A/") =
      some "http://a" := by decide
  rcases List.mem_cons.mp hmem with heq | hmem
  · exact heq
  · have heq := List.mem_singleton.mp hmem
    rw [heq] at hfirst
    exact absurd (hspelled.symm.trans hfirst) (by decide)

end Settings

end LogGateway
