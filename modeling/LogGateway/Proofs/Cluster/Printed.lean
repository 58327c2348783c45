/-
Names in the place of URLs. A name has nothing to drop but for a blank at its end, which it keeps if only slashes stood
behind that blank. Main statement: without such a blank a name is its own name, so that it finds, adds and removes its
node as the URL does; with one it is the name of another node.
-/
import LogGateway.Proofs.Cluster.Lifecycle
import LogGateway.Proofs.Cluster.Naming

namespace LogGateway

variable {cs : List Char}

/-! ## What is left of a URL -/

theorem bareUrl_prefix_trimChars (cs : List Char) : bareUrl cs <+: Text.trimChars cs := by
  obtain ⟨⟨slashes, hsplit, -⟩, -⟩ := Text.dropEndWhile_spec (· = '/') (Text.trimChars cs)
  exact ⟨slashes, hsplit.symm⟩

theorem head?_bareUrl (cs : List Char) : ∀ c ∈ (bareUrl cs).head?, Text.isBlank c = false := by
  obtain ⟨slashes, hsplit⟩ := bareUrl_prefix_trimChars cs
  intro c hc
  refine (Text.trimChars_spec cs).1.first c ?_
  rw [← hsplit, List.head?_append]
  exact Option.or_eq_some_iff.mpr (.inl hc)

theorem getLast?_bareUrl (cs : List Char) : ∀ c ∈ (bareUrl cs).getLast?, c ≠ '/' := by
  intro c hc
  exact of_decide_eq_false ((Text.dropEndWhile_spec (· = '/') (Text.trimChars cs)).2 c hc)

/-- Nothing is dropped from a text that has no blanks at its ends and no slash at the end. -/
theorem bareUrl_eq_self (h : Text.Trimmed cs) (hlast : ∀ c ∈ cs.getLast?, c ≠ '/') : bareUrl cs = cs := by
  unfold bareUrl
  rw [h.trimChars_eq]
  exact Text.dropEndWhile_eq_self fun c hc => decide_eq_false (hlast c hc)

/-- A text that ends in a blank. -/
def Frayed (cs : List Char) : Prop := ∃ c ∈ cs.getLast?, Text.isBlank c = true

theorem not_frayed_iff : ¬ Frayed cs ↔ ∀ c ∈ cs.getLast?, Text.isBlank c = false := by
  simp [Frayed]

/-- The slashes are dropped after the blanks, so that a blank right before them is the last to stay. -/
theorem frayed_bareUrl_iff : Frayed (bareUrl cs) ↔ ∃ (front : List Char) (blank : Char) (slashes : List Char),
    Text.trimChars cs = front ++ blank :: slashes ∧ Text.isBlank blank = true ∧ ∀ c ∈ slashes, c = '/' := by
  constructor
  · rintro ⟨blank, hlast, hblank⟩
    obtain ⟨⟨slashes, hsplit, hslashes⟩, -⟩ := Text.dropEndWhile_spec (· = '/') (Text.trimChars cs)
    obtain ⟨front, hfront⟩ := List.getLast?_eq_some_iff.mp hlast
    refine ⟨front, blank, slashes, ?_, hblank, by simpa using hslashes⟩
    rw [hsplit, ← bareUrl, hfront, List.append_assoc]
    rfl
  · rintro ⟨front, blank, slashes, hsplit, hblank, hslashes⟩
    have hbare : bareUrl cs = front ++ [blank] := by
      unfold bareUrl
      rw [hsplit, List.append_cons, Text.dropEndWhile_append _ (by simpa using hslashes)]
      refine Text.dropEndWhile_eq_self fun c hc => decide_eq_false ?_
      rintro rfl
      obtain rfl : blank = '/' := by simpa using hc
      cases hblank
    exact ⟨blank, by simp [hbare], hblank⟩

/-! ## The ends of a name -/

/-- Characters that are the same in lower case are told apart by no property that lower case does not change. -/
theorem forall_mem_iff_of_lower {P : Char → Prop} (hP : ∀ c : Char, P c.toLower ↔ P c) {c? d? : Option Char}
    (h : c?.map Char.toLower = d?.map Char.toLower) : (∀ c ∈ c?, P c) ↔ ∀ d ∈ d?, P d := by
  have hlower (c? : Option Char) : (∀ c ∈ c?.map Char.toLower, P c) ↔ ∀ c ∈ c?, P c := by simp [hP]
  rw [← hlower, h, hlower]

theorem forall_head?_normalUrl {P : Char → Prop} (hP : ∀ c : Char, P c.toLower ↔ P c) :
    (∀ c ∈ (normalUrl cs).head?, P c) ↔ ∀ c ∈ (bareUrl cs).head?, P c := by
  refine forall_mem_iff_of_lower hP ?_
  simpa [lowerCase] using congrArg List.head? (lowerCase_normalUrl cs)

theorem forall_getLast?_normalUrl {P : Char → Prop} (hP : ∀ c : Char, P c.toLower ↔ P c) :
    (∀ c ∈ (normalUrl cs).getLast?, P c) ↔ ∀ c ∈ (bareUrl cs).getLast?, P c := by
  refine forall_mem_iff_of_lower hP ?_
  simpa [lowerCase] using congrArg List.getLast? (lowerCase_normalUrl cs)

theorem blank_toLower_iff (c : Char) : Text.isBlank c.toLower = false ↔ Text.isBlank c = false := by
  rw [Text.isBlank_toLower]

/-- A name does not begin with a blank. -/
theorem head?_normalUrl (cs : List Char) : ∀ c ∈ (normalUrl cs).head?, Text.isBlank c = false :=
  (forall_head?_normalUrl blank_toLower_iff).mpr (head?_bareUrl cs)

/-- A name does not end in a slash. -/
theorem getLast?_normalUrl (cs : List Char) : ∀ c ∈ (normalUrl cs).getLast?, c ≠ '/' :=
  (forall_getLast?_normalUrl fun _ => not_congr (Text.toLower_eq_iff (by decide))).mpr (getLast?_bareUrl cs)

theorem frayed_normalUrl_iff : Frayed (normalUrl cs) ↔ Frayed (bareUrl cs) := by
  have hends : ¬ Frayed (normalUrl cs) ↔ ¬ Frayed (bareUrl cs) := by
    rw [not_frayed_iff, not_frayed_iff]
    exact forall_getLast?_normalUrl blank_toLower_iff
  exact Classical.not_not.symm.trans ((not_congr hends).trans Classical.not_not)

/-! ## Names of names -/

theorem length_normalUrl (cs : List Char) : (normalUrl cs).length = (bareUrl cs).length := by
  have hlower (ds : List Char) : (lowerCase ds).length = ds.length := List.length_map ..
  rw [← hlower, lowerCase_normalUrl, hlower]

/-- The parts of a name are in lower case already, so that it only changes if something is dropped from it again. -/
theorem normalUrl_eq_self_iff : normalUrl (normalUrl cs) = normalUrl cs ↔ bareUrl (normalUrl cs) = normalUrl cs := by
  constructor
  · intro hsame
    -- a name is as long as what was left of its URL, so that nothing was dropped
    have hsub : (bareUrl (normalUrl cs)).Sublist (normalUrl cs) :=
      (bareUrl_prefix_trimChars _).sublist.trans (Text.trimChars_infix _).sublist
    exact hsub.eq_of_length (by rw [← length_normalUrl, hsame])
  · intro hbare
    obtain ⟨-, hlegible⟩ := UrlParts.ofChars_spec (bareUrl cs)
    rw [normalUrl_eq (normalUrl cs), hbare, normalUrl_eq cs, hlegible.lowered.ofChars_chars, UrlParts.lowered_lowered]

theorem normalUrl_normalUrl_iff : normalUrl (normalUrl cs) = normalUrl cs ↔ ¬ Frayed (normalUrl cs) := by
  rw [normalUrl_eq_self_iff]
  constructor
  · intro hbare
    have htrimmed : Text.trimChars (normalUrl cs) = normalUrl cs := by
      have hle := (bareUrl_prefix_trimChars (normalUrl cs)).length_le
      rw [hbare] at hle
      exact (Text.trimChars_infix _).sublist.eq_of_length_le hle
    rw [not_frayed_iff, ← htrimmed]
    exact (Text.trimChars_spec _).1.last
  · intro hlast
    exact bareUrl_eq_self ⟨head?_normalUrl cs, not_frayed_iff.mp hlast⟩ (getLast?_normalUrl cs)

theorem nodeName_nodeName_iff {url : String} :
    nodeName (nodeName url) = nodeName url ↔ ¬ Frayed (nodeName url).toList := by
  unfold nodeName
  rw [String.ofList_inj, String.toList_ofList, normalUrl_normalUrl_iff]

/-! ## Names in the place of URLs -/

namespace Cluster

variable {cluster : Cluster} {name url : String} {node : Node}

/-- What is done at a URL is done under its name. -/
theorem remove_congr {other : String} (h : nodeName other = nodeName url) :
    cluster.remove other = cluster.remove url := by
  unfold remove
  rw [h]

/-- A name that is its own name stands for the URL. -/
theorem Sound.at_name (h : cluster.Sound) (hnode : cluster.members[name]? = some node)
    (hself : nodeName node.name = node.name) :
    cluster.get? node.name = some node ∧ cluster.add node.name = cluster ∧
      cluster.remove node.name = cluster.remove node.url := by
  obtain ⟨rfl, hurl⟩ := h.named name node hnode
  refine ⟨?_, ?_, remove_congr (hself.trans hurl.symm)⟩
  · rw [get?, hself]
    exact hnode
  · apply add_of_contains
    rw [hself]
    exact contains_iff.2 ⟨node, hnode⟩

/-- A name that is not its own name stands for another node. -/
theorem Sound.beside_name (h : cluster.Sound) (hnode : cluster.members[name]? = some node)
    (hother : nodeName node.name ≠ node.name) :
    cluster.get? node.name ≠ some node ∧
      (∃ other, (cluster.add node.name).get? node.name = some other ∧ other.name ≠ node.name) ∧
      (cluster.remove node.name).get? node.url = some node := by
  obtain ⟨rfl, hurl⟩ := h.named name node hnode
  refine ⟨fun hget => hother (h.named _ node hget).1.symm, ?_, ?_⟩
  · obtain ⟨other, hget⟩ := cluster.exists_get?_add node.name
    exact ⟨other, hget, fun hsame => hother (((h.add node.name).named _ other hget).1.symm.trans hsame)⟩
  · rw [get?, getElem?_remove, hurl, if_neg hother.symm]
    exact hnode

/-- A name does not begin with a blank or end in a slash, and ends in a blank exactly if its URL has a blank with only
slashes behind it before the blanks at its end. Just then it is not its own name. In every cluster a managed node whose
name does not end in a blank is found, added and removed under its name as under its URL, and one whose name does is
not. -/
theorem names_stand_for_urls (placement : Placement) (bindings : Bindings) (urls : List String)
    (actions : List Action) :
    let cluster := actions.foldl apply (ofUrls placement bindings urls)
    (∀ url : String, (∀ c ∈ (nodeName url).toList.head?, Text.isBlank c = false) ∧
      (∀ c ∈ (nodeName url).toList.getLast?, c ≠ '/') ∧
      (Frayed (nodeName url).toList ↔ ∃ (front : List Char) (blank : Char) (slashes : List Char),
        Text.trimChars url.toList = front ++ blank :: slashes ∧ Text.isBlank blank = true ∧ ∀ c ∈ slashes, c = '/') ∧
      (nodeName (nodeName url) = nodeName url ↔ ¬ Frayed (nodeName url).toList)) ∧
    ∀ node ∈ cluster.toList,
      (¬ Frayed node.name.toList → cluster.get? node.name = some node ∧ cluster.add node.name = cluster ∧
        cluster.remove node.name = cluster.remove node.url) ∧
      (Frayed node.name.toList → cluster.get? node.name ≠ some node ∧
        (∃ other, (cluster.add node.name).get? node.name = some other ∧ other.name ≠ node.name) ∧
        (cluster.remove node.name).get? node.url = some node) := by
  intro cluster
  refine ⟨fun url => ⟨?_, ?_, ?_, nodeName_nodeName_iff⟩, fun node hin => ?_⟩
  · rw [nodeName, String.toList_ofList]
    exact head?_normalUrl _
  · rw [nodeName, String.toList_ofList]
    exact getLast?_normalUrl _
  · rw [nodeName, String.toList_ofList, frayed_normalUrl_iff, frayed_bareUrl_iff]
  · have hsound : cluster.Sound := (sound_ofUrls placement bindings urls).foldl actions
    obtain ⟨name, hnode⟩ := OrderedMap.mem_values_iff.1 hin
    obtain ⟨hname, hurl⟩ := hsound.named name node hnode
    -- the node's name is the name of its URL
    have hself := @nodeName_nodeName_iff node.url
    rw [hurl, ← hname] at hself
    constructor
    · exact fun hwhole => hsound.at_name hnode (hself.mpr hwhole)
    · exact fun hfrayed => hsound.beside_name hnode fun hsame => hself.mp hsame hfrayed

/-- Of two nodes one has a URL with a blank before its last slash. -/
theorem names_stand_for_urls_blank :
    let cluster := ofUrls byLength .off [" HTTP://A:1/ ", "http://b /"]
    nodeName "http://b /" = "http://b " ∧ cluster.get? "http://a:1" = some ⟨"http://a:1", "HTTP://A:1/", 0⟩ ∧
      cluster.remove "http://a:1" = cluster.remove "HTTP://A:1/" ∧
      (cluster.remove "http://b ").get? "http://b /" = some ⟨"http://b ", "http://b /", 1⟩ := by
  intro cluster
  obtain ⟨-, hnodes⟩ := names_stand_for_urls byLength .off [" HTTP://A:1/ ", "http://b /"] []
  rw [List.foldl_nil] at hnodes
  obtain ⟨hwhole, -⟩ := hnodes ⟨"http://a:1", "HTTP://A:1/", 0⟩ (by decide)
  obtain ⟨-, hfrayed⟩ := hnodes ⟨"http://b ", "http://b /", 1⟩ (by decide)
  obtain ⟨hget, -, hremove⟩ := hwhole (not_frayed_iff.mpr (by rintro _ ⟨⟩; rfl))
  obtain ⟨-, -, hstays⟩ := hfrayed ⟨' ', by decide, by decide⟩
  exact ⟨by decide, hget, hremove, hstays⟩

/-- A node that is managed under a name with a blank at its end. Under that name nobody is found and nobody leaves, but
another node joins. -/
theorem name_with_blank_before_slash :
    let cluster := ofUrls byLength .off ["http://a /"]
    nodeName "http://a /" = "http://a " ∧ nodeName "http://a " = "http://a" ∧ cluster.names = ["http://a "] ∧
      cluster.get? "http://a " = none ∧ (cluster.remove "http://a ").names = ["http://a "] ∧
      (cluster.add "http://a ").names = ["http://a", "http://a "] := by
  decide

end Cluster

end LogGateway
