/-
Which URLs name the same node. Main statement: the name of a URL is the URL itself with its scheme and authority in
lower case, whatever blanks stand around it and slashes at its end, so that two URLs name one node exactly if they
differ in nothing else.
-/
import LogGateway.Cluster.Node
import LogGateway.Proofs.Text.Pieces

namespace LogGateway

variable {cs ds : List Char}

/-! ## Lower case -/

theorem lowerCase_append (cs ds : List Char) : lowerCase (cs ++ ds) = lowerCase cs ++ lowerCase ds := List.map_append

theorem lowerCase_lowerCase (cs : List Char) : lowerCase (lowerCase cs) = lowerCase cs := by
  unfold lowerCase
  rw [List.map_map]
  exact List.map_congr_left fun c _ => Text.toLower_toLower c

/-- Characters before the capitals are in a text exactly if they are in it in lower case. -/
theorem mem_lowerCase_iff {d : Char} (hd : d.toNat < 65) : d ∈ lowerCase cs ↔ d ∈ cs := by
  simp [lowerCase, Text.toLower_eq_iff hd]

/-- A text without capitals is had in lower case from itself alone. -/
theorem lowerCase_eq_iff (hds : ∀ d ∈ ds, d.toNat < 65) : lowerCase cs = ds ↔ cs = ds := by
  induction cs generalizing ds with
  | nil => simp [lowerCase]
  | cons c cs ih =>
    cases ds with
    | nil => simp [lowerCase]
    | cons d ds =>
      obtain ⟨hd, hds⟩ := List.forall_mem_cons.mp hds
      show c.toLower :: lowerCase cs = d :: ds ↔ c :: cs = d :: ds
      rw [List.cons.injEq, List.cons.injEq, Text.toLower_eq_iff hd, ih hds]

/-- Lower case neither makes nor takes a mark behind a scheme. -/
theorem mark_infix_lowerCase_iff : "://".toList <:+: lowerCase cs ↔ "://".toList <:+: cs := by
  unfold lowerCase
  rw [List.infix_map_iff]
  constructor
  · rintro ⟨mark, hmark, hlower⟩
    rwa [← (lowerCase_eq_iff (by simp)).mp hlower.symm]
  · exact fun h => ⟨_, h, by decide⟩

/-! ## The parts of a URL -/

/-- An address is split at its first slash. -/
theorem splitPath_append {authority path : List Char} (hauthority : '/' ∉ authority)
    (hpath : ∀ c ∈ path.head?, c = '/') : splitPath (authority ++ path) = (authority, path) := by
  have hall : ∀ c ∈ authority, decide (c ≠ '/') = true := by
    rintro c hc
    rw [decide_eq_true_iff]
    rintro rfl
    exact hauthority hc
  unfold splitPath
  rw [List.takeWhile_append_of_pos hall, List.dropWhile_append_of_pos hall]
  cases path with
  | nil => simp
  | cons c path =>
    obtain rfl := hpath c rfl
    simp

theorem splitPath_spec (address : List Char) : (splitPath address).1 ++ (splitPath address).2 = address ∧
    '/' ∉ (splitPath address).1 ∧ ∀ c ∈ (splitPath address).2.head?, c = '/' := by
  unfold splitPath
  refine ⟨List.takeWhile_append_dropWhile, fun hslash => ?_, fun c hc => ?_⟩
  · simpa using List.all_eq_true.mp List.all_takeWhile _ hslash
  · have hhead := List.head?_dropWhile_not (· ≠ '/') address
    have hfirst : (address.dropWhile (· ≠ '/')).head? = some c := hc
    rw [hfirst] at hhead
    simpa using hhead

/-- A scheme, if there is one, an authority and a path. -/
structure UrlParts where
  scheme : Option (List Char)
  authority : List Char
  path : List Char

namespace UrlParts

variable {parts other : UrlParts}

/-- The URL with these parts. -/
def chars (parts : UrlParts) : List Char :=
  match parts.scheme with
  | some scheme => scheme ++ ("://".toList ++ (parts.authority ++ parts.path))
  | none => parts.authority ++ parts.path

/-- The parts of a URL. -/
def ofChars (url : List Char) : UrlParts :=
  match Text.cutOnce "://".toList url with
  | some (scheme, rest) => ⟨some scheme, (splitPath rest).1, (splitPath rest).2⟩
  | none => ⟨none, (splitPath url).1, (splitPath url).2⟩

/-- The same parts, scheme and authority in lower case. -/
def lowered (parts : UrlParts) : UrlParts :=
  ⟨parts.scheme.map lowerCase, lowerCase parts.authority, parts.path⟩

/-- Parts that are told apart in a URL: the first mark is the one behind the scheme, and the first slash behind that
begins the path. -/
structure Legible (parts : UrlParts) : Prop where
  scheme : ∀ scheme ∈ parts.scheme, ¬ "://".toList <:+: scheme ++ "://".toList.dropLast
  bare : parts.scheme = none → ¬ "://".toList <:+: parts.authority ++ parts.path
  authority : '/' ∉ parts.authority
  path : ∀ c ∈ parts.path.head?, c = '/'

/-- Legible parts are read off their URL. -/
theorem Legible.ofChars_chars (h : parts.Legible) : ofChars parts.chars = parts := by
  obtain ⟨scheme, authority, path⟩ := parts
  have hsplit := splitPath_append h.authority h.path
  unfold ofChars chars
  cases scheme with
  | none =>
    have huncut := (Text.cutOnce_eq_none_iff (by decide)).mpr (h.bare rfl)
    simp only [huncut, hsplit]
  | some scheme =>
    have hcut := Text.cutOnce_append (by decide) (h.scheme scheme rfl) (authority ++ path)
    simp only [hcut, hsplit]

/-- Different legible parts have different URLs. -/
theorem Legible.chars_inj (h : parts.Legible) (h' : other.Legible) : parts.chars = other.chars ↔ parts = other := by
  constructor
  · intro hchars
    rw [← h.ofChars_chars, hchars, h'.ofChars_chars]
  · rintro rfl
    rfl

/-- Every URL is that of its parts, and these are legible. -/
theorem ofChars_spec (url : List Char) : (ofChars url).chars = url ∧ (ofChars url).Legible := by
  unfold ofChars
  split
  · rename_i scheme rest hcut
    obtain ⟨hurl, hfirst⟩ := Text.cutOnce_spec (by decide) hcut
    obtain ⟨hjoin, hauthority, hpath⟩ := splitPath_spec rest
    refine ⟨?_, ?_, nofun, hauthority, hpath⟩
    · rw [hurl, chars, hjoin]
    · rintro _ ⟨⟩
      exact hfirst
  · rename_i huncut
    obtain ⟨hjoin, hauthority, hpath⟩ := splitPath_spec url
    refine ⟨hjoin, nofun, fun _ => ?_, hauthority, hpath⟩
    rw [hjoin]
    exact (Text.cutOnce_eq_none_iff (by decide)).mp huncut

/-- Lower case does not change how a URL is read. -/
theorem Legible.lowered (h : parts.Legible) : parts.lowered.Legible := by
  refine ⟨?_, fun hnone => ?_, ?_, h.path⟩
  · rintro _ hlower
    obtain ⟨scheme, hscheme, rfl⟩ := Option.map_eq_some_iff.mp hlower
    have hfirst := h.scheme scheme hscheme
    rwa [← mark_infix_lowerCase_iff, lowerCase_append] at hfirst
  · have hbare := h.bare (Option.map_eq_none_iff.mp hnone)
    rw [← mark_infix_lowerCase_iff, lowerCase_append] at hbare ⊢
    exact (lowerCase_lowerCase _).symm ▸ hbare
  · exact mt (mem_lowerCase_iff (by decide)).mp h.authority

theorem lowered_lowered (parts : UrlParts) : parts.lowered.lowered = parts.lowered := by
  simp [lowered, Function.comp_def, lowerCase_lowerCase]

/-- In lower case a URL and its lowered form are the same. -/
theorem lowerCase_chars_lowered (parts : UrlParts) : lowerCase parts.lowered.chars = lowerCase parts.chars := by
  obtain ⟨scheme, authority, path⟩ := parts
  unfold chars lowered
  cases scheme with
  | none => simp only [Option.map_none, lowerCase_append, lowerCase_lowerCase]
  | some scheme => simp only [Option.map_some, lowerCase_append, lowerCase_lowerCase]

end UrlParts

/-- A URL without the blanks around it and the slashes at its end. -/
def bareUrl (cs : List Char) : List Char := Text.dropEndWhile (· = '/') (Text.trimChars cs)

theorem normalUrl_eq (cs : List Char) : normalUrl cs = (UrlParts.ofChars (bareUrl cs)).lowered.chars := by
  have hcases : normalUrl cs =
      match Text.cutOnce "://".toList (bareUrl cs) with
      | some (scheme, rest) => lowerCase scheme ++ "://".toList ++ normalAddress rest
      | none => normalAddress (bareUrl cs) := rfl
  rw [hcases]
  unfold UrlParts.ofChars
  split
  · exact List.append_assoc ..
  · rfl

theorem lowerCase_normalUrl (cs : List Char) : lowerCase (normalUrl cs) = lowerCase (bareUrl cs) := by
  rw [normalUrl_eq, UrlParts.lowerCase_chars_lowered, (UrlParts.ofChars_spec _).1]

/-- A name has the mark behind a scheme exactly if its URL has it once nothing is left to drop. -/
theorem mark_infix_normalUrl_iff : "://".toList <:+: normalUrl cs ↔ "://".toList <:+: bareUrl cs := by
  rw [← mark_infix_lowerCase_iff, lowerCase_normalUrl, mark_infix_lowerCase_iff]

/-! ## Spellings -/

namespace UrlParts

variable {parts other : UrlParts} {url url' : String}

/-- Parts of a URL that has nothing to drop: neither blanks nor slashes at its ends. Its scheme has no colon, and without
a scheme it has no mark of one. -/
structure Plain (parts : UrlParts) : Prop where
  scheme : ∀ scheme ∈ parts.scheme, ':' ∉ scheme
  bare : parts.scheme = none → ¬ "://".toList <:+: parts.chars
  authority : '/' ∉ parts.authority
  path : ∀ c ∈ parts.path.head?, c = '/'
  trimmed : Text.Trimmed parts.chars
  last : '/' ∉ parts.chars.getLast?

/-- A URL spells its parts, with blanks around it or without, and with any number of slashes at its end. -/
def Spells (parts : UrlParts) (url : String) : Prop :=
  ∃ before slashes after : List Char, url.toList = before ++ (parts.chars ++ slashes) ++ after ∧
    (∀ c ∈ before, Text.isBlank c = true) ∧ (∀ c ∈ slashes, c = '/') ∧ ∀ c ∈ after, Text.isBlank c = true

theorem Plain.legible (h : parts.Plain) : parts.Legible := by
  constructor
  case scheme => exact fun scheme hscheme => Text.not_infix_of_not_mem (h.scheme scheme hscheme)
  case bare =>
    intro hnone
    have hbare := h.bare hnone
    rwa [chars, hnone] at hbare
  case authority => exact h.authority
  case path => exact h.path

/-- Behind all its slashes a URL may have blanks, but it has none before them. -/
theorem Plain.bareUrl_eq (h : parts.Plain) (hurl : parts.Spells url) : bareUrl url.toList = parts.chars := by
  obtain ⟨before, slashes, after, htext, hbefore, hslashes, hafter⟩ := hurl
  have htrimmed : Text.Trimmed (parts.chars ++ slashes) :=
    h.trimmed.append fun c hc => by rw [hslashes c hc]; rfl
  unfold bareUrl
  rw [htext, Text.trimChars_surrounded hbefore _ hafter, htrimmed.trimChars_eq, Text.dropEndWhile_append]
  · refine Text.dropEndWhile_eq_self fun c hc => decide_eq_false ?_
    rintro rfl
    exact h.last hc
  · simpa using hslashes

theorem Plain.normalUrl_eq (h : parts.Plain) (hurl : parts.Spells url) :
    normalUrl url.toList = parts.lowered.chars := by
  rw [LogGateway.normalUrl_eq, h.bareUrl_eq hurl, h.legible.ofChars_chars]

/-- However a URL is spelled, it names its parts with scheme and authority in lower case. Two of them have one name
exactly if their schemes and authorities are the same in lower case and their paths are the same, and a URL without a
scheme shares its name with none that has the mark of one. -/
theorem nodeName_spelled (h : parts.Plain) (h' : other.Plain) (hurl : parts.Spells url) (hurl' : other.Spells url') :
    nodeName url = String.ofList parts.lowered.chars ∧
    (nodeName url = nodeName url' ↔ parts.scheme.map lowerCase = other.scheme.map lowerCase ∧
      lowerCase parts.authority = lowerCase other.authority ∧ parts.path = other.path) ∧
    (parts.scheme = none → ∀ marked : String, "://".toList <:+: bareUrl marked.toList →
      nodeName marked ≠ nodeName url) := by
  have hname : nodeName url = String.ofList parts.lowered.chars := congrArg String.ofList (h.normalUrl_eq hurl)
  have hname' : nodeName url' = String.ofList other.lowered.chars := congrArg String.ofList (h'.normalUrl_eq hurl')
  refine ⟨hname, ?_, ?_⟩
  · rw [hname, hname', String.ofList_inj, h.legible.lowered.chars_inj h'.legible.lowered]
    exact UrlParts.mk.injEq .. ▸ Iff.rfl
  · intro hnone marked hmark hsame
    have hnormal : normalUrl marked.toList = normalUrl url.toList := String.ofList_injective hsame
    rw [← mark_infix_normalUrl_iff, hnormal, mark_infix_normalUrl_iff, h.bareUrl_eq hurl] at hmark
    exact h.bare hnone hmark

/-- The path keeps its capitals, and a mark within it is not that of a scheme. The host alone is another node. -/
theorem nodeName_spelled_ws :
    nodeName "\t HTTP://Node:1/Ws://X// " = "http://node:1/Ws://X" ∧
      nodeName "\t HTTP://Node:1/Ws://X// " = nodeName "http://NODE:1/Ws://X" ∧
      nodeName "Node:1/" = "node:1" ∧ nodeName "\t HTTP://Node:1/Ws://X// " ≠ nodeName "Node:1/" := by
  let parts : UrlParts := ⟨some "HTTP".toList, "Node:1".toList, "/Ws://X".toList⟩
  let other : UrlParts := ⟨some "http".toList, "NODE:1".toList, "/Ws://X".toList⟩
  let host : UrlParts := ⟨none, "Node:1".toList, []⟩
  have hparts : parts.Plain := by
    refine ⟨?_, by rintro ⟨⟩, by decide, ?_, ⟨?_, ?_⟩, by decide⟩ <;> rintro _ ⟨⟩ <;> decide
  have hother : other.Plain := by
    refine ⟨?_, by rintro ⟨⟩, by decide, ?_, ⟨?_, ?_⟩, by decide⟩ <;> rintro _ ⟨⟩ <;> decide
  have hhost : host.Plain := by
    refine ⟨?_, fun _ => by decide +kernel, by decide, ?_, ⟨?_, ?_⟩, by decide⟩ <;> rintro _ ⟨⟩ <;> decide
  have hurl : parts.Spells "\t HTTP://Node:1/Ws://X// " :=
    ⟨"\t ".toList, "//".toList, " ".toList, by decide, by simp [Text.isBlank], by simp, by simp [Text.isBlank]⟩
  have hurl' : other.Spells "http://NODE:1/Ws://X" := ⟨[], [], [], by decide, by simp, by simp, by simp⟩
  have hbare : host.Spells "Node:1/" := ⟨[], "/".toList, [], by decide, by simp, by simp, by simp⟩
  obtain ⟨hname, hsame, -⟩ := nodeName_spelled hparts hother hurl hurl'
  obtain ⟨hhostname, -, hapart⟩ := nodeName_spelled hhost hparts hbare hurl
  have hmark : "://".toList <:+: bareUrl "\t HTTP://Node:1/Ws://X// ".toList := by
    rw [hparts.bareUrl_eq hurl]
    exact ⟨"HTTP".toList, "Node:1/Ws://X".toList, by decide⟩
  exact ⟨hname, hsame.mpr (by decide), hhostname, hapart rfl _ hmark⟩

end UrlParts

end LogGateway
