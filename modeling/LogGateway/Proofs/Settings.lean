/-
The settings of an environment: when it is accepted, what each of them is then, and which URLs a list with commas
between them gives.
-/
import LogGateway.Settings
import LogGateway.Proofs.Text.Pieces

namespace LogGateway.Settings

/-! ## Settings of an environment -/

/-- What a variable says, or what holds without it. -/
def given? {α : Type} (env : Environment) (name : String) (read : String → Option α) (unset : α) : Option α :=
  match env.text? name with
  | none => some unset
  | some raw => read raw

/-- An environment is accepted if its timeout and its flag are, and then says this. -/
theorem ofEnvironment_eq_ok_iff {env : Environment} {settings : Settings} :
    ofEnvironment env = .ok settings ↔
      settings.nodeUrls = ((env.text? "FULLNODE_URLS").map parseUrls).getD [] ∧
      given? env "GET_LOGS_TIMEOUT_MS" parseNumber default.timeoutMs = some settings.timeoutMs ∧
      given? env "HASH_RING_REPARTITION" parseFlag default.repartition = some settings.repartition ∧
      settings.virtualNodes = virtualNodesOf env := by
  obtain ⟨nodeUrls, timeoutMs, repartition, virtualNodes⟩ := settings
  have hresult (ms : UInt64) (flag : Bool) :
      (Except.ok ⟨((env.text? "FULLNODE_URLS").map parseUrls).getD [], ms, flag, virtualNodesOf env⟩
        : Except ConfigFault Settings) = .ok ⟨nodeUrls, timeoutMs, repartition, virtualNodes⟩ ↔
      nodeUrls = ((env.text? "FULLNODE_URLS").map parseUrls).getD [] ∧ some ms = some timeoutMs ∧
        some flag = some repartition ∧ virtualNodes = virtualNodesOf env := by
    simp [eq_comm]
  have hrefused (fault : ConfigFault) {p : Prop} (hp : ¬p) :
      (Except.error fault : Except ConfigFault Settings) = .ok ⟨nodeUrls, timeoutMs, repartition, virtualNodes⟩ ↔ p :=
    ⟨fun h => (nomatch h), fun h => absurd h hp⟩
  unfold ofEnvironment given?
  cases env.text? "GET_LOGS_TIMEOUT_MS" with
  | none =>
    cases env.text? "HASH_RING_REPARTITION" with
    | none => exact hresult _ _
    | some raw =>
      dsimp only
      cases parseFlag raw with
      | none => exact hrefused _ fun h => nomatch h.2.2.1
      | some flag => exact hresult _ _
  | some raw =>
    dsimp only
    cases parseNumber raw with
    | none => exact hrefused _ fun h => nomatch h.2.1
    | some ms =>
      cases env.text? "HASH_RING_REPARTITION" with
      | none => exact hresult _ _
      | some raw =>
        dsimp only
        cases parseFlag raw with
        | none => exact hrefused _ fun h => nomatch h.2.2.1
        | some flag => exact hresult _ _

/-! ## Lists of URLs -/

/-- Pieces that list these URLs: in their order each URL has a piece, with blanks around it or without, and all other
pieces are blank. -/
inductive Lists : List String → List String → Prop
  | nil : Lists [] []
  | blank {piece : String} {pieces urls : List String} (blanks : ∀ c ∈ piece.toList, Text.isBlank c = true)
      (rest : Lists pieces urls) : Lists (piece :: pieces) urls
  | url {before url after : String} {pieces urls : List String} (hbefore : ∀ c ∈ before.toList, Text.isBlank c = true)
      (hafter : ∀ c ∈ after.toList, Text.isBlank c = true) (trimmed : Text.Trimmed url.toList) (nonempty : url ≠ "")
      (rest : Lists pieces urls) : Lists ((before ++ url ++ after) :: pieces) (url :: urls)

theorem nonBlank_cons (piece : String) (pieces : List String) :
    nonBlank (piece :: pieces) =
      if Text.trim piece = "" then nonBlank pieces else Text.trim piece :: nonBlank pieces := by
  rw [nonBlank, List.map_cons, List.filter_cons]
  by_cases h : Text.trim piece = "" <;> simp [h, nonBlank]

theorem toList_trim (piece : String) : (Text.trim piece).toList = Text.trimChars piece.toList := String.toList_ofList

/-- Texts list what is left of them without the blanks. -/
theorem lists_nonBlank (pieces : List String) : Lists pieces (nonBlank pieces) := by
  induction pieces with
  | nil => exact .nil
  | cons piece pieces ih =>
    obtain ⟨htrimmed, before, after, hpiece, hbefore, hafter⟩ := Text.trimChars_spec piece.toList
    rw [nonBlank_cons]
    split
    · rename_i hnone
      refine .blank (fun c hc => ?_) ih
      rw [← toList_trim, hnone] at hpiece
      rw [hpiece] at hc
      rcases List.mem_append.mp hc with hc | hc
      · exact hbefore c (by simpa using hc)
      · exact hafter c hc
    · rename_i hsome
      have hwhole : piece = String.ofList before ++ Text.trim piece ++ String.ofList after := by
        refine String.toList_injective ?_
        rw [String.toList_append, String.toList_append, toList_trim, String.toList_ofList, String.toList_ofList]
        exact hpiece
      rw [← toList_trim] at htrimmed
      have hlists : Lists ((String.ofList before ++ Text.trim piece ++ String.ofList after) :: pieces)
          (Text.trim piece :: nonBlank pieces) :=
        .url (by rwa [String.toList_ofList]) (by rwa [String.toList_ofList]) htrimmed hsome ih
      rwa [← hwhole] at hlists

/-- Whatever lists URLs, these are left of it without the blanks. -/
theorem Lists.nonBlank_eq {pieces urls : List String} (h : Lists pieces urls) : nonBlank pieces = urls := by
  induction h with
  | nil => rfl
  | @blank piece pieces urls blanks rest ih =>
    have hnone : Text.trim piece = "" := by
      have hsame := Text.trimChars_surrounded blanks [] (List.forall_mem_nil _)
      rw [List.append_nil, List.append_nil] at hsame
      rw [Text.trim, hsame]
      rfl
    rw [nonBlank_cons, if_pos hnone, ih]
  | @url before url after pieces urls hbefore hafter trimmed nonempty rest ih =>
    have hurl : Text.trim (before ++ url ++ after) = url := by
      rw [Text.trim, String.toList_append, String.toList_append, Text.trimChars_surrounded hbefore _ hafter,
        trimmed.trimChars_eq, String.ofList_toList]
    rw [nonBlank_cons, hurl, if_neg nonempty, ih]

theorem Lists.of_mem {pieces urls : List String} (h : Lists pieces urls) {url : String} (hurl : url ∈ urls) :
    Text.Trimmed url.toList ∧ url ≠ "" ∧ ∃ piece ∈ pieces, ∀ c ∈ url.toList, c ∈ piece.toList := by
  induction h with
  | nil => cases hurl
  | blank blanks rest ih =>
    obtain ⟨htrimmed, hsome, piece, hpiece, hin⟩ := ih hurl
    exact ⟨htrimmed, hsome, piece, List.mem_cons_of_mem _ hpiece, hin⟩
  | url hbefore hafter trimmed nonempty rest ih =>
    rcases List.mem_cons.mp hurl with rfl | hurl
    · exact ⟨trimmed, nonempty, _, List.mem_cons_self .., fun c hc => by simp [hc]⟩
    · obtain ⟨htrimmed, hsome, piece, hpiece, hin⟩ := ih hurl
      exact ⟨htrimmed, hsome, piece, List.mem_cons_of_mem _ hpiece, hin⟩

/-- A character that is no blank is in no piece if it is in none of the URLs. -/
theorem Lists.not_mem_piece {pieces urls : List String} (h : Lists pieces urls) {c : Char} (hc : Text.isBlank c = false)
    (hurls : ∀ url ∈ urls, c ∉ url.toList) : ∀ piece ∈ pieces, c ∉ piece.toList := by
  have hfree {blanks : String} (hblanks : ∀ d ∈ blanks.toList, Text.isBlank d = true) : c ∉ blanks.toList := by
    intro hin
    rw [hblanks c hin] at hc
    cases hc
  induction h with
  | nil => exact List.forall_mem_nil _
  | blank blanks rest ih => exact List.forall_mem_cons.mpr ⟨hfree blanks, ih hurls⟩
  | url hbefore hafter trimmed nonempty rest ih =>
    obtain ⟨hurl, hurls⟩ := List.forall_mem_cons.mp hurls
    exact List.forall_mem_cons.mpr ⟨by simp [hfree hbefore, hurl, hfree hafter], ih hurls⟩

/-- The URLs of a text are those that its pieces between commas list. -/
theorem parseUrls_lists (raw : String) :
    ∃ pieces : List String, ",".intercalate pieces = raw ∧ (∀ piece ∈ pieces, ',' ∉ piece.toList) ∧
      Lists pieces (parseUrls raw) := by
  obtain ⟨hjoin, hnone⟩ := Text.splitAt_spec ',' raw
  exact ⟨Text.splitAt ',' raw, hjoin, hnone, lists_nonBlank _⟩

/-- Pieces joined by commas give the URLs that they list, if these have no commas. -/
theorem parseUrls_intercalate {pieces urls : List String} (h : Lists pieces urls)
    (hurls : ∀ url ∈ urls, ',' ∉ url.toList) : parseUrls (",".intercalate pieces) = urls := by
  cases pieces with
  | nil => exact h.nonBlank_eq
  | cons piece rest =>
    have hpieces : Text.splitAt ',' (",".intercalate (piece :: rest)) = piece :: rest :=
      Text.splitAt_intercalate (h.not_mem_piece rfl hurls)
    rw [parseUrls, hpieces, h.nonBlank_eq]

end LogGateway.Settings
