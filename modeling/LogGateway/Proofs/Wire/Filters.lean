/-
The texts of filters. What a filter leaves out can be told from what it writes, so that its text determines it: its
members give its blocks and its criteria back. Main statement: filters of one text are one filter, and no filter's
text names a block by its hash and an end of a range at once.
-/
import LogGateway.Proofs.Json.Checking
import LogGateway.Proofs.Json.Members
import LogGateway.Proofs.Wire.Values
import LogGateway.Rpc.Message

namespace LogGateway

open LogGateway.Json

/-! ## Selections -/

/-- The block that is selected by its hash. -/
def Selection.hash? : Selection → Option Hash
  | .block hash => some hash
  | .range _ _ => none

/-- The first block of a range. -/
def Selection.first? : Selection → Option BlockSelector
  | .block _ => none
  | .range first _ => first

/-- The last block of a range. -/
def Selection.last? : Selection → Option BlockSelector
  | .block _ => none
  | .range _ last => last

theorem Selection.ext_parts {s t : Selection} (hhash : s.hash? = t.hash?) (hfirst : s.first? = t.first?)
    (hlast : s.last? = t.last?) : s = t := by
  cases s with
  | block hash =>
    cases t with
    | block hash' => exact congrArg Selection.block (Option.some.inj hhash)
    | range => cases hhash
  | range first last =>
    cases t with
    | block => cases hhash
    | range first' last' =>
      obtain rfl : first = first' := hfirst
      obtain rfl : last = last' := hlast
      rfl

/-- No block name begins with a digit. -/
theorem BlockTag.ofText?_of_digit {s : String} (h : s.toList.head? = some '0') : BlockTag.ofText? s = none := by
  refine List.find?_eq_none.mpr fun tag _ htag => ?_
  rw [← of_decide_eq_true htag] at h
  cases tag <;> exact absurd h (by decide)

/-- A block selector is read back from its text. A tag begins with a letter, a number with a digit. -/
theorem BlockSelector.read_text (s : BlockSelector) : BlockSelector.read s.text = .ok s := by
  cases s with
  | number n =>
    have hnone : BlockTag.ofText? (Quantity.text n) = none := by
      refine BlockTag.ofText?_of_digit ?_
      rw [Quantity.text, String.toList_ofList]
      rfl
    have hread : Quantity.read (Quantity.text n) = .ok n := Quantity.read_chars n
    rw [BlockSelector.read, BlockSelector.text, hnone, hread]
    rfl
  | tag name => cases name <;> rfl

namespace Wire

/-! ## The texts of the parts -/

theorem reads_selector (s : BlockSelector) : Reads readSelector (selector s) s := by
  refine Reads.parsed (spells_escaped _) ?_
  rw [String.ofList_toList, BlockSelector.read_text]
  rfl

theorem reads_hashes (hashes : List Hash) :
    Reads (list (fixedBytes 32)) (Write.list (hashes.map fixed)) hashes := .list fun _ _ => reads_fixed _

theorem reads_criterion (c : TopicCriterion) : Reads (optional (list (fixedBytes 32))) (criterion c) c := by
  cases c with
  | none => exact .null _
  | some hashes => exact (reads_hashes hashes).present (by simp [Write.list])

theorem fixed_injective {n : Nat} : Function.Injective (fixed (n := n)) := injective_of_reads reads_fixed

theorem selector_injective : Function.Injective selector := injective_of_reads reads_selector

theorem list_fixed_injective {n : Nat} :
    Function.Injective fun data : List (Vector UInt8 n) => Write.list (data.map fixed) :=
  injective_of_reads fun _ => .list fun _ _ => reads_fixed _

theorem topics_injective : Function.Injective topics :=
  injective_of_reads fun _ => .list fun _ _ => reads_criterion _

/-! ## The members of a filter -/

/-- The members that a filter is written with. -/
def filterMembers (f : LogFilter) : List (String × List Char) :=
  selectionMembers f.selection ++ criteriaMembers f.criteria

/-- What each member of a filter says, or that there is none of its name. -/
theorem lookup_filterMembers (f : LogFilter) :
    (filterMembers f).lookup "blockHash" = f.selection.hash?.map fixed ∧
    (filterMembers f).lookup "fromBlock" = f.selection.first?.map selector ∧
    (filterMembers f).lookup "toBlock" = f.selection.last?.map selector ∧
    (filterMembers f).lookup "address"
      = (if f.criteria.addresses = [] then none else some (Write.list (f.criteria.addresses.map fixed))) ∧
    (filterMembers f).lookup "topics"
      = if f.criteria.topics = [] then none else some (topics f.criteria.topics) := by
  obtain ⟨selection, addresses, topics⟩ := f
  cases selection with
  | block hash => cases addresses <;> cases topics <;> exact ⟨rfl, rfl, rfl, rfl, rfl⟩
  | range first last =>
    cases first <;> cases last <;> cases addresses <;> cases topics <;> exact ⟨rfl, rfl, rfl, rfl, rfl⟩

/-- A list that is left out when it is empty, and only then, is known from its text. -/
theorem eq_of_left_out {α : Type} {write : List α → List Char} (hwrite : Function.Injective write) {as bs : List α}
    (h : (if as = [] then none else some (write as)) = if bs = [] then none else some (write bs)) : as = bs := by
  split at h <;> split at h
  · simp_all
  · cases h
  · cases h
  · exact hwrite (Option.some.inj h)

theorem filterMembers_injective : Function.Injective filterMembers := by
  intro f g h
  obtain ⟨fhash, ffirst, flast, faddress, ftopics⟩ := lookup_filterMembers f
  obtain ⟨ghash, gfirst, glast, gaddress, gtopics⟩ := lookup_filterMembers g
  rw [h] at fhash ffirst flast faddress ftopics
  have hselection : f.selection = g.selection :=
    Selection.ext_parts (Option.map_injective fixed_injective (fhash.symm.trans ghash))
      (Option.map_injective selector_injective (ffirst.symm.trans gfirst))
      (Option.map_injective selector_injective (flast.symm.trans glast))
  have haddresses : f.criteria.addresses = g.criteria.addresses :=
    eq_of_left_out list_fixed_injective (faddress.symm.trans gaddress)
  have htopics : f.criteria.topics = g.criteria.topics :=
    eq_of_left_out topics_injective (ftopics.symm.trans gtopics)
  obtain ⟨fselection, faddresses, ftopics⟩ := f
  obtain ⟨gselection, gaddresses, gtopics⟩ := g
  simp only at hselection haddresses htopics
  rw [hselection, haddresses, htopics]

theorem compact_fixedList (depth : Nat) {n : Nat} (data : List (Vector UInt8 n)) :
    Compact (depth + 1) (Write.list (data.map fixed)) := by
  refine .list fun part hpart => ?_
  obtain ⟨bytes, -, rfl⟩ := List.mem_map.mp hpart
  exact .text depth _

theorem compact_topics (depth : Nat) (criteria : List TopicCriterion) : Compact (depth + 2) (topics criteria) := by
  refine .list fun part hpart => ?_
  obtain ⟨c, -, rfl⟩ := List.mem_map.mp hpart
  cases c with
  | none => exact .null _
  | some hashes => exact compact_fixedList depth hashes

theorem compact_filterMembers (depth : Nat) (f : LogFilter) : ∀ e ∈ filterMembers f, Compact (depth + 2) e.2 := by
  intro e he
  rcases List.mem_append.mp he with he | he
  · cases hselection : f.selection with
    | block hash =>
      rw [hselection, selectionMembers, List.mem_singleton] at he
      subst he
      exact .text _ _
    | range first last =>
      rw [hselection, selectionMembers, List.mem_append, Option.mem_toList, Option.mem_toList] at he
      simp only [Option.map_eq_some_iff] at he
      rcases he with ⟨s, -, rfl⟩ | ⟨s, -, rfl⟩ <;> exact .text _ _
  · rw [criteriaMembers, List.mem_append] at he
    rcases he with he | he
    · split at he
      · cases he
      · obtain rfl := List.mem_singleton.mp he
        exact compact_fixedList _ _
    · split at he
      · cases he
      · obtain rfl := List.mem_singleton.mp he
        exact compact_topics depth _

theorem wellFormed_filterMembers (f : LogFilter) : ∀ e ∈ filterMembers f, WellFormed .value e.2 := fun e he =>
  (compact_filterMembers 0 f e he).wellFormed

/-- A member is there exactly when it says something. -/
theorem mem_names_iff {entries : List (String × List Char)} {name : String} :
    name ∈ entries.map Prod.fst ↔ (entries.lookup name).isSome = true := by
  rw [List.lookup_isSome_iff, List.mem_map]
  simp only [beq_iff_eq]
  constructor <;> exact fun ⟨e, he, hname⟩ => ⟨e, he, hname.symm⟩

/-! ## Whole texts -/

theorem filter_injective {f g : LogFilter} (h : filter f = filter g) : f = g :=
  filterMembers_injective (object_injective (wellFormed_filterMembers f) (wellFormed_filterMembers g) h)

theorem compact_filter (depth : Nat) (f : LogFilter) : Compact (depth + 3) (filter f) :=
  .object (compact_filterMembers depth f)

/-- The members of a request. -/
def requestMembers (question : Rpc.Question) (id : UInt64) : List (String × List Char) :=
  [("jsonrpc", Write.text "2.0".toList), ("id", Write.nat id.toNat),
    ("method", Write.text question.method.toList), ("params", Write.list question.params)]

theorem compact_params (depth : Nat) (question : Rpc.Question) : ∀ part ∈ question.params, Compact (depth + 3) part := by
  intro part hpart
  cases question with
  | block hash =>
    simp only [Rpc.Question.params, List.mem_cons, List.not_mem_nil, or_false] at hpart
    rcases hpart with rfl | rfl
    · exact .text _ _
    · exact .boolean _ _
  | logs f =>
    rw [Rpc.Question.params, List.mem_singleton] at hpart
    rw [hpart]
    exact compact_filter depth f

theorem compact_requestMembers (depth : Nat) (question : Rpc.Question) (id : UInt64) :
    ∀ e ∈ requestMembers question id, Compact (depth + 4) e.2 := by
  simp only [requestMembers, List.forall_mem_cons]
  exact ⟨.text _ _, .nat _ id.toNat_lt, .text _ _, .list (compact_params depth question), fun _ h => nomatch h⟩

/-- Every request is a JSON text. -/
theorem check_request (question : Rpc.Question) (id : UInt64) : check (Utf8.encode (question.request id)) = none := by
  rw [Rpc.Question.request, encode_ofList]
  exact Compact.check_eq_none (.object (compact_requestMembers 122 question id))

theorem request_injective {f g : LogFilter} {id id' : UInt64}
    (h : (Rpc.Question.logs f).request id = (Rpc.Question.logs g).request id') : f = g := by
  have hwritten (question : Rpc.Question) (id : UInt64) : ∀ e ∈ requestMembers question id, WellFormed .value e.2 :=
    fun e he => (compact_requestMembers 0 question id e he).wellFormed
  have hobject : Write.object (requestMembers (.logs f) id) = Write.object (requestMembers (.logs g) id') :=
    String.ofList_inj.mp h
  have hmembers := object_injective (hwritten (.logs f) id) (hwritten (.logs g) id') hobject
  have hparams : Write.list [filter f] = Write.list [filter g] :=
    Option.some.inj (congrArg (List.lookup "params") hmembers)
  exact filter_injective (by simpa [Write.list, Write.commaSeparated] using hparams)

/-- Filters of one text are one filter, and so are filters that are asked for in requests of one text. A filter's text
is an object, and however it is taken apart, no block hash stands there with an end of a range. -/
theorem filter_text_determines :
    (∀ f g : LogFilter, filter f = filter g → f = g) ∧
    (∀ (f g : LogFilter) (id id' : UInt64),
      (Rpc.Question.logs f).request id = (Rpc.Question.logs g).request id' → f = g) ∧
    ∀ f : LogFilter, (∃ ms, IsObject (filter f) ms) ∧ ∀ ms, IsObject (filter f) ms →
      ¬ ("blockHash" ∈ ms.map Member.name ∧
        ("fromBlock" ∈ ms.map Member.name ∨ "toBlock" ∈ ms.map Member.name)) := by
  refine ⟨fun f g => filter_injective, fun f g id id' => request_injective, fun f => ?_⟩
  refine ⟨⟨_, isObject_written (wellFormed_filterMembers f)⟩, fun ms hms => ?_⟩
  have hentries : ms.map Member.entry = filterMembers f := hms.entries_written (wellFormed_filterMembers f)
  have hnames : ms.map Member.name = (filterMembers f).map Prod.fst := by
    rw [← hentries, List.map_map]
    rfl
  obtain ⟨hhash, hfirst, hlast, -⟩ := lookup_filterMembers f
  rw [hnames, mem_names_iff, mem_names_iff, mem_names_iff, hhash, hfirst, hlast]
  cases f.selection <;> simp [Selection.hash?, Selection.first?, Selection.last?]

/-- A filter that asks nothing of the first topic in two ways, and one for a block. -/
theorem filter_text_determines_wildcard :
    let wild : TopicCriterion → LogFilter := fun c => ⟨.block (Vector.replicate 32 7), ⟨[], [c]⟩⟩
    let ms := (filterMembers (wild none)).map fun e => Member.compact e.1 e.2
    filter (wild none) ≠ filter (wild (some [])) ∧
      (Rpc.Question.logs (wild none)).request 1 ≠ (Rpc.Question.logs (wild (some []))).request 2 ∧
      IsObject (filter (wild none)) ms ∧ "blockHash" ∈ ms.map Member.name ∧ "fromBlock" ∉ ms.map Member.name := by
  intro wild ms
  obtain ⟨htexts, hrequests, hobjects⟩ := filter_text_determines
  have hother : wild none ≠ wild (some []) := by decide
  have hobject : IsObject (filter (wild none)) ms := isObject_written (wellFormed_filterMembers _)
  have hhash : "blockHash" ∈ ms.map Member.name := by decide
  exact ⟨fun h => hother (htexts _ _ h), fun h => hother (hrequests _ _ _ _ h), hobject, hhash,
    fun hfirst => (hobjects _).2 ms hobject ⟨hhash, .inl hfirst⟩⟩

end Wire

end LogGateway
