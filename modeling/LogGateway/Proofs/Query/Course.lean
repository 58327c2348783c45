/-
All that an attempt can ask, whether it comes to a result or to an error: first the highest block, then the block of a
hash, then the store and after it the node.
-/
import LogGateway.Proofs.Query.Bounded

namespace LogGateway.Query

variable {σ α : Type} {sources : Sources σ} {deadline : Nat} {filter : LogFilter} {split : Split}
  {asked : List Asked} {p q : Progress σ}

/-! ## Steps and their calls -/

/-- What a step comes to. -/
def ending : EStateM.Result Error (Progress σ) α → Except Error α
  | .ok a _ => .ok a
  | .error e _ => .error e

/-- From `p` to `q` a query made these calls, none of which read the version, and was not retried. -/
structure Makes (sources : Sources σ) (deadline : Nat) (p : Progress σ) (calls : List Asked) (q : Progress σ) : Prop
    extends Logged sources deadline (· ≠ .version) p calls q where
  retries : q.retries = p.retries

theorem Makes.refl (p : Progress σ) : Makes sources deadline p [] p := ⟨.refl p, rfl⟩

theorem Makes.trans {calls more : List Asked} {r : Progress σ} (h : Makes sources deadline p calls q)
    (h' : Makes sources deadline q more r) : Makes sources deadline p (calls ++ more) r :=
  ⟨h.toLogged.trans h'.toLogged, h'.retries.trans h.retries⟩

/-- A step stops at a call with a fault, with its error, and otherwise gives a result. -/
inductive Stops : List Asked → Except Error α → Prop
  | result {calls : List Asked} (quiet : Faultless calls) (a : α) : Stops calls (.ok a)
  | fault {calls : List Asked} {last : Asked} {e : Error} (quiet : Faultless calls) (fault : last.fault? = some e) :
      Stops (calls ++ [last]) (.error e)

theorem Stops.quiet {calls : List Asked} {a : α} (h : Stops calls (.ok a)) : Faultless calls := by
  cases h with
  | result quiet => exact quiet

theorem Stops.not_faultless {calls : List Asked} {e : Error} (h : Stops calls (.error e : Except Error α)) :
    ¬ Faultless calls := by
  cases h with
  | fault _ fault =>
    intro hquiet
    rw [faultless_singleton.1 (faultless_append.1 hquiet).2] at fault
    cases fault

theorem Stops.map {β : Type} {calls : List Asked} {result : Except Error α} (h : Stops calls result) (f : α → β) :
    Stops calls (result.map f) := by
  cases h with
  | result quiet a => exact .result quiet (f a)
  | fault quiet fault => exact .fault quiet fault

theorem Stops.append {calls more : List Asked} {result : Except Error α} (quiet : Faultless calls)
    (h : Stops more result) : Stops (calls ++ more) result := by
  cases h with
  | result quiet' => exact .result (faultless_append.2 ⟨quiet, quiet'⟩) _
  | fault quiet' fault =>
    rw [← List.append_assoc]
    exact .fault (faultless_append.2 ⟨quiet, quiet'⟩) fault

theorem Stops.cons {a : Asked} {more : List Asked} {result : Except Error α} (quiet : a.fault? = none)
    (h : Stops more result) : Stops (a :: more) result :=
  .append (faultless_singleton.2 quiet) h

theorem Stops.at {a : Asked} {e : Error} (fault : a.fault? = some e) : Stops [a] (.error e : Except Error α) :=
  .fault faultless_nil fault

theorem ask_retries (sources : Sources σ) (deadline : Nat) (call : Call) (p : Progress σ) :
    (reached (ask sources deadline call p)).retries = p.retries := by
  unfold ask
  simp only
  split
  · cases (sources call p.state).outcome <;> rfl
  · rfl

/-- A call that is no version read is answered, or has a fault that it fails with. -/
theorem ask_cases {call : Call} (h : call ≠ .version) (p : Progress σ) :
    (∃ answer q, ask sources deadline call p = .ok answer q ∧
      Makes sources deadline p [⟨call, p.now, some (.ok answer)⟩] q) ∨
    ∃ e q a, ask sources deadline call p = .error e q ∧ a.call = call ∧ a.fault? = some e ∧
      Makes sources deadline p [a] q := by
  have hkind : ∀ other, other = call → other ≠ .version := fun _ hother => hother ▸ h
  have hretries := ask_retries sources deadline call p
  rcases @ask_logged σ sources deadline (· = call) call rfl p with ⟨answer, q, ha, hlog⟩ | ⟨e, q, a, ha, hlog, hfault⟩
  · rw [ha] at hretries
    exact .inl ⟨answer, q, ha, hlog.mono hkind, hretries⟩
  · rw [ha] at hretries
    exact .inr ⟨e, q, a, ha, hlog.kinds a (List.mem_singleton_self a), hfault, hlog.mono hkind, hretries⟩

/-! ## The parts of a split -/

/-- Logs are asked for by this call, if by any. -/
inductive Asks : Option Call → List Asked → Except Error (List Log) → Prop
  | nothing : Asks none [] (.ok [])
  | answered {call : Call} {a : Asked} (called : a.call = call) (quiet : a.fault? = none) :
      Asks (some call) [a] (.ok a.logs)
  | failed {call : Call} {a : Asked} {e : Error} (called : a.call = call) (fault : a.fault? = some e) :
      Asks (some call) [a] (.error e)

/-- The store is asked for its part, and then the node for its own unless the store's call has a fault. -/
inductive Collects (split : Split) : List Asked → List Asked → Except Error Fetched → Prop
  | failed {stored : List Asked} {e : Error} (ofStore : Asks (split.store.map .stored) stored (.error e)) :
      Collects split stored [] (.error e)
  | both {stored live : List Asked} {logs : List Log} {result : Except Error (List Log)}
      (ofStore : Asks (split.store.map .stored) stored (.ok logs)) (ofNode : Asks (split.node.map .logs) live result) :
      Collects split stored live (result.map fun more => ⟨logs ++ more, split.hitsStore⟩)

/-- What an attempt does once its query is divided. -/
def collect (sources : Sources σ) (deadline : Nat) (split : Split) : Step σ Fetched := do
  let stored ← storedPart sources deadline split
  let live ← livePart sources deadline split
  return { logs := stored ++ live, hitStore := split.hitsStore }

theorem attempt_eq_collect (sources : Sources σ) (deadline : Nat) (filter : LogFilter) :
    attempt sources deadline filter = divide sources deadline filter >>= collect sources deadline :=
  attempt_eq sources deadline filter

theorem storedPart_asks (sources : Sources σ) (deadline : Nat) (split : Split) (p : Progress σ) :
    ∃ stored, Makes sources deadline p stored (reached (storedPart sources deadline split p)) ∧
      Asks (split.store.map .stored) stored (ending (storedPart sources deadline split p)) := by
  unfold storedPart
  cases split.store with
  | none => exact ⟨[], .refl p, .nothing⟩
  | some part =>
    simp only [Option.map_some, map_eq_pure_bind]
    rcases @ask_cases σ sources deadline (.stored part) (by simp) p with
      ⟨answer, q, ha, hlog⟩ | ⟨e, q, a, ha, hcall, hfault, hlog⟩
    · rw [bind_of_ok ha]
      exact ⟨_, hlog, .answered rfl rfl⟩
    · rw [bind_of_error ha]
      exact ⟨[a], hlog, .failed hcall hfault⟩

theorem livePart_asks (sources : Sources σ) (deadline : Nat) (split : Split) (p : Progress σ) :
    ∃ live, Makes sources deadline p live (reached (livePart sources deadline split p)) ∧
      Asks (split.node.map .logs) live (ending (livePart sources deadline split p)) := by
  unfold livePart
  cases split.node with
  | none => exact ⟨[], .refl p, .nothing⟩
  | some part =>
    simp only [Option.map_some]
    rcases @ask_cases σ sources deadline (.logs part) (by simp) p with
      ⟨answer, q, ha, hlog⟩ | ⟨e, q, a, ha, hcall, hfault, hlog⟩
    · rw [ha]
      exact ⟨_, hlog, .answered rfl rfl⟩
    · rw [ha]
      exact ⟨[a], hlog, .failed hcall hfault⟩

theorem collect_collects (sources : Sources σ) (deadline : Nat) (split : Split) (p : Progress σ) :
    ∃ stored live, Makes sources deadline p (stored ++ live) (reached (collect sources deadline split p)) ∧
      Collects split stored live (ending (collect sources deadline split p)) := by
  obtain ⟨stored, hstored, hasks⟩ := storedPart_asks sources deadline split p
  unfold collect
  cases hs : storedPart sources deadline split p with
  | error e q =>
    rw [hs] at hstored hasks
    rw [bind_of_error hs]
    exact ⟨stored, [], (List.append_nil stored).symm ▸ hstored, .failed hasks⟩
  | ok logs q =>
    rw [hs] at hstored hasks
    rw [bind_of_ok hs]
    obtain ⟨live, hlive, hasks'⟩ := livePart_asks sources deadline split q
    have hboth := Collects.both hasks hasks'
    cases hl : livePart sources deadline split q with
    | error e r =>
      rw [hl] at hlive hboth
      rw [bind_of_error hl]
      exact ⟨stored, live, hstored.trans hlive, hboth⟩
    | ok more r =>
      rw [hl] at hlive hboth
      rw [bind_of_ok hl]
      exact ⟨stored, live, hstored.trans hlive, hboth⟩

/-! ## The course of an attempt -/

/-- The calls of an attempt, by what they ask for. -/
structure Inquiry where
  first : Asked
  lookUps : List Asked
  stored : List Asked
  live : List Asked

/-- The calls in their order. -/
def Inquiry.calls (inquiry : Inquiry) : List Asked :=
  inquiry.first :: (inquiry.lookUps ++ (inquiry.stored ++ inquiry.live))

/-- All courses that an attempt can take, and what each comes to. -/
inductive Course (filter : LogFilter) : Inquiry → Except Error Fetched → Prop
  | unread {first : Asked} {e : Error} (call : first.call = .highest) (fault : first.fault? = some e) :
      Course filter ⟨first, [], [], []⟩ (.error e)
  | empty {start : Nat} {stored live : List Asked} {result : Except Error Fetched}
      (rest : Collects (.nodeOnly filter) stored live result) :
      Course filter ⟨⟨.highest, start, some (.ok none)⟩, [], stored, live⟩ result
  | range {start : Nat} {top : UInt64} {first last : Option BlockSelector} {stored live : List Asked}
      {result : Except Error Fetched} (selection : filter.selection = .range first last)
      (rest : Collects (.ofRange filter top) stored live result) :
      Course filter ⟨⟨.highest, start, some (.ok (some top))⟩, [], stored, live⟩ result
  | unfound {start : Nat} {top : UInt64} {hash : Hash} {lookUp : Asked} {e : Error}
      (selection : filter.selection = .block hash) (call : lookUp.call = .block hash)
      (fault : lookUp.fault? = some e) :
      Course filter ⟨⟨.highest, start, some (.ok (some top))⟩, [lookUp], [], []⟩ (.error e)
  | found {start time : Nat} {top : UInt64} {hash : Hash} {block : BlockSummary} {stored live : List Asked}
      {result : Except Error Fetched} (selection : filter.selection = .block hash)
      (rest : Collects (.ofBlock filter block.number top) stored live result) :
      Course filter ⟨⟨.highest, start, some (.ok (some top))⟩, [⟨.block hash, time, some (.ok (some block))⟩], stored,
        live⟩ result

theorem attempt_course (sources : Sources σ) (deadline : Nat) (filter : LogFilter) (p : Progress σ) :
    ∃ inquiry : Inquiry, Makes sources deadline p inquiry.calls (reached (attempt sources deadline filter p)) ∧
      Course filter inquiry (ending (attempt sources deadline filter p)) := by
  rw [attempt_eq_collect]
  unfold divide
  rw [bind_assoc]
  rcases @ask_cases σ sources deadline .highest (by simp) p with
    ⟨highest, q, ha, hlog⟩ | ⟨e, q, a, ha, hcall, hfault, hlog⟩
  · rw [bind_of_ok ha]
    cases highest with
    | none =>
      obtain ⟨stored, live, hcalls, hrest⟩ := collect_collects sources deadline (.nodeOnly filter) q
      exact ⟨⟨_, [], stored, live⟩, hlog.trans hcalls, .empty hrest⟩
    | some top =>
      cases hs : filter.selection with
      | range first last =>
        obtain ⟨stored, live, hcalls, hrest⟩ := collect_collects sources deadline (.ofRange filter top) q
        exact ⟨⟨_, [], stored, live⟩, hlog.trans hcalls, .range hs hrest⟩
      | block hash =>
        simp only [bind_assoc]
        rcases @ask_cases σ sources deadline (.block hash) (by simp) q with
          ⟨found, r, hb, hlook⟩ | ⟨e, r, a, hb, hcall, hfault, hlook⟩
        · rw [bind_of_ok hb]
          cases found with
          | none => exact ⟨⟨_, [⟨.block hash, q.now, some (.ok none)⟩], [], []⟩, hlog.trans hlook, .unfound hs rfl rfl⟩
          | some found =>
            obtain ⟨stored, live, hcalls, hrest⟩ :=
              collect_collects sources deadline (.ofBlock filter found.number top) r
            exact ⟨⟨_, [_], stored, live⟩, hlog.trans (hlook.trans hcalls), .found hs hrest⟩
        · rw [bind_of_error hb]
          exact ⟨⟨_, [a], [], []⟩, hlog.trans hlook, .unfound hs hcall hfault⟩
  · rw [bind_of_error ha]
    exact ⟨⟨a, [], [], []⟩, hlog, .unread hcall hfault⟩

/-! ## The calls of a course -/

section Calls

variable {call : Option Call} {calls stored live : List Asked}

theorem Asks.map_call {result : Except Error (List Log)} (h : Asks call calls result) :
    calls.map Asked.call = call.toList := by
  cases h with
  | nothing => rfl
  | answered called => rw [List.map_singleton, called]; rfl
  | failed called => rw [List.map_singleton, called]; rfl

theorem Asks.stops {result : Except Error (List Log)} (h : Asks call calls result) : Stops calls result := by
  cases h with
  | nothing => exact .result faultless_nil _
  | answered _ quiet => exact .result (faultless_singleton.2 quiet) _
  | failed _ fault => exact .at fault

theorem Asks.logs {logs : List Log} (h : Asks call calls (.ok logs)) : logs = calls.flatMap Asked.logs := by
  cases h with
  | nothing => rfl
  | answered => rw [List.flatMap_singleton]

namespace Collects

variable {result : Except Error Fetched}

theorem map_stored (h : Collects split stored live result) :
    stored.map Asked.call = (split.store.map .stored).toList := by
  cases h with
  | failed ofStore => exact ofStore.map_call
  | both ofStore => exact ofStore.map_call

theorem mem_stored {a : Asked} (h : Collects split stored live result) (ha : a ∈ stored) :
    ∃ part ∈ split.store, a.call = .stored part := by
  have hcall : a.call ∈ stored.map Asked.call := List.mem_map_of_mem ha
  rw [h.map_stored, Option.mem_toList] at hcall
  obtain ⟨part, hpart, heq⟩ := Option.map_eq_some_iff.1 hcall
  exact ⟨part, hpart, heq.symm⟩

theorem mem_live {a : Asked} (h : Collects split stored live result) (ha : a ∈ live) :
    ∃ part ∈ split.node, a.call = .logs part := by
  cases h with
  | failed => cases ha
  | both _ ofNode =>
    have hcall : a.call ∈ live.map Asked.call := List.mem_map_of_mem ha
    rw [ofNode.map_call, Option.mem_toList] at hcall
    obtain ⟨part, hpart, heq⟩ := Option.map_eq_some_iff.1 hcall
    exact ⟨part, hpart, heq.symm⟩

theorem length_live (h : Collects split stored live result) : live.length ≤ 1 := by
  cases h with
  | failed => exact Nat.zero_le 1
  | both _ ofNode =>
    rw [← List.length_map Asked.call, ofNode.map_call]
    exact Option.length_toList_le

theorem stops (h : Collects split stored live result) : Stops (stored ++ live) result := by
  cases h with
  | failed ofStore =>
    rw [List.append_nil]
    exact ofStore.stops.map fun logs => ⟨logs, split.hitsStore⟩
  | both ofStore ofNode => exact (ofNode.stops.map _).append ofStore.stops.quiet

theorem stored_eq_nil_iff (h : Collects split stored live result) : stored = [] ↔ split.store = none := by
  rw [← List.map_eq_nil_iff, h.map_stored, Option.toList_eq_nil_iff, Option.map_eq_none_iff]

/-- The node is passed over only if the store's call has a fault. -/
theorem map_live (h : Collects split stored live result) (quiet : Faultless stored) :
    live.map Asked.call = (split.node.map .logs).toList := by
  cases h with
  | failed ofStore => exact absurd quiet ofStore.stops.not_faultless
  | both _ ofNode => exact ofNode.map_call

theorem live_ne_nil (h : Collects split stored live result) (quiet : Faultless stored) (hs : split.node ≠ none) :
    live ≠ [] := by
  rintro rfl
  have hlive := h.map_live quiet
  rw [List.map_nil, eq_comm, Option.toList_eq_nil_iff, Option.map_eq_none_iff] at hlive
  exact hs hlive

/-- The logs of both, in this order, if none of them failed. -/
theorem logs {fetched : Fetched} (h : Collects split stored live (.ok fetched)) :
    fetched = ⟨stored.flatMap Asked.logs ++ live.flatMap Asked.logs, split.hitsStore⟩ := by
  generalize hresult : (Except.ok fetched : Except Error Fetched) = result at h
  cases h with
  | failed => cases hresult
  | @both live logs answer ofStore ofNode =>
    cases answer with
    | error e => cases hresult
    | ok more =>
      cases hresult
      rw [ofStore.logs, ofNode.logs]

theorem fetched {fetched : Fetched} (h : Collects split stored live (.ok fetched))
    (asks : split.store = none → split.node ≠ none) :
    fetched.logs = stored.flatMap Asked.logs ++ live.flatMap Asked.logs ∧
      (fetched.hitStore = true ↔ stored ≠ []) ∧ (stored ≠ [] ∨ live ≠ []) := by
  have hquiet := (faultless_append.1 h.stops.quiet).1
  rw [h.logs]
  refine ⟨rfl, ?_, ?_⟩
  · rw [Ne, h.stored_eq_nil_iff, Split.hitsStore, Option.isSome_iff_ne_none]
  · rw [Ne, h.stored_eq_nil_iff, ← Decidable.imp_iff_not_or]
    exact fun hs => h.live_ne_nil hquiet (asks hs)

end Collects

end Calls

end LogGateway.Query
