/-
How the attempts of a query ask their questions. Main statement: the highest block comes first and decides who is asked
for what, each at most once; a call with a fault is the last, and a result has the logs of the store and then those of
the node. So goes every attempt of every query, whatever the store and the node reply.
-/
import LogGateway.Proofs.Chain.Splitting
import LogGateway.Proofs.Query.Course

namespace LogGateway.Query

variable {σ : Type} {sources : Sources σ} {deadline : Nat} {filter : LogFilter} {split : Split}
  {asked : List Asked} {p q : Progress σ}

/-! ## The rules of an attempt -/

/-- Blocks of the filter's range, which ends at `last`, lie on both sides of the highest stored one. -/
def Straddles (filter : LogFilter) (top last : UInt64) : Prop :=
  ∃ first, filter.selection = .range (some (.number first)) (some (.number last)) ∧ first ≤ top ∧ top < last

/-- A call that was answered so. -/
def Tells (a : Asked) (call : Call) (answer : call.Answer) : Prop := ∃ start, a = ⟨call, start, some (.ok answer)⟩

theorem tells_iff {call : Call} {start : Nat} {answer other : call.Answer} :
    Tells ⟨call, start, some (.ok answer)⟩ call other ↔ answer = other := by
  constructor
  · rintro ⟨_, h⟩
    cases h
    rfl
  · rintro rfl
    exact ⟨start, rfl⟩

theorem Tells.fault? {a : Asked} {call : Call} {answer : call.Answer} (h : Tells a call answer) :
    a.fault? = call.refusal? answer := by
  obtain ⟨start, rfl⟩ := h
  rfl

/-- The rules that an attempt keeps in its calls, and what it comes to by them. -/
structure Inquiry.Orderly (filter : LogFilter) (inquiry : Inquiry) (result : Except Error Fetched) : Prop where
  opens : inquiry.first.call = .highest
  /-- With an empty store, the node is asked for all of the query, and nothing else is asked. -/
  empty : Tells inquiry.first .highest none →
    inquiry.lookUps = [] ∧ inquiry.stored = [] ∧ inquiry.live.map Asked.call = [.logs filter]
  /-- With blocks in the store, the block of a hash is looked up once. -/
  lookUp : ∀ top, Tells inquiry.first .highest (some top) → ∀ hash, filter.selection = .block hash →
    inquiry.lookUps.map Asked.call = [.block hash]
  noLookUp : ∀ first last, filter.selection = .range first last → inquiry.lookUps = []
  /-- Without a block of the hash nobody is asked for logs. -/
  unknown : ∀ hash, ∀ a ∈ inquiry.lookUps, Tells a (.block hash) none →
    inquiry.stored = [] ∧ inquiry.live = [] ∧ result = .error (.unknownBlock hash)
  /-- The store is asked once at most, and for no block above its highest. -/
  stored : inquiry.stored.length ≤ 1 ∧ ∀ a ∈ inquiry.stored, ∃ top part, Tells inquiry.first .highest (some top) ∧
    a.call = .stored part ∧ part.last ≤ top ∧ part.criteria = filter.criteria
  /-- The node is asked once at most: for the blocks after the highest stored one if the range has blocks on both sides
  of it, and else for all of the query. -/
  live : inquiry.live.length ≤ 1 ∧ ∀ a ∈ inquiry.live,
    a.call = .logs filter ∧ (∀ top last, Tells inquiry.first .highest (some top) → ¬ Straddles filter top last) ∨
    ∃ top last next, Tells inquiry.first .highest (some top) ∧ Straddles filter top last ∧
      next.toNat = top.toNat + 1 ∧ a.call = .logs (filter.withRange (.number next) (some (.number last)))
  /-- With blocks on both sides both are asked, unless the store's call has a fault. -/
  both : ∀ top last, Tells inquiry.first .highest (some top) → Straddles filter top last →
    inquiry.stored ≠ [] ∧ (Faultless inquiry.stored → inquiry.live ≠ [])
  /-- A call with a fault is the last one, and the attempt fails with its error. -/
  stops : Stops inquiry.calls result
  /-- A result has the logs of the store and after them those of the node, of which one was asked at least. -/
  fetched : ∀ fetched, result = .ok fetched →
    fetched.logs = inquiry.stored.flatMap Asked.logs ++ inquiry.live.flatMap Asked.logs ∧
      (fetched.hitStore = true ↔ inquiry.stored ≠ []) ∧ (inquiry.stored ≠ [] ∨ inquiry.live ≠ [])

/-- The parts of a split suit a store with this highest block. -/
structure Suits (filter : LogFilter) (top : UInt64) (split : Split) : Prop where
  store : ∀ part ∈ split.store, part.last ≤ top ∧ part.criteria = filter.criteria
  node : ∀ part ∈ split.node, part = filter ∧ (∀ last, ¬ Straddles filter top last) ∨
    ∃ last next, Straddles filter top last ∧ next.toNat = top.toNat + 1 ∧
      part = filter.withRange (.number next) (some (.number last))
  asks : split.store = none → split.node ≠ none
  both : ∀ last, Straddles filter top last → split.store ≠ none ∧ split.node ≠ none

theorem suits_nodeOnly {top : UInt64} (h : ∀ last, ¬ Straddles filter top last) :
    Suits filter top (.nodeOnly filter) where
  store := by simp [Split.nodeOnly]
  node := by
    rintro _ ⟨rfl⟩
    exact .inl ⟨rfl, h⟩
  asks := by simp [Split.nodeOnly]
  both last hst := absurd hst (h last)

theorem suits_storeOnly {part : StoreFilter} {top : UInt64} (h : ∀ last, ¬ Straddles filter top last)
    (hlast : part.last ≤ top) (hcriteria : part.criteria = filter.criteria) :
    Suits filter top (.storeOnly part) where
  store := by
    rintro _ ⟨rfl⟩
    exact ⟨hlast, hcriteria⟩
  node := by simp [Split.storeOnly]
  asks := by simp [Split.storeOnly]
  both last hst := absurd hst (h last)

theorem not_straddles_of_block {hash : Hash} (hs : filter.selection = .block hash) (top last : UInt64) :
    ¬ Straddles filter top last := by
  rintro ⟨first, hrange, -⟩
  rw [hs] at hrange
  cases hrange

theorem suits_ofBlock {hash : Hash} (hs : filter.selection = .block hash) (number top : UInt64) :
    Suits filter top (.ofBlock filter number top) := by
  unfold Split.ofBlock
  by_cases habove : top < number
  · rw [if_pos habove]
    exact suits_nodeOnly (not_straddles_of_block hs top)
  · rw [if_neg habove]
    exact suits_storeOnly (not_straddles_of_block hs top) (UInt64.not_lt.1 habove) rfl

theorem straddles_of_numbers {first last : UInt64}
    (hs : filter.selection = .range (some (.number first)) (some (.number last))) (top last' : UInt64) :
    Straddles filter top last' ↔ last' = last ∧ first ≤ top ∧ top < last := by
  unfold Straddles
  rw [hs]
  constructor
  · rintro ⟨_, ⟨rfl, rfl⟩, h⟩
    exact ⟨rfl, h⟩
  · rintro ⟨rfl, h⟩
    exact ⟨first, rfl, h⟩

theorem suits_ofNumbers {first last : UInt64}
    (hs : filter.selection = .range (some (.number first)) (some (.number last))) (top : UInt64) :
    Suits filter top (.ofNumbers filter first last top) := by
  have hdivides := Split.ofNumbers_divides filter first last top
  generalize Split.ofNumbers filter first last top = split at hdivides
  cases hdivides with
  | above h =>
    refine suits_nodeOnly fun last' hst => ?_
    exact UInt64.not_le.2 h ((straddles_of_numbers hs top last').1 hst).2.1
  | below _ h' =>
    refine suits_storeOnly (fun last' hst => ?_) h' rfl
    exact UInt64.not_le.2 ((straddles_of_numbers hs top last').1 hst).2.2 h'
  | @across h next hnext h' =>
    -- the next block is one of the range, so that the range goes on above the highest
    have hlast : top < last := by
      rw [UInt64.le_iff_toNat_le] at h'
      rw [UInt64.lt_iff_toNat_lt]
      omega
    refine ⟨?_, ?_, by simp, by simp⟩
    · rintro _ ⟨rfl⟩
      exact ⟨UInt64.le_refl top, rfl⟩
    · rintro _ ⟨rfl⟩
      exact .inr ⟨last, next, (straddles_of_numbers hs top last).2 ⟨rfl, h, hlast⟩, hnext, rfl⟩

theorem suits_ofRange (filter : LogFilter) (top : UInt64) : Suits filter top (.ofRange filter top) := by
  by_cases hs : ∃ first last, filter.selection = .range (some (.number first)) (some (.number last))
  · obtain ⟨first, last, hs⟩ := hs
    rw [Split.ofRange_of_numbers hs]
    exact suits_ofNumbers hs top
  · have hs : ∀ first last, filter.selection ≠ .range (some (.number first)) (some (.number last)) :=
      fun first last h => hs ⟨first, last, h⟩
    rw [Split.ofRange_of_ne hs]
    refine suits_nodeOnly ?_
    rintro last ⟨first, h, -⟩
    exact hs first last h

/-- The rules hold of a split that suits the store, after calls without a fault that told what to ask for. -/
theorem Collects.orderly {start : Nat} {top : UInt64} {lookUps stored live : List Asked}
    {result : Except Error Fetched} (h : Collects split stored live result) (suits : Suits filter top split)
    (lookUp : ∀ hash, filter.selection = .block hash → lookUps.map Asked.call = [.block hash])
    (noLookUp : ∀ first last, filter.selection = .range first last → lookUps = []) (quiet : Faultless lookUps) :
    Inquiry.Orderly filter ⟨⟨.highest, start, some (.ok (some top))⟩, lookUps, stored, live⟩ result where
  opens := rfl
  empty := by
    intro htells
    cases tells_iff.1 htells
  lookUp _ _ hash hs := lookUp hash hs
  noLookUp := noLookUp
  unknown := by
    intro hash a ha htells
    -- to find no block is a fault, and the look-up had none
    have hfault : a.fault? = some (.unknownBlock hash) := htells.fault?
    rw [quiet a ha] at hfault
    cases hfault
  stored := by
    refine ⟨?_, fun a ha => ?_⟩
    · rw [← List.length_map Asked.call, h.map_stored]
      exact Option.length_toList_le
    · obtain ⟨part, hpart, hcall⟩ := h.mem_stored ha
      exact ⟨top, part, tells_iff.2 rfl, hcall, suits.store part hpart⟩
  live := by
    refine ⟨h.length_live, fun a ha => ?_⟩
    obtain ⟨part, hpart, hcall⟩ := h.mem_live ha
    rcases suits.node part hpart with ⟨rfl, hone⟩ | ⟨last, next, hboth, hnext, rfl⟩
    · refine .inl ⟨hcall, fun top' last htells => ?_⟩
      obtain rfl := Option.some.inj (tells_iff.1 htells)
      exact hone last
    · exact .inr ⟨top, last, next, tells_iff.2 rfl, hboth, hnext, hcall⟩
  both := by
    intro top' last htells hst
    obtain rfl := Option.some.inj (tells_iff.1 htells)
    obtain ⟨hstore, hnode⟩ := suits.both last hst
    exact ⟨fun hnone => hstore (h.stored_eq_nil_iff.1 hnone), fun hquiet => h.live_ne_nil hquiet hnode⟩
  stops := (h.stops.append quiet).cons rfl
  fetched := by
    rintro fetched rfl
    exact h.fetched suits.asks

/-- The rules hold where the highest block cannot be read. -/
theorem orderly_unread {first : Asked} {e : Error} (call : first.call = .highest) (fault : first.fault? = some e) :
    Inquiry.Orderly filter ⟨first, [], [], []⟩ (.error e) := by
  have hquiet : ∀ answer, ¬ Tells first .highest answer := by
    intro answer htells
    rw [htells.fault?] at fault
    cases fault
  exact {
    opens := call
    empty := fun htells => absurd htells (hquiet none)
    lookUp := fun top htells => absurd htells (hquiet (some top))
    noLookUp := fun _ _ _ => rfl
    unknown := by simp
    stored := by simp
    live := by simp
    both := fun top _ htells => absurd htells (hquiet (some top))
    stops := .at fault
    fetched := by simp }

/-- The rules hold of an empty store. -/
theorem Collects.orderly_empty {start : Nat} {stored live : List Asked} {result : Except Error Fetched}
    (h : Collects (.nodeOnly filter) stored live result) :
    Inquiry.Orderly filter ⟨⟨.highest, start, some (.ok none)⟩, [], stored, live⟩ result := by
  obtain rfl := h.stored_eq_nil_iff.2 rfl
  have hlive : live.map Asked.call = [.logs filter] := h.map_live faultless_nil
  have hempty : ∀ top, ¬ Tells ⟨.highest, start, some (.ok none)⟩ .highest (some top) := by
    intro top htells
    cases tells_iff.1 htells
  have hasks : (Split.nodeOnly filter).node ≠ none := by simp [Split.nodeOnly]
  exact {
    opens := rfl
    empty := fun _ => ⟨rfl, rfl, hlive⟩
    lookUp := fun top htells => absurd htells (hempty top)
    noLookUp := fun _ _ _ => rfl
    unknown := by simp
    stored := by simp
    live := by
      refine ⟨h.length_live, fun a ha => .inl ⟨?_, fun top _ htells => absurd htells (hempty top)⟩⟩
      exact List.mem_singleton.1 (hlive ▸ List.mem_map_of_mem ha)
    both := fun top _ htells => absurd htells (hempty top)
    stops := h.stops.cons rfl
    fetched := by
      rintro fetched rfl
      exact h.fetched fun _ => hasks }

/-- The rules hold where the block of a hash is not found. -/
theorem orderly_unfound {start : Nat} {top : UInt64} {hash : Hash} {lookUp : Asked} {e : Error}
    (selection : filter.selection = .block hash) (call : lookUp.call = .block hash) (fault : lookUp.fault? = some e) :
    Inquiry.Orderly filter ⟨⟨.highest, start, some (.ok (some top))⟩, [lookUp], [], []⟩ (.error e) where
  opens := rfl
  empty htells := by cases tells_iff.1 htells
  lookUp _ _ hash' hs := by
    rw [selection] at hs
    cases hs
    exact congrArg (fun call => [call]) call
  noLookUp first last hs := by
    rw [selection] at hs
    cases hs
  unknown := by
    intro hash' a ha htells
    obtain rfl := List.mem_singleton.1 ha
    have hunknown : a.fault? = some (.unknownBlock hash') := htells.fault?
    rw [fault] at hunknown
    cases hunknown
    exact ⟨rfl, rfl, rfl⟩
  stored := by simp
  live := by simp
  both _ last _ hst := absurd hst (not_straddles_of_block selection _ last)
  stops := (Stops.at fault).cons rfl
  fetched := by simp

theorem Course.orderly {inquiry : Inquiry} {result : Except Error Fetched} (h : Course filter inquiry result) :
    inquiry.Orderly filter result := by
  cases h with
  | unread call fault => exact orderly_unread call fault
  | empty rest => exact rest.orderly_empty
  | @range start top first last stored live result selection rest =>
    refine rest.orderly (suits_ofRange filter top) (fun hash hs => ?_) (fun _ _ _ => rfl) faultless_nil
    rw [selection] at hs
    cases hs
  | unfound selection call fault => exact orderly_unfound selection call fault
  | @found start time top hash block stored live result selection rest =>
    refine rest.orderly (suits_ofBlock selection block.number top) (fun hash' hs => ?_) (fun first last hs => ?_)
      (faultless_singleton.2 rfl)
    · rw [selection] at hs
      cases hs
      rfl
    · rw [selection] at hs
      cases hs

/-! ## The attempts of a run -/

/-- The calls of each attempt in a log: the stretches without a version read. -/
def attemptCalls (asked : List Asked) : List (List Asked) :=
  (asked.splitOnP fun a => a.call = .version).filter fun calls => !calls.isEmpty

section AttemptCalls

variable {a : Asked} {calls later : List Asked}

theorem attemptCalls_version (h : a.call = .version) : attemptCalls (a :: later) = attemptCalls later := by
  have hsplit := @List.splitOnP_append_cons_of_forall_mem _ (fun a : Asked => decide (a.call = .version)) [] (by simp)
    a (by simpa using h) later
  rw [attemptCalls, attemptCalls, ← List.nil_append (a :: later), hsplit, List.filter_cons_of_neg (by simp)]

theorem attemptCalls_of_ne (hne : calls ≠ []) (h : ∀ a ∈ calls, a.call ≠ .version) :
    attemptCalls calls = [calls] := by
  rw [attemptCalls, List.splitOnP_eq_singleton (by simpa using h), List.filter_cons_of_pos (by simpa using hne)]
  rfl

theorem attemptCalls_append (hne : calls ≠ []) (h : ∀ a ∈ calls, a.call ≠ .version) (ha : a.call = .version) :
    attemptCalls (calls ++ a :: later) = calls :: attemptCalls later := by
  rw [attemptCalls, List.splitOnP_append_cons_of_forall_mem (by simpa using h) a (by simpa using ha),
    List.filter_cons_of_pos (by simpa using hne)]
  rfl

theorem attemptCalls_round {round : Round σ} (ran : round.Ran sources deadline filter) :
    attemptCalls (round.asked ++ later) = round.calls :: attemptCalls later := by
  obtain ⟨outcome, calls, hcalls, -⟩ := ran.opens
  rw [Round.asked, List.append_assoc]
  exact attemptCalls_append (by simp [hcalls]) ran.called.unversioned rfl

theorem attemptCalls_moved {rounds : List (Round σ)} (ran : ∀ round ∈ rounds, round.Ran sources deadline filter) :
    attemptCalls (rounds.flatMap Round.asked ++ later) = rounds.map Round.calls ++ attemptCalls later := by
  induction rounds with
  | nil => rfl
  | cons round rounds ih =>
    rw [List.flatMap_cons, List.append_assoc, attemptCalls_round (ran round (List.mem_cons_self ..)),
      ih fun r hr => ran r (List.mem_cons_of_mem _ hr)]
    rfl

end AttemptCalls

/-- An attempt that began at `p` made these calls, and the log shows them. -/
structure Shows (sources : Sources σ) (deadline : Nat) (filter : LogFilter) (asked calls : List Asked)
    (p : Progress σ) : Prop where
  logged : Logged sources deadline (· ≠ .version) p calls (reached (attempt sources deadline filter p))
  begins : (reached (attempt sources deadline filter p)).asked <+: asked

theorem Shows.mono {calls more : List Asked} (h : Shows sources deadline filter asked calls p)
    (hmore : asked <+: more) : Shows sources deadline filter more calls p :=
  ⟨h.logged, h.begins.trans hmore⟩

theorem Round.Ran.shows {round : Round σ} (ran : round.Ran sources deadline filter) :
    Shows sources deadline filter (round.closed sources).asked round.calls round.began := by
  have hlogged := ran.attempt_logged.1
  refine ⟨?_, ?_⟩
  · rw [ran.attempt]
    exact hlogged
  · rw [ran.attempt, reached, ran.read_logged.asked]
    exact List.prefix_append ..

theorem Moved.shows {before after : UInt64} {rounds : List (Round σ)}
    (h : Moved sources deadline filter before p rounds after q) :
    ∀ round ∈ rounds, Shows sources deadline filter q.asked round.calls round.began := by
  induction h with
  | refl => simp
  | step ran _ _ rest ih =>
    intro round hr
    rcases List.mem_cons.1 hr with rfl | hr
    · refine ran.shows.mono ?_
      rw [rest.asked]
      exact List.prefix_append ..
    · exact ih round hr

/-- The last round makes an attempt, which the version read after it ends if it comes to that. -/
theorem Ends.shows {before : UInt64} {n : UInt32} {result : EStateM.Result Error (Progress σ) (Option Fetched)}
    (h : Ends sources deadline filter before n p result) :
    ∃ calls later, (reached result).asked = p.asked ++ later ∧ attemptCalls later = [calls] ∧
      Shows sources deadline filter (reached result).asked calls p := by
  obtain ⟨outcome, calls, hlog, -⟩ := attempt_opens sources deadline filter p
  cases h with
  | attempt failed =>
    refine ⟨_, _, ?_, attemptCalls_of_ne (by simp) hlog.kinds, hlog, ?_⟩
    · rw [failed] at hlog
      exact hlog.asked
    · rw [failed]
      exact List.prefix_refl _
  | @read fetched q r e ended failed =>
    obtain ⟨outcome', hread⟩ := ask_called sources deadline .version q
    rw [failed] at hread
    have hasked : r.asked = q.asked ++ _ := hread.asked
    have hclosed := @attemptCalls_append ⟨.version, q.now, outcome'⟩ _ [] (by simp) hlog.kinds rfl
    refine ⟨_, _, ?_, hclosed, hlog, ?_⟩
    · rw [ended] at hlog
      rw [← List.append_assoc, ← show q.asked = _ from hlog.asked]
      exact hasked
    · rw [ended]
      exact hasked ▸ List.prefix_append ..
  | settled ran began _ =>
    subst began
    refine ⟨_, _, ran.asked, ?_, ran.shows⟩
    rw [← List.append_nil (Round.asked _)]
    exact attemptCalls_round ran
  | late ran began _ _ =>
    subst began
    refine ⟨_, _, ran.asked, ?_, ran.shows⟩
    rw [← List.append_nil (Round.asked _)]
    exact attemptCalls_round ran

/-- A query fails at the version read that opens it, or runs rounds that see the version move, until it reaches its
limit or comes to a round that ends it. -/
theorem guarded_cases (sources : Sources σ) (deadline : Nat) (filter : LogFilter) (limit : Nat) (p : Progress σ) :
    (∃ e q, ask sources deadline .version p = .error e q ∧ guarded sources deadline filter limit p = .error e q) ∨
    ∃ opening opened moved before q, ask sources deadline .version p = .ok opening opened ∧
      Moved sources deadline filter opening opened moved before q ∧
      (guarded sources deadline filter limit p = .ok none q ∨
        ∃ n, Ends sources deadline filter before n q (guarded sources deadline filter limit p)) := by
  unfold guarded
  cases hv : ask sources deadline .version p with
  | error e q => exact .inl ⟨e, q, rfl, bind_of_error hv⟩
  | ok opening opened =>
    rw [bind_of_ok hv]
    obtain ⟨moved, before, q, hm, h⟩ := @rounds_cases σ sources deadline filter limit 1 opening opened
    refine .inr ⟨opening, opened, moved, before, q, rfl, hm, ?_⟩
    rcases h with ⟨-, hlimit⟩ | ⟨-, hend⟩
    · exact .inl hlimit
    · exact .inr ⟨_, hend⟩

/-- The attempts so far, of a query that opened and ran these rounds. -/
theorem Moved.attemptCalls_append {start : Nat} {state : σ} {opening before : UInt64} {opened : Progress σ}
    {moved : List (Round σ)} (h : Moved sources deadline filter opening opened moved before q)
    (hv : ask sources deadline .version ⟨state, start, [], 0⟩ = .ok opening opened) (later : List Asked) :
    attemptCalls (q.asked ++ later) = moved.map Round.calls ++ attemptCalls later := by
  have hopened : opened.asked = [.read start opening] := by
    obtain ⟨-, rfl⟩ := ask_ok hv
    rfl
  rw [h.asked, hopened, List.append_assoc, List.singleton_append, attemptCalls_version rfl, attemptCalls_moved h.ran]

theorem trace_shows (sources : Sources σ) (deadline : Nat) (filter : LogFilter) (start : Nat) (state : σ)
    (limit : Nat) :
    ∀ calls ∈ attemptCalls (trace sources deadline filter start state limit),
      ∃ p, Shows sources deadline filter (trace sources deadline filter start state limit) calls p := by
  unfold trace
  obtain ⟨first, hlog⟩ := ask_called sources deadline .version ⟨state, start, [], 0⟩
  rcases guarded_cases sources deadline filter limit ⟨state, start, [], 0⟩ with
    ⟨e, q, hv, hresult⟩ | ⟨opening, opened, moved, before, q, hv, hm, h⟩
  · -- the log is the failed read alone
    rw [hv] at hlog
    rw [hresult, reached, show q.asked = _ from hlog.asked, List.nil_append, attemptCalls_version rfl]
    simp [attemptCalls]
  · have hq := fun later => hm.attemptCalls_append hv later
    intro calls hcalls
    -- at the limit all attempts are those of the rounds, and else there is one more, which ended the query
    rcases h with hlimit | ⟨n, hend⟩
    · rw [hlimit, reached, ← List.append_nil q.asked, hq, List.mem_append, List.mem_map] at hcalls
      rw [hlimit]
      rcases hcalls with ⟨round, hr, rfl⟩ | hnone
      · exact ⟨_, hm.shows round hr⟩
      · simp [attemptCalls] at hnone
    · obtain ⟨last, later, hasked, hlater, hshows⟩ := hend.shows
      rw [hasked, hq, hlater, List.mem_append, List.mem_map, List.mem_singleton] at hcalls
      rcases hcalls with ⟨round, hr, rfl⟩ | rfl
      · exact ⟨_, (hm.shows round hr).mono (hasked ▸ List.prefix_append ..)⟩
      · exact ⟨_, hshows⟩

/-- What a query that ended came to, as its steps left it. -/
theorem run_reached {start limit : Nat} {state : σ} {outcome : Outcome σ}
    (h : run sources deadline filter start state limit = some outcome) :
    outcome.asked = trace sources deadline filter start state limit ∧
      outcome.retries = (reached (guarded sources deadline filter limit ⟨state, start, [], 0⟩)).retries := by
  unfold run at h
  unfold trace
  generalize guarded sources deadline filter limit ⟨state, start, [], 0⟩ = result at h ⊢
  rcases result with ⟨- | fetched, q⟩ | ⟨e, q⟩
  · cases h
  · cases h
    exact ⟨rfl, rfl⟩
  · cases h
    exact ⟨rfl, rfl⟩

/-- Every attempt keeps the rules, whatever the store and the node reply: from any point on, and wherever the log of a
query shows one. -/
theorem attempt_orderly (sources : Sources σ) (deadline : Nat) (filter : LogFilter) :
    (∀ p, ∃ inquiry : Inquiry,
      Logged sources deadline (· ≠ .version) p inquiry.calls (reached (attempt sources deadline filter p)) ∧
        inquiry.Orderly filter (ending (attempt sources deadline filter p))) ∧
    ∀ start state limit, let log := trace sources deadline filter start state limit
      (∀ calls ∈ attemptCalls log, ∃ p, ∃ inquiry : Inquiry, inquiry.calls = calls ∧
        Shows sources deadline filter log calls p ∧
        inquiry.Orderly filter (ending (attempt sources deadline filter p))) ∧
      ∀ outcome, run sources deadline filter start state limit = some outcome → outcome.asked = log := by
  refine ⟨fun p => ?_, fun start state limit => ⟨fun calls hcalls => ?_, fun outcome hrun => ?_⟩⟩
  · obtain ⟨inquiry, hlog, hcourse⟩ := attempt_course sources deadline filter p
    exact ⟨inquiry, hlog.toLogged, hcourse.orderly⟩
  · obtain ⟨p, hshows⟩ := trace_shows sources deadline filter start state limit calls hcalls
    obtain ⟨inquiry, hlog, hcourse⟩ := attempt_course sources deadline filter p
    have hsame : inquiry.calls = calls := List.append_cancel_left (hlog.asked.symm.trans hshows.logged.asked)
    exact ⟨p, inquiry, hsame, hshows, hcourse.orderly⟩
  · exact (run_reached hrun).1

/-- A store that loses its blocks while it is asked, and a node that has logs. -/
def shrinkingScene : Scene where
  store := .empty
  storedLogs := some []
  nodeLogs := []
  nodeBlocks := []
  versions := [told 1, told 2]
  highests := [told (some 5), told none]
  storedCalls := []
  blockCalls := []
  logCalls := [told [plainLog 1], told [plainLog 2]]

theorem attempt_orderly_shrinkingScene :
    let filter : LogFilter := ⟨.range (some (.number 3)) (some (.number 8)), ⟨[], []⟩⟩
    ∃ (outcome : Outcome Scene) (first second : Inquiry) (p q : Progress Scene),
      run Scene.sources 10 filter 0 shrinkingScene 5 = some outcome ∧
      attemptCalls outcome.asked = [first.calls, second.calls] ∧
      first.calls.map Asked.call = [.highest, .stored ⟨3, 5, ⟨[], []⟩⟩,
        .logs ⟨.range (some (.number 6)) (some (.number 8)), ⟨[], []⟩⟩] ∧
      first.Orderly filter (ending (attempt Scene.sources 10 filter p)) ∧
      second.calls.map Asked.call = [.highest, .logs filter] ∧
      second.Orderly filter (ending (attempt Scene.sources 10 filter q)) := by
  intro filter
  have hrun : run Scene.sources 10 filter 0 shrinkingScene 5 =
      some ((run Scene.sources 10 filter 0 shrinkingScene 5).get rfl) := (Option.some_get _).symm
  obtain ⟨hall, hlog⟩ := (attempt_orderly Scene.sources 10 filter).2 0 shrinkingScene 5
  have htrace := hlog _ hrun
  have hcalls : attemptCalls (trace Scene.sources 10 filter 0 shrinkingScene 5) =
      [[⟨.highest, 0, some (.ok (some 5))⟩, ⟨.stored ⟨3, 5, ⟨[], []⟩⟩, 0, some (.ok [])⟩,
          ⟨.logs (filter.withRange (.number 6) (some (.number 8))), 0, some (.ok [plainLog 1])⟩],
        [⟨.highest, 0, some (.ok none)⟩, ⟨.logs filter, 0, some (.ok [plainLog 2])⟩]] := by
    decide +kernel
  rw [hcalls] at hall
  obtain ⟨p, first, hfirst, -, horderly⟩ := hall _ (List.mem_cons_self ..)
  obtain ⟨q, second, hsecond, -, horderly'⟩ := hall _ (List.mem_cons_of_mem _ (List.mem_cons_self ..))
  refine ⟨_, first, second, p, q, hrun, ?_, ?_, horderly, ?_, horderly'⟩
  · rw [htrace, hcalls, hfirst, hsecond]
  · rw [hfirst]
    rfl
  · rw [hsecond]
    rfl

end LogGateway.Query
