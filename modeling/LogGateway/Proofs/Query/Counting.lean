/-
What the counters tell of queries made one after another. Main statement: each query counts once, as a hit of the store
if it gives a result after asking the store and as a timeout if it ran out of time, and its retries are as many as its
version reads saw the version move, however it ends.
-/
import LogGateway.Proofs.Query.Conduct
import Mathlib.Algebra.GroupWithZero.Nat

namespace LogGateway.Query

variable {σ : Type} {sources : Sources σ} {deadline : Nat} {filter : LogFilter} {before after : UInt64}
  {p q : Progress σ}

/-! ## Retries of a query -/

theorem moves_append {versions : List UInt64} (h : versions.getLast? = some before) (after : UInt64) :
    moves (versions ++ [after]) = moves versions + if after = before then 0 else 1 := by
  induction versions using moves.induct with
  | case1 => cases h
  | case2 version =>
    obtain rfl : version = before := Option.some.inj h
    simp only [List.cons_append, List.nil_append, moves, Nat.add_zero, Nat.zero_add]
  | case3 first second rest ih =>
    rw [List.getLast?_cons_cons] at h
    rw [List.cons_append, List.cons_append, moves, ← List.cons_append, ih h, moves, Nat.add_assoc]

/-- The retries so far are the moves that the log shows, `before` being the version read last. -/
structure Counted (before : UInt64) (p : Progress σ) : Prop where
  retries : p.retries = moves (versions p.asked)
  seen : (versions p.asked).getLast? = some before

theorem Counted.of_calls {calls : List Asked} (h : Counted before p) (hcalls : Makes sources deadline p calls q) :
    Counted before q := by
  have hsame : versions q.asked = versions p.asked := by
    rw [hcalls.asked, versions_append, versions_of_ne hcalls.kinds, List.append_nil]
  exact ⟨by rw [hcalls.retries, hsame, h.retries], by rw [hsame, h.seen]⟩

theorem Round.Ran.versions_closed {round : Round σ} (ran : round.Ran sources deadline filter) :
    Query.versions (round.closed sources).asked = Query.versions round.began.asked ++ [round.version] := by
  rw [ran.asked, versions_append, show Query.versions round.asked = _ from ran.versions]

theorem Counted.of_round {round : Round σ} (h : Counted before round.began) (ran : round.Ran sources deadline filter)
    (moved : round.version ≠ before) : Counted round.version (round.next sources) := by
  have hversions : versions (round.next sources).asked = versions round.began.asked ++ [round.version] :=
    ran.versions_closed
  have hretries : (round.next sources).retries = round.began.retries + 1 := congrArg (· + 1) ran.retries
  refine ⟨?_, ?_⟩
  · rw [hretries, hversions, moves_append h.seen, if_neg moved, h.retries]
  · rw [hversions, List.getLast?_concat]

theorem Moved.counted {rounds : List (Round σ)} (h : Moved sources deadline filter before p rounds after q)
    (hp : Counted before p) : Counted after q := by
  induction h with
  | refl => exact hp
  | step ran moved _ _ ih => exact ih (hp.of_round ran moved)

theorem version?_of_fault {a : Asked} {e : Error} (h : a.fault? = some e) : a.version? = none := by
  obtain ⟨call, start, outcome⟩ := a
  cases call with
  | version =>
    rcases outcome with - | e' | version
    · rfl
    · rfl
    · cases h
  | highest | stored | block | logs => rfl

/-- A failed version read shows no version. -/
theorem versions_of_failed_read {e : Error} (h : ask sources deadline .version p = .error e q) :
    versions q.asked = versions p.asked := by
  rcases @ask_logged σ sources deadline (· = .version) .version rfl p with
    ⟨version, r, hok, -⟩ | ⟨e', r, a, herror, hlog, hfault⟩
  · rw [h] at hok
    cases hok
  · rw [h] at herror
    cases herror
    have hnone : versions [a] = [] := List.filterMap_cons_none (version?_of_fault hfault)
    rw [hlog.asked, versions_append, hnone, List.append_nil]

theorem Ends.retries {n : UInt32} {result : EStateM.Result Error (Progress σ) (Option Fetched)}
    (h : Ends sources deadline filter before n p result) (hp : Counted before p) :
    (reached result).retries = moves (versions (reached result).asked) := by
  -- whatever the attempt comes to, it reads no version and counts no retry
  have hattempt : Counted before (reached (Query.attempt sources deadline filter p)) := by
    obtain ⟨inquiry, hcalls, -⟩ := attempt_course sources deadline filter p
    exact hp.of_calls hcalls
  cases h with
  | attempt failed =>
    rw [failed] at hattempt
    exact hattempt.retries
  | @read fetched q r e ended failed =>
    rw [ended] at hattempt
    have hretries := ask_retries sources deadline .version q
    rw [failed] at hretries
    show r.retries = moves (versions r.asked)
    rw [versions_of_failed_read failed]
    exact hretries.trans hattempt.retries
  | @settled round ran began same =>
    subst began
    show (round.closed sources).retries = moves (versions (round.closed sources).asked)
    rw [ran.versions_closed, moves_append hp.seen, if_pos same, ran.retries]
    exact hp.retries
  | late ran began moved _ =>
    subst began
    exact (hp.of_round ran moved).retries

/-- However a query ends, it was retried as often as its version reads saw the version move. -/
theorem run_retries {start limit : Nat} {state : σ} {outcome : Outcome σ}
    (h : run sources deadline filter start state limit = some outcome) :
    outcome.retries = moves (versions outcome.asked) := by
  obtain ⟨hasked, hretries⟩ := run_reached h
  rw [hasked, hretries]
  unfold trace
  have hopening := ask_retries sources deadline .version (⟨state, start, [], 0⟩ : Progress σ)
  rcases guarded_cases sources deadline filter limit ⟨state, start, [], 0⟩ with
    ⟨e, q, hv, hresult⟩ | ⟨opening, opened, moved, before, q, hv, hm, h⟩
  · rw [hv] at hopening
    rw [hresult]
    show q.retries = moves (versions q.asked)
    rw [versions_of_failed_read hv]
    exact hopening
  · have hopened : Counted opening opened := by
      obtain ⟨-, rfl⟩ := ask_ok hv
      exact ⟨rfl, rfl⟩
    rcases h with hlimit | ⟨n, hend⟩
    · rw [hlimit]
      exact (hm.counted hopened).retries
    · exact hend.retries (hm.counted hopened)

/-! ## Hits and timeouts -/

/-- A query hits the store if the calls of its last attempt ask the store for logs. -/
theorem run_hitStore {start limit : Nat} {state : σ} {outcome : Outcome σ} {fetched : Fetched}
    (h : run sources deadline filter start state limit = some outcome) (hok : outcome.result = .ok fetched) :
    ∃ calls, (attemptCalls outcome.asked).getLast? = some calls ∧
      (fetched.hitStore = true ↔ ∃ a ∈ calls, ∃ part, a.call = .stored part) := by
  obtain ⟨opening, before, opened, moved, last, hopen, hm, ran, -, rfl, hasked⟩ := run_ok h hok
  have hcalls : attemptCalls outcome.asked = moved.map Round.calls ++ [last.calls] := by
    rw [hasked, ran.asked, hm.attemptCalls_append hopen, ← List.append_nil last.asked, attemptCalls_round ran]
    rfl
  refine ⟨last.calls, by rw [hcalls, List.getLast?_concat], ?_⟩
  rw [ran.hitStore, List.any_eq_true]
  refine exists_congr fun a => and_congr_right fun _ => ?_
  obtain ⟨call, begun, result⟩ := a
  cases call <;> simp [Asked.isStored]

/-- A query that gives a result and hit the store. -/
def Outcome.hits (outcome : Outcome σ) : Bool :=
  match outcome.result with
  | .ok fetched => fetched.hitStore
  | .error _ => false

/-- A query that ran out of time. -/
def Outcome.timedOut (outcome : Outcome σ) : Bool :=
  match outcome.result with
  | .error .reorgTimeout => true
  | .error .deadlineExceeded => true
  | _ => false

/-! ## Counters of queries -/

/-- A query that ended. -/
structure Finished (σ : Type) where
  sources : Sources σ
  deadline : Nat
  filter : LogFilter
  start : Nat
  state : σ
  limit : Nat
  outcome : Outcome σ
  ran : run sources deadline filter start state limit = some outcome

/-- The counters after these queries. -/
def countAll (metrics : Metrics) (queries : List (Finished σ)) : Metrics :=
  queries.foldl (fun metrics query => metrics.count query.outcome) metrics

section Count

variable (metrics : Metrics) (queries : List (Finished σ))

theorem count_storeHits (outcome : Outcome σ) :
    (metrics.count outcome).storeHits = metrics.storeHits + .ofNat outcome.hits.toNat := by
  unfold Metrics.count Outcome.hits
  cases outcome.result with
  | error e => exact (UInt64.add_zero _).symm
  | ok fetched =>
    cases h : fetched.hitStore with
    | false => simp [h]
    | true => simp [h]

theorem count_timeouts (outcome : Outcome σ) :
    (metrics.count outcome).timeouts = metrics.timeouts + .ofNat outcome.timedOut.toNat := by
  unfold Metrics.count Outcome.timedOut
  cases outcome.result with
  | ok fetched => exact (UInt64.add_zero _).symm
  | error e => cases e <;> simp [Error.isTimeout]

/-- A counter to which each query adds so much. -/
theorem countAll_eq {counter : Metrics → UInt64} {amount : Finished σ → Nat}
    (h : ∀ metrics (query : Finished σ),
      counter (metrics.count query.outcome) = counter metrics + .ofNat (amount query)) :
    counter (countAll metrics queries) = counter metrics + .ofNat (queries.map amount).sum := by
  induction queries generalizing metrics with
  | nil => exact (UInt64.add_zero _).symm
  | cons query queries ih =>
    rw [countAll, List.foldl_cons, ← countAll, ih, h, List.map_cons, List.sum_cons, UInt64.ofNat_add, UInt64.add_assoc]

theorem sum_map_toNat (test : Finished σ → Bool) :
    (queries.map fun query => (test query).toNat).sum = queries.countP test := by
  induction queries with
  | nil => rfl
  | cons query queries ih =>
    rw [List.map_cons, List.sum_cons, ih, List.countP_cons, Nat.add_comm]
    cases test query <;> rfl

end Count

/-- What the counters tell, from any values on and modulo `2^64`. Each query counts once in the total, whether it gives
a result or fails. It is a hit of the store if it gives a result whose last attempt asked the store for logs, found or
not, and a timeout if it ran out of time. The retries are the moves that its version reads saw, however it ended. -/
theorem countAll_tells (metrics : Metrics) (queries : List (Finished σ)) :
    (countAll metrics queries).total = metrics.total + .ofNat queries.length ∧
    (countAll metrics queries).storeHits =
      metrics.storeHits + .ofNat (queries.countP fun query => query.outcome.hits) ∧
    (countAll metrics queries).timeouts =
      metrics.timeouts + .ofNat (queries.countP fun query => query.outcome.timedOut) ∧
    (countAll metrics queries).reorgRetries =
      metrics.reorgRetries + .ofNat (queries.map fun query => moves (versions query.outcome.asked)).sum ∧
    ∀ query ∈ queries, ∀ fetched, query.outcome.result = .ok fetched →
      ∃ calls, (attemptCalls query.outcome.asked).getLast? = some calls ∧
        (fetched.hitStore = true ↔ ∃ a ∈ calls, ∃ part, a.call = .stored part) := by
  refine ⟨?_, ?_, ?_, ?_, fun query _ fetched hok => run_hitStore query.ran hok⟩
  · rw [@countAll_eq _ metrics queries Metrics.total (fun _ => 1) fun _ _ => rfl, List.map_const',
      List.sum_replicate_nat, Nat.mul_one]
  · rw [← sum_map_toNat]
    exact countAll_eq metrics queries fun metrics query => count_storeHits metrics query.outcome
  · rw [← sum_map_toNat]
    exact countAll_eq metrics queries fun metrics query => count_timeouts metrics query.outcome
  · refine countAll_eq metrics queries fun metrics query => ?_
    rw [← run_retries query.ran]
    rfl

/-- A store that holds blocks without logs. -/
def hollowScene : Scene where
  store := .empty
  storedLogs := some []
  nodeLogs := []
  nodeBlocks := []
  versions := [told 1]
  highests := [told (some 5)]
  storedCalls := []
  blockCalls := []
  logCalls := []

/-- A total that wraps, a hit that finds no log, and a query whose time is over when its first attempt sees the version
move. -/
theorem countAll_tells_hollowScene :
    ∃ (hit storm : Finished Scene) (fetched : Fetched),
      hit.outcome.result = .ok fetched ∧ fetched.logs = [] ∧ storm.outcome.result = .error .reorgTimeout ∧
      let after := countAll ⟨0xffffffffffffffff, 0, 5, 0⟩ [hit, storm]
      after.total = 1 ∧ after.storeHits = 1 ∧ after.timeouts = 1 ∧ after.reorgRetries = 6 ∧
      ∃ calls, (attemptCalls hit.outcome.asked).getLast? = some calls ∧ ∃ a ∈ calls, ∃ part, a.call = .stored part := by
  let few : LogFilter := ⟨.range (some (.number 3)) (some (.number 4)), ⟨[], []⟩⟩
  have hhit : run Scene.sources 10 few 0 hollowScene 1 = some ((run Scene.sources 10 few 0 hollowScene 1).get rfl) :=
    (Option.some_get _).symm
  let whole : LogFilter := ⟨.range none none, ⟨[], []⟩⟩
  have hstorm : run Scene.sources 30 whole 0 stormScene 1 =
      some ((run Scene.sources 30 whole 0 stormScene 1).get rfl) := (Option.some_get _).symm
  obtain ⟨htotal, hhits, htimeouts, hretries, hasked⟩ :=
    countAll_tells ⟨0xffffffffffffffff, 0, 5, 0⟩ [⟨_, _, _, _, _, _, _, hhit⟩, ⟨_, _, _, _, _, _, _, hstorm⟩]
  refine ⟨⟨_, _, _, _, _, _, _, hhit⟩, ⟨_, _, _, _, _, _, _, hstorm⟩, ⟨[], true⟩, rfl, rfl, rfl, ?_⟩
  refine ⟨htotal.trans (by simp), hhits.trans rfl, htimeouts.trans rfl, hretries.trans rfl, ?_⟩
  obtain ⟨calls, hcalls, hhit⟩ := hasked _ (List.mem_cons_self ..) ⟨[], true⟩ rfl
  exact ⟨calls, hcalls, hhit.1 rfl⟩

end LogGateway.Query
