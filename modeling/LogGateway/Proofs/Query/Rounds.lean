/-
The retry loop of a guarded query. A round is an attempt and the version read that closes it; a query is
a number of rounds that saw the version move, and a last one that ends it. A query that succeeds gives
what its last attempt fetched, and that attempt lies between two equal version reads.
-/
import LogGateway.Proofs.Query.Steps
import LogGateway.Query.Script

namespace LogGateway.Query

variable {σ : Type}

/-! ## Rounds -/

/-- A round: an attempt with its calls and what it fetched, and the version read after it. -/
structure Round (σ : Type) where
  began : Progress σ
  calls : List Asked
  fetched : Fetched
  ended : Progress σ
  version : UInt64

namespace Round

/-- The calls of the attempt and the read after it. -/
def asked (round : Round σ) : List Asked := round.calls ++ [.read round.ended.now round.version]

/-- Where the round is over. -/
def closed (sources : Sources σ) (round : Round σ) : Progress σ :=
  answered sources .version round.version round.ended

/-- Where a round after this one begins. -/
def next (sources : Sources σ) (round : Round σ) : Progress σ :=
  { round.closed sources with retries := round.ended.retries + 1 }

/-- The round is one that a query runs: its attempt makes its calls and fetches what it fetched, and the
version read after it gives its version. -/
structure Ran (sources : Sources σ) (deadline : Nat) (filter : LogFilter) (round : Round σ) : Prop where
  attempt : attempt sources deadline filter round.began = .ok round.fetched round.ended
  called : Called round.began round.calls round.ended
  logs : round.fetched.logs = round.calls.flatMap Asked.logs
  hitStore : round.fetched.hitStore = round.calls.any Asked.isStored
  read : ask sources deadline .version round.ended = .ok round.version (round.closed sources)

variable {sources : Sources σ} {deadline : Nat} {filter : LogFilter}

theorem Ran.asked {round : Round σ} (h : round.Ran sources deadline filter) :
    (round.closed sources).asked = round.began.asked ++ round.asked := by
  simp only [Round.closed, answered, Round.asked, h.called.asked, Asked.read, List.append_assoc]

theorem Ran.retries {round : Round σ} (h : round.Ran sources deadline filter) :
    (round.closed sources).retries = round.began.retries :=
  h.called.retries

/-- A round reads the version once. -/
theorem Ran.versions {round : Round σ} (h : round.Ran sources deadline filter) :
    round.asked.filterMap Asked.version? = [round.version] := by
  have hnone : round.calls.filterMap Asked.version? = [] :=
    List.filterMap_eq_nil_iff.2 fun a ha => Asked.version?_of_ne (h.called.unversioned a ha)
  rw [Round.asked, List.filterMap_append, hnone]
  rfl

end Round

/-- From `p`, with the version `before` read, a query ran these rounds, each of which saw the version move
ahead of the deadline. It is at `q` now and read `after` last. -/
inductive Moved (sources : Sources σ) (deadline : Nat) (filter : LogFilter) :
    UInt64 → Progress σ → List (Round σ) → UInt64 → Progress σ → Prop
  | refl (before : UInt64) (p : Progress σ) : Moved sources deadline filter before p [] before p
  | step {before after : UInt64} {round : Round σ} {rounds : List (Round σ)} {q : Progress σ}
      (ran : round.Ran sources deadline filter) (moved : round.version ≠ before)
      (early : (round.closed sources).now < deadline)
      (rest : Moved sources deadline filter round.version (round.next sources) rounds after q) :
      Moved sources deadline filter before round.began (round :: rounds) after q

/-- How the last round of a query ends, begun at `p` with the version `before` read. -/
inductive Ends (sources : Sources σ) (deadline : Nat) (filter : LogFilter) (before : UInt64)
    (attempts : UInt32) (p : Progress σ) : EStateM.Result Error (Progress σ) (Option Fetched) → Prop
  | attempt {e : Error} {q : Progress σ} (failed : attempt sources deadline filter p = .error e q) :
      Ends sources deadline filter before attempts p (.error (blame attempts e) q)
  | read {fetched : Fetched} {q r : Progress σ} {e : Error}
      (ended : Query.attempt sources deadline filter p = .ok fetched q)
      (failed : ask sources deadline .version q = .error e r) :
      Ends sources deadline filter before attempts p (.error (blame attempts e) r)
  | settled {round : Round σ} (ran : round.Ran sources deadline filter) (began : round.began = p)
      (same : round.version = before) :
      Ends sources deadline filter before attempts p (.ok (some round.fetched) (round.closed sources))
  | late {round : Round σ} (ran : round.Ran sources deadline filter) (began : round.began = p)
      (moved : round.version ≠ before) (late : deadline ≤ (round.closed sources).now) :
      Ends sources deadline filter before attempts p (.error .reorgTimeout (round.next sources))

variable {sources : Sources σ} {deadline : Nat} {filter : LogFilter}

/-! ## The loop -/

/-- An attempt that ended and a version read after it make a round. -/
theorem exists_round {p q r : Progress σ} {fetched : Fetched} {version : UInt64}
    (ha : attempt sources deadline filter p = .ok fetched q)
    (hr : ask sources deadline .version q = .ok version r) :
    ∃ round : Round σ, round.Ran sources deadline filter ∧ round.began = p ∧ round.fetched = fetched ∧
      round.version = version ∧ round.closed sources = r := by
  obtain ⟨calls, hc, hlogs, hhit⟩ := attempt_called ha
  obtain ⟨-, rfl⟩ := ask_ok hr
  exact ⟨⟨p, calls, fetched, q, version⟩, ⟨ha, hc, hlogs, hhit, hr⟩, rfl, rfl, rfl, rfl⟩

/-- After a round that saw the version move, the clock decides. -/
theorem rounds_of_moved {limit : Nat} {attempts : UInt32} {before : UInt64} {round : Round σ}
    (ran : round.Ran sources deadline filter) (moved : round.version ≠ before) :
    rounds sources deadline filter (limit + 1) attempts before round.began =
      if deadline ≤ (round.closed sources).now then .error .reorgTimeout (round.next sources)
      else rounds sources deadline filter limit (attempts + 1) round.version (round.next sources) := by
  have hcount : (modify fun p => { p with retries := p.retries + 1 } : Step σ PUnit)
      (round.closed sources) = .ok () (round.next sources) := by
    show EStateM.Result.ok () _ = _
    simp only [Round.next, Round.closed, answered]
  have hget : (get : Step σ (Progress σ)) (round.next sources) =
      .ok (round.next sources) (round.next sources) := rfl
  rw [rounds, bind_of_ok (within_of_ok ran.attempt), bind_of_ok (within_of_ok ran.read), if_neg moved,
    bind_of_ok hcount, bind_of_ok hget]
  by_cases hd : deadline ≤ (round.closed sources).now
  · rw [if_pos hd, if_pos (show deadline ≤ (round.next sources).now from hd)]
    rfl
  · rw [if_neg hd, if_neg (show ¬ deadline ≤ (round.next sources).now from hd)]

/-- One round either ends the query or sees the version move ahead of the deadline, whatever the limit. -/
theorem rounds_step (attempts : UInt32) (before : UInt64) (p : Progress σ) :
    (∃ result, Ends sources deadline filter before attempts p result ∧
        ∀ limit, rounds sources deadline filter (limit + 1) attempts before p = result) ∨
      ∃ round : Round σ, round.Ran sources deadline filter ∧ round.began = p ∧ round.version ≠ before ∧
        (round.closed sources).now < deadline ∧
        ∀ limit, rounds sources deadline filter (limit + 1) attempts before p =
          rounds sources deadline filter limit (attempts + 1) round.version (round.next sources) := by
  cases ha : attempt sources deadline filter p with
  | error e q =>
    refine .inl ⟨_, .attempt ha, fun limit => ?_⟩
    rw [rounds, bind_of_error (within_of_error ha)]
  | ok fetched q =>
    cases hr : ask sources deadline .version q with
    | error e r =>
      refine .inl ⟨_, .read ha hr, fun limit => ?_⟩
      rw [rounds, bind_of_ok (within_of_ok ha), bind_of_error (within_of_error hr)]
    | ok version r =>
      obtain ⟨round, ran, rfl, rfl, rfl, rfl⟩ := exists_round ha hr
      by_cases hv : round.version = before
      · refine .inl ⟨_, .settled ran rfl hv, fun limit => ?_⟩
        rw [rounds, bind_of_ok (within_of_ok ha), bind_of_ok (within_of_ok hr), if_pos hv]
        rfl
      · by_cases hd : deadline ≤ (round.closed sources).now
        · refine .inl ⟨_, .late ran rfl hv hd, fun limit => ?_⟩
          rw [rounds_of_moved ran hv, if_pos hd]
        · refine .inr ⟨round, ran, rfl, hv, Nat.lt_of_not_le hd, fun limit => ?_⟩
          rw [rounds_of_moved ran hv, if_neg hd]

/-- A query runs rounds that see the version move, and then either reaches its limit of rounds or comes
to a round that ends it. -/
theorem rounds_cases : ∀ (limit : Nat) (attempts : UInt32) (before : UInt64) (p : Progress σ),
    ∃ (moved : List (Round σ)) (after : UInt64) (q : Progress σ),
      Moved sources deadline filter before p moved after q ∧
      (moved.length = limit ∧ rounds sources deadline filter limit attempts before p = .ok none q ∨
        moved.length < limit ∧ Ends sources deadline filter after (attempts + .ofNat moved.length) q
          (rounds sources deadline filter limit attempts before p))
  | 0, attempts, before, p => ⟨[], before, p, .refl before p, .inl ⟨rfl, rfl⟩⟩
  | limit + 1, attempts, before, p => by
    rcases rounds_step attempts before p with ⟨result, hend, heq⟩ | ⟨round, ran, rfl, hv, hd, heq⟩
    · refine ⟨[], before, p, .refl before p, .inr ⟨Nat.zero_lt_succ _, ?_⟩⟩
      rw [heq limit, List.length_nil, show UInt32.ofNat 0 = 0 from rfl, UInt32.add_zero]
      exact hend
    · obtain ⟨moved, after, q, hm, h⟩ := rounds_cases limit (attempts + 1) round.version (round.next sources)
      refine ⟨round :: moved, after, q, .step ran hv hd hm, ?_⟩
      rw [heq, List.length_cons, Nat.add_comm moved.length 1, UInt32.ofNat_add, ← UInt32.add_assoc]
      rcases h with ⟨hl, h⟩ | ⟨hl, h⟩
      · exact .inl ⟨by omega, h⟩
      · exact .inr ⟨by omega, h⟩

/-! ## Rounds that saw the version move -/

namespace Moved

variable {before after : UInt64} {p q : Progress σ} {rounds : List (Round σ)}

theorem ran (h : Moved sources deadline filter before p rounds after q) :
    ∀ round ∈ rounds, round.Ran sources deadline filter := by
  induction h with
  | refl => intro round hr; cases hr
  | step ran _ _ _ ih =>
    intro round hr
    rcases List.mem_cons.1 hr with rfl | hr
    · exact ran
    · exact ih round hr

theorem asked (h : Moved sources deadline filter before p rounds after q) :
    q.asked = p.asked ++ rounds.flatMap Round.asked := by
  induction h with
  | refl => simp
  | step ran _ _ _ ih =>
    rw [ih, List.flatMap_cons, ← List.append_assoc, ← ran.asked]
    rfl

/-- The versions read one after the other differ. -/
theorem differ (h : Moved sources deadline filter before p rounds after q) :
    ∀ k < rounds.length,
      (before :: rounds.map Round.version)[k]? ≠ (before :: rounds.map Round.version)[k + 1]? := by
  induction h with
  | refl => intro k hk; exact absurd hk (Nat.not_lt_zero k)
  | step _ moved _ _ ih =>
    intro k hk
    cases k with
    | zero => simpa using moved.symm
    | succ k => simpa using ih k (by simpa using hk)

/-- The version read last is the one that the next round begins with. -/
theorem last (h : Moved sources deadline filter before p rounds after q) :
    (before :: rounds.map Round.version)[rounds.length]? = some after := by
  induction h with
  | refl => rfl
  | step _ _ _ _ ih => simpa using ih

end Moved

/-- The versions that rounds read, in order. -/
theorem filterMap_version? {rounds : List (Round σ)}
    (h : ∀ round ∈ rounds, round.Ran sources deadline filter) :
    (rounds.flatMap Round.asked).filterMap Asked.version? = rounds.map Round.version := by
  induction rounds with
  | nil => rfl
  | cons round rounds ih =>
    rw [List.flatMap_cons, List.filterMap_append, (h round (List.mem_cons_self ..)).versions,
      ih fun r hr => h r (List.mem_cons_of_mem _ hr)]
    rfl

/-! ## Queries that succeed -/

/-- A query that gives a result read a version, ran rounds that saw it move, and ended with a round that
read the same version again. -/
theorem run_ok {start limit : Nat} {state : σ} {outcome : Outcome σ} {fetched : Fetched}
    (h : run sources deadline filter start state limit = some outcome) (hok : outcome.result = .ok fetched) :
    ∃ (opening before : UInt64) (opened : Progress σ) (moved : List (Round σ)) (last : Round σ),
      ask sources deadline .version ⟨state, start, [], 0⟩ = .ok opening opened ∧
      Moved sources deadline filter opening opened moved before last.began ∧
      last.Ran sources deadline filter ∧ last.version = before ∧ last.fetched = fetched ∧
      outcome.asked = (last.closed sources).asked := by
  unfold run guarded at h
  cases hv : ask sources deadline .version ⟨state, start, [], 0⟩ with
  | error e q =>
    rw [bind_of_error hv] at h
    cases h; cases hok
  | ok opening opened =>
    rw [bind_of_ok hv] at h
    obtain ⟨moved, before, q, hm, ⟨-, hr⟩ | ⟨-, hr⟩⟩ :=
      @rounds_cases σ sources deadline filter limit 1 opening opened
    · rw [hr] at h; cases h
    · generalize rounds sources deadline filter limit 1 opening opened = r at h hr
      cases hr with
      | attempt => cases h; cases hok
      | read => cases h; cases hok
      | late => cases h; cases hok
      | @settled last ran began same =>
        cases h; cases hok
        exact ⟨opening, before, opened, moved, last, rfl, began ▸ hm, ran, same, rfl, rfl⟩

/-- What a query gives comes from its last attempt alone. The versions it read differ one after the other,
up to the last two, which are equal; between any two of them lies one attempt, no call lies outside,
and the logs are those that the calls of the last attempt brought. -/
theorem run_ok_last_attempt {start limit : Nat} {state : σ} {outcome : Outcome σ} {fetched : Fetched}
    (h : run sources deadline filter start state limit = some outcome) (hok : outcome.result = .ok fetched) :
    ∃ (opening before : UInt64) (opened : Progress σ) (moved : List (Round σ)) (last : Round σ),
      ask sources deadline .version ⟨state, start, [], 0⟩ = .ok opening opened ∧
      Moved sources deadline filter opening opened moved before last.began ∧
      last.Ran sources deadline filter ∧
      let versions := opening :: (moved ++ [last]).map Round.version
      outcome.asked = .read start opening :: (moved ++ [last]).flatMap Round.asked ∧
      outcome.asked.filterMap Asked.version? = versions ∧
      (∀ k < moved.length, versions[k]? ≠ versions[k + 1]?) ∧
      versions[moved.length]? = versions[moved.length + 1]? ∧
      fetched = last.fetched ∧ fetched.logs = last.calls.flatMap Asked.logs ∧
      fetched.hitStore = last.calls.any Asked.isStored := by
  obtain ⟨opening, before, opened, moved, last, hopen, hm, ran, same, rfl, hasked⟩ := run_ok h hok
  have hopened : opened.asked = [.read start opening] := by
    obtain ⟨-, rfl⟩ := ask_ok hopen
    rfl
  have hall : ∀ round ∈ moved ++ [last], round.Ran sources deadline filter := by
    intro round hr
    rcases List.mem_append.1 hr with hr | hr
    · exact hm.ran round hr
    · rw [List.mem_singleton.1 hr]; exact ran
  have hlog : outcome.asked = .read start opening :: (moved ++ [last]).flatMap Round.asked := by
    rw [hasked, ran.asked, hm.asked, hopened, List.flatMap_append, List.flatMap_singleton]
    simp only [List.cons_append, List.nil_append]
  -- all versions but the last one
  have hreads : opening :: (moved ++ [last]).map Round.version =
      (opening :: moved.map Round.version) ++ [last.version] := by
    rw [List.map_append, List.cons_append]; rfl
  have hlen : (opening :: moved.map Round.version).length = moved.length + 1 := by
    rw [List.length_cons, List.length_map]
  refine ⟨opening, before, opened, moved, last, hopen, hm, ran, hlog, ?_, ?_, ?_, rfl, ran.logs, ran.hitStore⟩
  · rw [hlog, List.filterMap_cons, filterMap_version? hall]
    rfl
  · intro k hk
    rw [hreads, List.getElem?_append_left (by omega), List.getElem?_append_left (by omega)]
    exact hm.differ k hk
  · rw [hreads, List.getElem?_append_left (by omega), List.getElem?_append_right (by omega), hm.last, hlen,
      Nat.sub_self, ← same]
    rfl

/-- A log that tells nothing but its index. -/
def plainLog (index : UInt64) : Log where
  address := Vector.replicate 20 0
  topics := []
  data := []
  blockHash := Vector.replicate 32 0
  blockNumber := 0
  transactionHash := Vector.replicate 32 0
  transactionIndex := 0
  logIndex := index
  removed := false

/-- An answer that takes no time. -/
def told {α : Type} (answer : α) : Cue α := ⟨[], 0, none, some answer⟩

/-- An empty store that reports one reorganisation, and a node that gives another log after it. -/
def reorgScene : Scene where
  store := .empty
  storedLogs := none
  nodeLogs := []
  nodeBlocks := []
  versions := [told 1, told 2]
  highests := [told none]
  storedCalls := []
  blockCalls := []
  logCalls := [told [plainLog 1], told [plainLog 2]]

theorem run_ok_last_attempt_reorgScene :
    let filter : LogFilter := ⟨.range none none, ⟨[], []⟩⟩
    ∃ (outcome : Outcome Scene) (fetched : Fetched),
      run Scene.sources 10 filter 0 reorgScene 5 = some outcome ∧ outcome.result = .ok fetched ∧
      fetched.logs = [plainLog 2] ∧
      ∃ (before : UInt64) (opened : Progress Scene) (moved : List (Round Scene)) (last : Round Scene),
        Moved Scene.sources 10 filter 1 opened moved before last.began ∧
        last.Ran Scene.sources 10 filter ∧ (moved ++ [last]).map Round.version = [2, 2] ∧
        fetched.logs = last.calls.flatMap Asked.logs := by
  intro filter
  have hrun : run Scene.sources 10 filter 0 reorgScene 5 =
      some ((run Scene.sources 10 filter 0 reorgScene 5).get rfl) := (Option.some_get _).symm
  refine ⟨_, ⟨[plainLog 2], false⟩, hrun, rfl, rfl, ?_⟩
  obtain ⟨opening, before, opened, moved, last, -, hm, ran, -, hversions, -, -, -, hlogs, -⟩ :=
    run_ok_last_attempt hrun rfl
  have hread : [1, 2, 2] = opening :: (moved ++ [last]).map Round.version := hversions
  injection hread with hfirst hrest
  exact ⟨before, opened, moved, last, hfirst ▸ hm, ran, hrest.symm, hlogs⟩

end LogGateway.Query
