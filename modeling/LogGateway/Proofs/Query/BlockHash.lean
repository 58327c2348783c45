/-
Queries for the block of a hash. The node tells the number of the block, and up to the highest stored block its
logs are asked of the store, which is asked by number alone. Main statement: where a query for a hash gives a
result, the logs are those that the node gave for the hash, or all that the store gave for the number.
-/
import LogGateway.Proofs.Query.Attempt
import LogGateway.Proofs.Store.Changes

namespace LogGateway.Query

open Store (sampleLog)

variable {σ : Type} {sources : Sources σ} {deadline : Nat} {criteria : Criteria} {hash : Hash}
  {p q : Progress σ}

/-- A filter for the block of a hash. -/
def hashFilter (criteria : Criteria) (hash : Hash) : LogFilter := ⟨.block hash, criteria⟩

/-- A query for a hash is asked of the node as it is, or of the store for the number that the node tells. -/
theorem Divided.byHash {split : Split} (h : Divided sources (hashFilter criteria hash) p split q) :
    split = .nodeOnly (hashFilter criteria hash) ∨
      ∃ (top : UInt64) (found : BlockSummary) (r : Progress σ),
        Answers sources .highest (some top) p r ∧ Answers sources (.block hash) (some found) r q ∧
        found.number ≤ top ∧ split = .storeOnly ⟨found.number, found.number, criteria⟩ := by
  cases h with
  | empty highest => exact .inl rfl
  | range highest selection => cases selection
  | @block top _ found r _ highest selection block =>
    cases selection
    by_cases habove : top < found.number
    · exact .inl (if_pos habove)
    · exact .inr ⟨top, found, r, highest, block, UInt64.not_lt.1 habove, if_neg habove⟩

/-- What an attempt for a hash fetches, it has from the node for the hash or from the store for the number. -/
theorem attempt_hash_ok {fetched : Fetched}
    (h : attempt sources deadline (hashFilter criteria hash) p = .ok fetched q) :
    (∃ r, fetched.hitStore = false ∧ Answers sources (.logs (hashFilter criteria hash)) fetched.logs r q) ∨
      ∃ (top : UInt64) (found : BlockSummary) (stored : List StoredLog) (r s : Progress σ),
        Answers sources .highest (some top) p r ∧ Answers sources (.block hash) (some found) r s ∧
        Answers sources (.stored ⟨found.number, found.number, criteria⟩) stored s q ∧ found.number ≤ top ∧
        fetched = ⟨stored.map StoredLog.toLog, true⟩ := by
  obtain ⟨split, stored, live, p₁, p₂, hd, hs, hl, rfl⟩ := attempt_ok h
  rcases hd.byHash with rfl | ⟨top, found, r, highest, block, hle, rfl⟩
  · cases hs with
    | some asked => cases asked
    | none =>
      cases hl with
      | none unasked => cases unasked
      | some asked answers =>
        cases asked
        exact .inl ⟨p₁, rfl, answers⟩
  · cases hl with
    | some asked => cases asked
    | none =>
      cases hs with
      | none unasked => cases unasked
      | @some part logs _ asked answers =>
        cases asked
        exact .inr ⟨top, found, logs, r, p₁, highest, block, answers, hle, by rw [List.append_nil]; rfl⟩

/-- A query for a hash that gives a result has the node's logs of the hash, or it hits the store. Then its last
attempt asked the node for the number of the block, which is not above the highest stored one, and the logs are
all that the store gave for that number: they are of the hash exactly if those are. -/
theorem run_hash_logs {start limit : Nat} {state : σ} {outcome : Outcome σ} {fetched : Fetched}
    (h : run sources deadline (hashFilter criteria hash) start state limit = some outcome)
    (hok : outcome.result = .ok fetched)
    (hlive : ∀ state logs, (sources (.logs (hashFilter criteria hash)) state).outcome = .ok logs →
      ∀ log ∈ logs, log.blockHash = hash) :
    fetched.hitStore = false ∧ (∀ log ∈ fetched.logs, log.blockHash = hash) ∨
      ∃ (t₁ t₂ t₃ t₄ : Nat) (top version : UInt64) (found : BlockSummary) (stored : List StoredLog),
        [⟨.highest, t₁, some (.ok (some top))⟩, ⟨.block hash, t₂, some (.ok (some found))⟩,
          ⟨.stored ⟨found.number, found.number, criteria⟩, t₃, some (.ok stored)⟩,
          .read t₄ version] <:+ outcome.asked ∧
        found.number ≤ top ∧ fetched = ⟨stored.map StoredLog.toLog, true⟩ ∧
        ((∀ log ∈ fetched.logs, log.blockHash = hash) ↔ ∀ log ∈ stored, log.blockHash = hash) := by
  obtain ⟨-, -, -, -, last, -, -, ran, -, rfl, hasked⟩ := run_ok h hok
  rcases attempt_hash_ok ran.attempt with ⟨r, hhit, answers⟩ |
    ⟨top, found, stored, r, s, highest, block, answers, hle, hfetched⟩
  · exact .inl ⟨hhit, hlive _ _ answers.outcome⟩
  · refine .inr ⟨last.began.now, r.now, s.now, last.ended.now, top, last.version, found, stored,
      ⟨last.began.asked, ?_⟩, hle, hfetched, ?_⟩
    · rw [hasked, (ask_answers ran.read).asked, answers.asked, block.asked, highest.asked]
      simp only [List.append_assoc, List.cons_append, List.nil_append, Asked.read]
    · rw [hfetched]
      simp only [List.forall_mem_map]
      rfl

/-- The store does not change and never fails. -/
structure Holds (sources : Sources σ) (store : Store) : Prop where
  version : ∀ state, (sources .version state).outcome = .ok store.version
  highest : ∀ state, (sources .highest state).outcome = .ok store.highest?
  stored : ∀ part state, (sources (.stored part) state).outcome = .ok (store.query part)

/-- A store that holds block 5 with one log. -/
def forkStore : Store := ⟨Std.TreeMap.empty.insert 5 [sampleLog 9 5 0], 0⟩

/-- The hash of another block 5. -/
def forkHash : Hash := Vector.replicate 32 5

/-- The store, and a node that has both blocks and no logs. -/
def forkSources : Sources Unit
  | .version, _ => ⟨0, .ok forkStore.version, ()⟩
  | .highest, _ => ⟨0, .ok (some 5), ()⟩
  | .stored part, _ => ⟨0, .ok (forkStore.query part), ()⟩
  | .block hash, _ => ⟨0, .ok (some ⟨hash, 5, Vector.replicate 32 0⟩), ()⟩
  | .logs _, _ => ⟨0, .ok [], ()⟩

theorem forkSources_holds : Holds forkSources forkStore := by
  refine ⟨fun _ => rfl, fun _ => congrArg Except.ok (Store.highest?_eq_some_iff.2 ?_).symm, fun _ _ => rfl⟩
  simp [forkStore, Std.TreeMap.mem_insert]

theorem forkSources_logs (filter : LogFilter) (state : Unit) (logs : List Log)
    (h : (forkSources (.logs filter) state).outcome = .ok logs) : ∀ log ∈ logs, log.blockHash = forkHash := by
  cases h
  intro log hin
  cases hin

def forkRun : Option (Outcome Unit) := run forkSources 10 (hashFilter ⟨[], []⟩ forkHash) 0 () 1

theorem forkRun_ok : ∃ outcome, forkRun = some outcome ∧
    outcome.result = .ok ⟨(forkStore.query ⟨5, 5, ⟨[], []⟩⟩).map StoredLog.toLog, true⟩ ∧
    outcome.asked.map Asked.call =
      [.version, .highest, .block forkHash, .stored ⟨5, 5, ⟨[], []⟩⟩, .version] := by
  have hrun : forkRun = some (forkRun.get rfl) := (Option.some_get _).symm
  exact ⟨_, hrun, rfl, rfl⟩

theorem forkStore_query : forkStore.query ⟨5, 5, ⟨[], []⟩⟩ = [sampleLog 9 5 0] := by
  rw [Store.query_number, forkStore, OrderedMap.getElem?_insert, if_pos rfl]
  decide

theorem run_hash_logs_fork :
    ∃ (outcome : Outcome Unit) (time : Nat) (stored : List StoredLog), forkRun = some outcome ∧
      outcome.result = .ok ⟨stored.map StoredLog.toLog, true⟩ ∧
      ⟨.stored ⟨5, 5, ⟨[], []⟩⟩, time, some (.ok stored)⟩ ∈ outcome.asked ∧
      ¬ ∀ log ∈ stored, log.blockHash = forkHash := by
  obtain ⟨outcome, hrun, hok, hcalls⟩ := forkRun_ok
  rw [forkStore_query] at hok
  rcases run_hash_logs hrun hok (forkSources_logs _) with ⟨hhit, -⟩ |
    ⟨_, _, time, _, top, version, found, stored, hlast, -, hfetched, hiff⟩
  · cases hhit
  · have hasked : ⟨.stored ⟨found.number, found.number, ⟨[], []⟩⟩, time, some (.ok stored)⟩ ∈ outcome.asked :=
      hlast.subset (by simp)
    have hnumber : found.number = 5 := by
      have hcall := List.mem_map_of_mem (f := Asked.call) hasked
      rw [hcalls] at hcall
      simpa using hcall
    rw [hnumber] at hasked
    refine ⟨outcome, time, stored, hrun, hok.trans (congrArg _ hfetched), hasked, ?_⟩
    rw [← hiff]
    intro hall
    exact absurd (hall _ (List.mem_singleton_self _)) (by decide)

/-- A query for a hash may give the logs of another block. The store has them under the same number. -/
theorem other_logs_of_fork :
    ¬ ∀ (store : Store) (sources : Sources Unit) (criteria : Criteria) (hash : Hash) (found : BlockSummary),
      Holds sources store → found.hash = hash →
      (∀ state, (sources (.block hash) state).outcome = .ok (some found)) →
      (∀ state logs, (sources (.logs (hashFilter criteria hash)) state).outcome = .ok logs →
        ∀ log ∈ logs, log.blockHash = hash) →
      ∀ (deadline start limit : Nat) (state : Unit) (outcome : Outcome Unit) (fetched : Fetched),
        run sources deadline (hashFilter criteria hash) start state limit = some outcome →
        outcome.result = .ok fetched → ∀ log ∈ fetched.logs, log.blockHash = hash := by
  intro h
  obtain ⟨outcome, hrun, hok, -⟩ := forkRun_ok
  rw [forkStore_query] at hok
  have hall := h forkStore forkSources ⟨[], []⟩ forkHash ⟨forkHash, 5, Vector.replicate 32 0⟩
    forkSources_holds rfl (fun _ => rfl) (forkSources_logs _) 10 0 1 () outcome _ hrun hok
  exact absurd (hall _ (List.mem_singleton_self _)) (by decide)

end LogGateway.Query
