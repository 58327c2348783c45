/-
A store that does not begin with the first block of the chain. It tells its highest block alone, so that a query
from a block up to it on asks the store also for what lies below the lowest. Main statement: these logs are missing
from the result, and no others.
-/
import LogGateway.Proofs.Query.BlockHash
import LogGateway.Proofs.Query.Boundary
import LogGateway.Proofs.Store.Filled

namespace LogGateway.Query

variable {σ : Type} {sources : Sources σ} {deadline : Nat} {chain : Chain} {criteria : Criteria}
  {low top first last : UInt64}

/-- A node that gives the logs of a range of a chain that meet the criteria. -/
def Reports (sources : Sources σ) (chain : Chain) : Prop :=
  ∀ criteria first last state, first ≤ last →
    (sources (.logs (numberFilter criteria first last)) state).outcome = .ok (chain.matching criteria first last)

/-- A store that was filled from a chain and a node that follows it. -/
theorem servesFrom_of_filled (hlow : low ≤ top) (hstore : Holds sources (chain.filled low top))
    (hnode : Reports sources chain) : ServesFrom sources (fun _ => True) chain 0 low (some top) := by
  refine ⟨fun _ _ _ => trivial, fun state _ => ?_, fun state _ => ?_, ?_, fun _ part state htop _ => ?_, ?_⟩
  · rw [hstore.version, (Chain.fills_filled hlow).unmoved]
  · rw [hstore.highest, Chain.highest?_filled hlow]
  · rintro _ ⟨rfl⟩
    exact hlow
  · cases htop
    rw [hstore.stored, Chain.query_filled hlow]
  · exact fun criteria first last state hle _ => hnode criteria first last state hle

/-- What a query gives that has the time for its calls. -/
theorem run_gathered (hlow : low ≤ top) (hstore : Holds sources (chain.filled low top))
    (hnode : Reports sources chain) (hle : first ≤ last) {state : σ} {start : Nat} (limit : Nat)
    (hin : start + elapsed sources (queryCalls criteria first last (some top)) state ≤ deadline) :
    ∃ outcome,
      run sources deadline (numberFilter criteria first last) start state (limit + 1) = some outcome ∧
      outcome.result = .ok ⟨gathered chain low (some top) criteria first last, decide (first ≤ top)⟩ := by
  have hserves := servesFrom_of_filled hlow hstore hnode
  obtain ⟨q, hq, -⟩ := guarded_gives_gathered (p := ⟨state, start, [], 0⟩) hserves hle limit trivial hin
  exact ⟨_, by rw [run, hq], rfl⟩

/-- A query over a range of numbers gives the chain's logs of the range that meet the criteria, but from a store
that is asked it has none of the blocks below the lowest. So it gives all of them exactly if the range begins above
the store, or none of them lies below it. -/
theorem run_ok_from_first_block (hlow : low ≤ top) (hstore : Holds sources (chain.filled low top))
    (hnode : Reports sources chain) (hle : first ≤ last) (criteria : Criteria) (state : σ) (start limit : Nat)
    (hin : start + elapsed sources (queryCalls criteria first last (some top)) state ≤ deadline) :
    ∃ outcome logs,
      run sources deadline (numberFilter criteria first last) start state (limit + 1) = some outcome ∧
      outcome.result = .ok ⟨logs, decide (first ≤ top)⟩ ∧
      (logs = (chain.matching criteria first last).filter fun log => top < first || low ≤ log.blockNumber) ∧
      (logs = chain.matching criteria first last ↔
        top < first ∨ ∀ log ∈ chain.matching criteria first last, low ≤ log.blockNumber) := by
  obtain ⟨outcome, hrun, hok⟩ := @run_gathered σ sources deadline chain criteria _ _ _ _ hlow hstore hnode hle
    state start limit hin
  have hlogs : gathered chain low (some top) criteria first last =
      (chain.matching criteria first last).filter fun log => top < first || low ≤ log.blockNumber := by
    by_cases habove : top < first
    · rw [gathered, hits, Option.any_some, decide_eq_false (UInt64.not_le.2 habove), if_neg Bool.false_ne_true]
      exact (List.filter_eq_self.2 fun _ _ => by simp [habove]).symm
    · simp [gathered, hits, habove, UInt64.not_lt.1 habove]
  refine ⟨outcome, _, hrun, hok, hlogs, ?_⟩
  rw [hlogs, List.filter_eq_self]
  simp only [Bool.or_eq_true, decide_eq_true_eq]
  constructor
  · intro h
    by_cases habove : top < first
    · exact .inl habove
    · exact .inr fun log hlog => (h log hlog).resolve_left habove
  · rintro (habove | h) log hlog
    · exact .inl habove
    · exact .inr (h log hlog)

/-- A store that answers at once, and a node that gives a chain's logs. -/
def storeSources (chain : Chain) (store : Store) : Sources Unit
  | .version, _ => ⟨0, .ok store.version, ()⟩
  | .highest, _ => ⟨0, .ok store.highest?, ()⟩
  | .stored part, _ => ⟨0, .ok (store.query part), ()⟩
  | .block _, _ => ⟨0, .ok none, ()⟩
  | .logs ⟨.range (some (.number first)) (some (.number last)), criteria⟩, _ =>
    ⟨0, .ok (chain.matching criteria first last), ()⟩
  | .logs _, _ => ⟨0, .ok [], ()⟩

theorem storeSources_holds (chain : Chain) (store : Store) : Holds (storeSources chain store) store :=
  ⟨fun _ => rfl, fun _ => rfl, fun _ _ => rfl⟩

theorem storeSources_reports (chain : Chain) (store : Store) : Reports (storeSources chain store) chain :=
  fun _ _ _ _ _ => rfl

theorem run_ok_from_first_block_twoLogs :
    ∃ outcome, run (storeSources twoLogs (twoLogs.filled 2 3)) 10 (numberFilter ⟨[], []⟩ 1 4) 0 () 1 = some outcome ∧
      outcome.result = .ok ⟨[indexedLog 2 0, indexedLog 2 1, indexedLog 3 0, indexedLog 3 1, indexedLog 4 0,
        indexedLog 4 1], true⟩ := by
  have hin : 0 + elapsed (storeSources twoLogs (twoLogs.filled 2 3)) (queryCalls ⟨[], []⟩ 1 4 (some 3)) () ≤ 10 := by
    decide
  obtain ⟨outcome, logs, hrun, hok, hlogs, -⟩ := run_ok_from_first_block (by decide) (storeSources_holds twoLogs _)
    (storeSources_reports twoLogs _) (by decide) ⟨[], []⟩ () 0 0 hin
  have hkept : ((twoLogs.matching ⟨[], []⟩ 1 4).filter fun log => (3 : UInt64) < 1 || 2 ≤ log.blockNumber) =
      [indexedLog 2 0, indexedLog 2 1, indexedLog 3 0, indexedLog 3 1, indexedLog 4 0, indexedLog 4 1] := by
    decide
  exact ⟨outcome, hrun, by rw [hok, hlogs, hkept]; rfl⟩

/-- The logs of a block below the store are lost, although the query gives a result. -/
theorem lost_below_first_block :
    ¬ ∀ (chain : Chain) (low top first last : UInt64) (sources : Sources Unit) (criteria : Criteria)
      (deadline start limit : Nat), low ≤ top → Holds sources (chain.filled low top) → Reports sources chain →
      first ≤ last → start + elapsed sources (queryCalls criteria first last (some top)) () ≤ deadline →
      ∃ outcome hit,
        run sources deadline (numberFilter criteria first last) start () (limit + 1) = some outcome ∧
        outcome.result = .ok ⟨chain.matching criteria first last, hit⟩ := by
  intro h
  have hin : 0 + elapsed (storeSources twoLogs (twoLogs.filled 2 2)) (queryCalls ⟨[], []⟩ 1 2 (some 2)) () ≤ 10 := by
    decide
  obtain ⟨outcome, hit, hrun, hok⟩ := h twoLogs 2 2 1 2 _ ⟨[], []⟩ 10 0 0 (by decide) (storeSources_holds twoLogs _)
    (storeSources_reports twoLogs _) (by decide) hin
  obtain ⟨outcome', hrun', hok'⟩ := run_gathered (by decide) (storeSources_holds twoLogs _)
    (storeSources_reports twoLogs _) (by decide) 0 hin
  cases hrun.symm.trans hrun'
  -- block 1 has two logs, the result has none of them
  have hsame : twoLogs.matching ⟨[], []⟩ 1 2 = gathered twoLogs 2 (some 2) ⟨[], []⟩ 1 2 := by
    injection hok.symm.trans hok' with hfetched
    exact congrArg Fetched.logs hfetched
  exact absurd hsame (by decide)

end LogGateway.Query
