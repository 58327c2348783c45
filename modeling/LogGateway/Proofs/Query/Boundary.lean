/-
The boundary between store and node cannot be seen. Where the node knows a chain and a store that does not
change holds its blocks up to some number, or none, a query over a range that has the time for its calls
gives the chain's logs of the range that meet its criteria, wherever the store ends.
-/
import LogGateway.Proofs.Chain.Range
import LogGateway.Proofs.Query.Steps

namespace LogGateway.Query

variable {σ α β : Type} {sources : Sources σ} {kept : σ → Prop} {deadline : Nat}

/-! ## Calls in a row -/

/-- The sources after these calls. -/
def after (sources : Sources σ) : List Call → σ → σ
  | [], state => state
  | call :: calls, state => after sources calls (sources call state).state

/-- How long these calls take. -/
def elapsed (sources : Sources σ) : List Call → σ → Nat
  | [], _ => 0
  | call :: calls, state => (sources call state).delay + elapsed sources calls (sources call state).state

theorem after_append (calls more : List Call) (state : σ) :
    after sources (calls ++ more) state = after sources more (after sources calls state) := by
  induction calls generalizing state with
  | nil => rfl
  | cons call calls ih => exact ih _

theorem elapsed_append (calls more : List Call) (state : σ) :
    elapsed sources (calls ++ more) state =
      elapsed sources calls state + elapsed sources more (after sources calls state) := by
  induction calls generalizing state with
  | nil => simp [elapsed, after]
  | cons call calls ih => simp only [List.cons_append, elapsed, after, ih, Nat.add_assoc]

/-- From `p` to `q` a query made these calls and no others, and all of them ended. -/
structure Done (sources : Sources σ) (kept : σ → Prop) (calls : List Call) (p q : Progress σ) : Prop where
  kept : kept q.state
  state : q.state = after sources calls p.state
  now : q.now = p.now + elapsed sources calls p.state
  asked : q.asked.map Asked.call = p.asked.map Asked.call ++ calls

theorem Done.refl {p : Progress σ} (h : kept p.state) : Done sources kept [] p p :=
  ⟨h, rfl, rfl, by rw [List.append_nil]⟩

theorem Done.trans {calls more : List Call} {p q r : Progress σ} (h : Done sources kept calls p q)
    (h' : Done sources kept more q r) : Done sources kept (calls ++ more) p r := by
  refine ⟨h'.kept, ?_, ?_, ?_⟩
  · rw [h'.state, h.state, after_append]
  · rw [h'.now, h.now, h.state, elapsed_append, Nat.add_assoc]
  · rw [h'.asked, h.asked, List.append_assoc]

/-- If there is time for these calls, a step makes them and gives this answer. -/
def Gives (sources : Sources σ) (kept : σ → Prop) (deadline : Nat) (calls : List Call) (a : α) (f : Step σ α)
    (p : Progress σ) : Prop :=
  p.now + elapsed sources calls p.state ≤ deadline → ∃ q, f p = .ok a q ∧ Done sources kept calls p q

theorem gives_pure (a : α) {p : Progress σ} (h : kept p.state) :
    Gives sources kept deadline [] a (pure a) p :=
  fun _ => ⟨p, rfl, .refl h⟩

theorem Gives.bind {calls more : List Call} {f : Step σ α} {g : α → Step σ β} {p : Progress σ} {a : α} {b : β}
    (hf : Gives sources kept deadline calls a f p)
    (hg : ∀ q : Progress σ, kept q.state → Gives sources kept deadline more b (g a) q) :
    Gives sources kept deadline (calls ++ more) b (f >>= g) p := by
  intro hin
  rw [elapsed_append] at hin
  obtain ⟨q, hq, hdone⟩ := hf (by omega)
  -- the first step leaves the time for the second
  have hrest : q.now + elapsed sources more q.state ≤ deadline := by
    rw [hdone.now, hdone.state]; omega
  obtain ⟨r, hr, hdone'⟩ := hg q hdone.kept hrest
  exact ⟨r, by rw [bind_of_ok hq, hr], hdone.trans hdone'⟩

/-- A step and then one that makes no calls. -/
theorem Gives.bind_nil {calls : List Call} {f : Step σ α} {g : α → Step σ β} {p : Progress σ} {a : α} {b : β}
    (hf : Gives sources kept deadline calls a f p)
    (hg : ∀ q : Progress σ, kept q.state → Gives sources kept deadline [] b (g a) q) :
    Gives sources kept deadline calls b (f >>= g) p := by
  rw [← List.append_nil calls]
  exact hf.bind hg

theorem Gives.within {calls : List Call} {f : Step σ α} {p : Progress σ} {a : α}
    (hf : Gives sources kept deadline calls a f p) (attempts : UInt32) :
    Gives sources kept deadline calls a (within attempts f) p := by
  intro hin
  obtain ⟨q, hq, hdone⟩ := hf hin
  exact ⟨q, within_of_ok hq, hdone⟩

theorem ask_gives {call : Call} {answer : call.Answer} {p : Progress σ}
    (ho : (sources call p.state).outcome = .ok answer) (hk : kept (sources call p.state).state) :
    Gives sources kept deadline [call] answer (ask sources deadline call) p := by
  intro hin
  refine ⟨_, ask_of_answer ho hin, hk, rfl, rfl, ?_⟩
  rw [answered, List.map_append]
  rfl

/-! ## Sources of a chain -/

/-- A filter between two block numbers. -/
def numberFilter (criteria : Criteria) (first last : UInt64) : LogFilter :=
  ⟨.range (some (.number first)) (some (.number last)), criteria⟩

/-- As long as they are kept as they should be, the sources show one chain: a node that gives the logs of a
range that meet the criteria, and a store of a steady version that is empty or holds the blocks up to its
highest, and gives those of their logs that a filter accepts. -/
structure Serves (sources : Sources σ) (kept : σ → Prop) (chain : Chain) (version : UInt64)
    (highest : Option UInt64) : Prop where
  stays : ∀ call state, kept state → kept (sources call state).state
  readsVersion : ∀ state, kept state → (sources .version state).outcome = .ok version
  readsHighest : ∀ state, kept state → (sources .highest state).outcome = .ok highest
  stored : ∀ top part state, highest = some top → kept state →
    (sources (.stored part) state).outcome =
      .ok (((chain.between 0 top).map StoredLog.ofLog).filter part.accept)
  live : ∀ criteria first last state, first ≤ last → kept state →
    (sources (.logs (numberFilter criteria first last)) state).outcome =
      .ok (chain.matching criteria first last)

/-- The same with a store that holds the blocks from `low` on. -/
structure ServesFrom (sources : Sources σ) (kept : σ → Prop) (chain : Chain) (version low : UInt64)
    (highest : Option UInt64) : Prop where
  stays : ∀ call state, kept state → kept (sources call state).state
  readsVersion : ∀ state, kept state → (sources .version state).outcome = .ok version
  readsHighest : ∀ state, kept state → (sources .highest state).outcome = .ok highest
  lowest : ∀ top ∈ highest, low ≤ top
  stored : ∀ top part state, highest = some top → kept state →
    (sources (.stored part) state).outcome =
      .ok (((chain.between low top).map StoredLog.ofLog).filter part.accept)
  live : ∀ criteria first last state, first ≤ last → kept state →
    (sources (.logs (numberFilter criteria first last)) state).outcome =
      .ok (chain.matching criteria first last)

variable {chain : Chain} {version low : UInt64} {highest : Option UInt64} {criteria : Criteria}
  {first last : UInt64}

theorem Serves.fromZero (h : Serves sources kept chain version highest) :
    ServesFrom sources kept chain version 0 highest :=
  ⟨h.stays, h.readsVersion, h.readsHighest, fun _ _ => UInt64.zero_le, h.stored, h.live⟩

/-! ## The attempt -/

/-- How a query between two numbers is split. -/
def divided (criteria : Criteria) (first last : UInt64) : Option UInt64 → Split
  | none => .nodeOnly (numberFilter criteria first last)
  | some top => .ofNumbers (numberFilter criteria first last) first last top

/-- The calls that a split query makes for its logs. -/
def logCalls (split : Split) : List Call := split.store.toList.map .stored ++ split.node.toList.map .logs

theorem divide_gives (h : ServesFrom sources kept chain version low highest) {p : Progress σ} (hp : kept p.state) :
    Gives sources kept deadline [.highest] (divided criteria first last highest)
      (divide sources deadline (numberFilter criteria first last)) p := by
  refine (ask_gives (h.readsHighest _ hp) (h.stays _ _ hp)).bind_nil fun q hq => ?_
  cases highest with
  | none => exact gives_pure _ hq
  | some top => exact gives_pure _ hq

theorem storedPart_gives {top : UInt64} (h : ServesFrom sources kept chain version low (some top)) {split : Split}
    (hs : split.store = some ⟨first, last, criteria⟩) (hle : first ≤ last) (htop : last ≤ top)
    {p : Progress σ} (hp : kept p.state) :
    Gives sources kept deadline (split.store.toList.map .stored)
      ((chain.matching criteria first last).filter fun log => low ≤ log.blockNumber)
      (storedPart sources deadline split) p := by
  rw [storedPart, hs]
  refine Gives.bind_nil (ask_gives (h.stored top _ _ rfl hp) (h.stays _ _ hp)) fun q hq => ?_
  rw [← chain.map_toLog_filter_accept (h.lowest top rfl) hle htop]
  exact gives_pure _ hq

theorem storedPart_gives_nothing {split : Split} (hs : split.store = none) {p : Progress σ}
    (hp : kept p.state) :
    Gives sources kept deadline (split.store.toList.map .stored) []
      (storedPart sources deadline split) p := by
  rw [storedPart, hs]
  exact gives_pure _ hp

theorem livePart_gives (h : ServesFrom sources kept chain version low highest) {split : Split}
    (hs : split.node = some (numberFilter criteria first last)) (hle : first ≤ last) {p : Progress σ}
    (hp : kept p.state) :
    Gives sources kept deadline (split.node.toList.map .logs) (chain.matching criteria first last)
      (livePart sources deadline split) p := by
  rw [livePart, hs]
  exact ask_gives (h.live _ _ _ _ hle hp) (h.stays _ _ hp)

theorem livePart_gives_nothing {split : Split} (hs : split.node = none) {p : Progress σ}
    (hp : kept p.state) :
    Gives sources kept deadline (split.node.toList.map .logs) [] (livePart sources deadline split) p := by
  rw [livePart, hs]
  exact gives_pure _ hp

/-- The store's logs and then the node's. -/
theorem parts_give (split : Split) {stored live : List Log} {fetched : Fetched}
    (hf : ⟨stored ++ live, split.hitsStore⟩ = fetched)
    (hs : ∀ p : Progress σ, kept p.state →
      Gives sources kept deadline (split.store.toList.map .stored) stored
        (storedPart sources deadline split) p)
    (hl : ∀ p : Progress σ, kept p.state →
      Gives sources kept deadline (split.node.toList.map .logs) live (livePart sources deadline split) p)
    {p : Progress σ} (hp : kept p.state) :
    Gives sources kept deadline (logCalls split) fetched (do
      let stored ← storedPart sources deadline split
      let live ← livePart sources deadline split
      return { logs := stored ++ live, hitStore := split.hitsStore }) p := by
  refine (hs p hp).bind fun q hq => ?_
  refine (hl q hq).bind_nil fun r hr => ?_
  rw [hf]
  exact gives_pure _ hr

/-- Whether a query from a block on asks the store for logs. -/
def hits (highest : Option UInt64) (first : UInt64) : Bool := highest.any fun top => first ≤ top

/-- The logs of a range that meet criteria; if the store is asked, only those that do not lie below its lowest
block. -/
def gathered (chain : Chain) (low : UInt64) (highest : Option UInt64) (criteria : Criteria) (first last : UInt64) :
    List Log :=
  if hits highest first then (chain.matching criteria first last).filter fun log => low ≤ log.blockNumber
  else chain.matching criteria first last

theorem gathered_zero (chain : Chain) (highest : Option UInt64) (criteria : Criteria) (first last : UInt64) :
    gathered chain 0 highest criteria first last = chain.matching criteria first last := by
  unfold gathered
  split
  · exact chain.filter_matching_of_le UInt64.zero_le criteria
  · rfl

/-- An attempt gives the chain's logs, wherever the range lies to the store's highest block. -/
theorem attempt_gives (h : ServesFrom sources kept chain version low highest) (hle : first ≤ last) {p : Progress σ}
    (hp : kept p.state) :
    Gives sources kept deadline ([.highest] ++ logCalls (divided criteria first last highest))
      ⟨gathered chain low highest criteria first last, hits highest first⟩
      (attempt sources deadline (numberFilter criteria first last)) p := by
  rw [attempt_eq]
  refine (divide_gives h hp).bind fun q hq => ?_
  cases highest with
  | none =>
    exact parts_give (.nodeOnly (numberFilter criteria first last)) rfl
      (fun _ => storedPart_gives_nothing rfl) (fun _ => livePart_gives h rfl hle) hq
  | some top =>
    rw [divided, Split.ofNumbers, gathered, hits, Option.any_some]
    by_cases habove : top < first
    · -- the store ends below the range
      rw [if_pos habove, decide_eq_false (UInt64.not_le.2 habove)]
      exact parts_give (.nodeOnly (numberFilter criteria first last)) rfl
        (fun _ => storedPart_gives_nothing rfl) (fun _ => livePart_gives h rfl hle) hq
    · have hfirst := UInt64.not_lt.1 habove
      rw [if_neg habove, decide_eq_true hfirst, if_pos rfl]
      by_cases hbelow : last ≤ top
      · -- no block of the range is asked of the node
        rw [if_pos hbelow]
        exact parts_give (.storeOnly ⟨first, last, criteria⟩) (by rw [List.append_nil]; rfl)
          (fun _ => storedPart_gives h rfl hle hbelow) (fun _ => livePart_gives_nothing rfl) hq
      · -- the store ends inside the range, so the block after it does not wrap around
        have hlast := UInt64.not_le.1 hbelow
        have hlow := UInt64.le_iff_toNat_le.1 (h.lowest top rfl)
        have hafter : (top + 1).toNat = top.toNat + 1 := by
          have := last.toNat_lt
          rw [UInt64.lt_iff_toNat_lt] at hlast
          rw [UInt64.toNat_add, UInt64.toNat_one]
          omega
        have hnext : top + 1 ≤ last := by
          rw [UInt64.lt_iff_toNat_lt] at hlast
          rw [UInt64.le_iff_toNat_le]
          omega
        have hnode : low ≤ top + 1 := by
          rw [UInt64.le_iff_toNat_le]
          omega
        rw [if_neg hbelow, chain.matching_append hfirst hlast, List.filter_append,
          chain.filter_matching_of_le hnode]
        exact parts_give ⟨some ⟨first, top, criteria⟩, some (numberFilter criteria (top + 1) last)⟩ rfl
          (fun _ => storedPart_gives h rfl hfirst (UInt64.le_refl top))
          (fun _ => livePart_gives h rfl hnext) hq

/-! ## The query -/

/-- The calls of a query between two numbers. -/
def queryCalls (criteria : Criteria) (first last : UInt64) (highest : Option UInt64) : List Call :=
  [.version] ++ (([.highest] ++ logCalls (divided criteria first last highest)) ++ [.version])

theorem guarded_gives_gathered (h : ServesFrom sources kept chain version low highest) (hle : first ≤ last)
    (limit : Nat) {p : Progress σ} (hp : kept p.state) :
    Gives sources kept deadline (queryCalls criteria first last highest)
      (some ⟨gathered chain low highest criteria first last, hits highest first⟩)
      (guarded sources deadline (numberFilter criteria first last) (limit + 1)) p := by
  refine (ask_gives (h.readsVersion _ hp) (h.stays _ _ hp)).bind fun q hq => ?_
  refine ((attempt_gives h hle hq).within 1).bind fun r hr => ?_
  refine ((ask_gives (h.readsVersion _ hr) (h.stays _ _ hr)).within 1).bind_nil fun s hs => ?_
  rw [if_pos rfl]
  exact gives_pure _ hs

theorem guarded_gives (h : Serves sources kept chain version highest) (hle : first ≤ last) (limit : Nat)
    {p : Progress σ} (hp : kept p.state) :
    Gives sources kept deadline (queryCalls criteria first last highest)
      (some ⟨chain.matching criteria first last, hits highest first⟩)
      (guarded sources deadline (numberFilter criteria first last) (limit + 1)) p := by
  rw [← gathered_zero chain highest]
  exact guarded_gives_gathered h.fromZero hle limit hp

/-- A query over a range of numbers that has the time for its calls gives the chain's logs of the range that
meet the criteria: each as often as its block has it, by block and then by index. Where the store ends, or
that it is empty, shows in the calls alone. -/
theorem run_boundary_transparent (h : Serves sources kept chain version highest) (hle : first ≤ last)
    {state : σ} (hk : kept state) (criteria : Criteria) (start limit : Nat)
    (hin : start + elapsed sources (queryCalls criteria first last highest) state ≤ deadline) :
    ∃ outcome,
      run sources deadline (numberFilter criteria first last) start state (limit + 1) = some outcome ∧
      outcome.result = .ok ⟨chain.matching criteria first last, highest.any fun top => first ≤ top⟩ ∧
      outcome.asked.map Asked.call = queryCalls criteria first last highest ∧
      (chain.matching criteria first last).Pairwise Log.Before ∧
      ∀ log, (chain.matching criteria first last).count log =
        if first ≤ log.blockNumber ∧ log.blockNumber ≤ last ∧ criteria.Met log then
          (chain.logs log.blockNumber).count log
        else 0 := by
  obtain ⟨q, hq, hdone⟩ := @guarded_gives σ sources kept deadline chain version highest criteria first last h
    hle limit ⟨state, start, [], 0⟩ hk hin
  exact ⟨_, by rw [run, hq], rfl, hdone.asked, chain.matching_pairwise criteria,
    chain.count_matching criteria⟩

/-- A store and a node that show a chain; every call takes the same time. -/
def steadySources (chain : Chain) (version : UInt64) (highest : Option UInt64) (delay : Nat) : Sources Unit
  | .version, _ => ⟨delay, .ok version, ()⟩
  | .highest, _ => ⟨delay, .ok highest, ()⟩
  | .stored part, _ =>
    let held := highest.elim [] (chain.between 0)
    ⟨delay, .ok ((held.map StoredLog.ofLog).filter part.accept), ()⟩
  | .block _, _ => ⟨delay, .ok none, ()⟩
  | .logs ⟨.range (some (.number first)) (some (.number last)), criteria⟩, _ =>
    ⟨delay, .ok (chain.matching criteria first last), ()⟩
  | .logs _, _ => ⟨delay, .ok [], ()⟩

theorem steadySources_serves (chain : Chain) (version : UInt64) (highest : Option UInt64) (delay : Nat) :
    Serves (steadySources chain version highest delay) (fun _ => True) chain version highest := by
  refine ⟨fun _ _ _ => trivial, fun _ _ => rfl, fun _ _ => rfl, ?_, fun _ _ _ _ _ _ => rfl⟩
  rintro top part state rfl -
  rfl

/-- A log of a block, with its index as its only topic. -/
def indexedLog (block index : UInt64) : Log where
  address := Vector.replicate 20 0
  topics := [Vector.replicate 32 index.toUInt8]
  data := []
  blockHash := Vector.replicate 32 block.toUInt8
  blockNumber := block
  transactionHash := Vector.replicate 32 0
  transactionIndex := 0
  logIndex := index
  removed := false

/-- The chain with two logs in every block. -/
def twoLogs : Chain where
  logs block := [indexedLog block 0, indexedLog block 1]
  numbered := by simp [indexedLog]
  ordered := by simp [indexedLog]
  slotted := by simp [indexedLog]
  present := by simp [indexedLog]

theorem run_boundary_transparent_twoLogs :
    let criteria : Criteria := ⟨[], [some [Vector.replicate 32 1]]⟩
    ∃ outcome, run (steadySources twoLogs 7 (some 5) 1) 10 (numberFilter criteria 4 6) 0 () 1 = some outcome ∧
      outcome.result = .ok ⟨[indexedLog 4 1, indexedLog 5 1, indexedLog 6 1], true⟩ := by
  intro criteria
  have hserves := steadySources_serves twoLogs 7 (some 5) 1
  have hlogs : twoLogs.matching criteria 4 6 = [indexedLog 4 1, indexedLog 5 1, indexedLog 6 1] := by decide
  obtain ⟨outcome, hrun, hok, -⟩ := @run_boundary_transparent Unit _ _ 10 twoLogs 7 (some 5) 4 6 hserves
    (by decide) () trivial criteria 0 0 (by decide)
  exact ⟨outcome, hrun, by rw [hok, hlogs]; rfl⟩

end LogGateway.Query
