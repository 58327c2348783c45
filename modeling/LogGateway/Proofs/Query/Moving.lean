/-
Queries over a log store in memory that other code appends to and reorganises between their calls. Main
statement: where a query over numbers gives a result, its last attempt read the highest block, and from then to
its last version read the blocks up to that one stayed as they were; so what the store gave is what it has in
each of these states, and the node was asked from the block after on.
-/
import LogGateway.Proofs.Query.Attempt
import LogGateway.Proofs.Query.Boundary
import LogGateway.Proofs.Store.Appending
import Mathlib.Control.Monad.Basic

namespace LogGateway.Query

open Store (Along Above AgreeTo sampleLog)

/-- A log store in memory, what other code does to it ahead of each of the calls to come, and a node. -/
structure Moving (ν : Type) where
  store : Store
  /-- The changes ahead of the next call, of the one after it, and so on. -/
  ahead : Nat → List Mutation
  node : ν

namespace Moving

variable {ν : Type} {node : Sources ν} {moving : Moving ν}

/-- Other code makes its changes, and then the call comes in. The store answers at once from what it is then,
and the node as it may. -/
def sources (node : Sources ν) : Sources (Moving ν) := fun call moving =>
  let store := (moving.ahead 0).foldl Store.apply moving.store
  let next (state : ν) : Moving ν := ⟨store, fun n => moving.ahead (n + 1), state⟩
  match call with
  | .version => ⟨0, .ok store.version, next moving.node⟩
  | .highest => ⟨0, .ok store.highest?, next moving.node⟩
  | .stored part => ⟨0, .ok (store.query part), next moving.node⟩
  | .block hash =>
    let reply := node (.block hash) moving.node
    ⟨reply.delay, reply.outcome, next reply.state⟩
  | .logs filter =>
    let reply := node (.logs filter) moving.node
    ⟨reply.delay, reply.outcome, next reply.state⟩

/-! ## The store over time -/

/-- All changes ahead of the first so many calls. -/
def changes (moving : Moving ν) (calls : Nat) : List Mutation := (List.range calls).flatMap moving.ahead

/-- The store that the last of so many calls finds. -/
def storeAt (moving : Moving ν) (calls : Nat) : Store := (moving.changes calls).foldl Store.apply moving.store

theorem changes_succ (moving : Moving ν) (calls : Nat) :
    moving.changes (calls + 1) = moving.changes calls ++ moving.ahead calls := by
  rw [changes, List.range_succ, List.flatMap_append, List.flatMap_singleton]
  rfl

theorem storeAt_succ (moving : Moving ν) (calls : Nat) :
    moving.storeAt (calls + 1) = (moving.ahead calls).foldl Store.apply (moving.storeAt calls) := by
  rw [storeAt, changes_succ, List.foldl_append]
  rfl

theorem changes_prefix (moving : Moving ν) {m n : Nat} (h : m ≤ n) : moving.changes m <+: moving.changes n := by
  induction h with
  | refl => exact List.prefix_rfl
  | step _ ih =>
    rw [changes_succ]
    exact ih.trans (List.prefix_append _ _)

/-- From one call to another other code appends to the store at most, as the version tells. -/
structure Steady (moving : Moving ν) (first last : Nat) : Prop where
  version : (moving.storeAt last).version = (moving.storeAt first).version
  few : reorgs (moving.changes last) < UInt64.size
  above : Along Above moving.store (moving.changes last)

namespace Steady

variable {a k n : Nat} {top : UInt64} {done : List Mutation}

/-- From a call in between on, all stores agree up to the block that is the highest there. -/
theorem agree (h : moving.Steady a n) (hak : a ≤ k) (htop : (moving.storeAt k).highest? = some top)
    (hk : moving.changes k <+: done) (hn : done <+: moving.changes n) :
    AgreeTo top (done.foldl Store.apply moving.store) (moving.storeAt k) := by
  obtain ⟨early, hearly⟩ := moving.changes_prefix hak
  obtain ⟨since, rfl⟩ := hk
  obtain ⟨late, hlate⟩ := hn
  -- from call `a` to call `n` nothing was dropped
  have hall : moving.changes n = moving.changes a ++ (early ++ since ++ late) := by
    rw [← hlate, ← hearly]
    simp only [List.append_assoc]
  have hzero : reorgs (early ++ since ++ late) = 0 := by
    refine @Store.reorgs_eq_zero (moving.storeAt a) _ ?_ ?_
    · rw [← h.version, storeAt, storeAt, hall, ← List.foldl_append]
    · have hfew := h.few
      rw [hall, reorgs_append] at hfew
      omega
  rw [reorgs_append, reorgs_append] at hzero
  -- and from call `k` on blocks were appended above its highest
  have habove := h.above
  rw [← hlate, Store.along_append, Store.along_append] at habove
  rw [List.foldl_append]
  exact habove.1.2.agree (by omega) htop (UInt64.le_refl top)

/-- What the store has up to there at one call, it has in every state. -/
theorem query_eq (h : moving.Steady a n) (hak : a ≤ k) (htop : (moving.storeAt k).highest? = some top)
    {m : Nat} (hkm : k ≤ m) (hmn : m ≤ n) {part : StoreFilter} (hpart : part.last ≤ top)
    (hk : moving.changes k <+: done) (hn : done <+: moving.changes n) :
    (done.foldl Store.apply moving.store).query part = (moving.storeAt m).query part := by
  have hm := h.agree hak htop (moving.changes_prefix hkm) (moving.changes_prefix hmn)
  rw [(h.agree hak htop hk hn).query_eq hpart]
  exact (hm.query_eq hpart).symm

end Steady

/-! ## Calls -/

theorem sources_store (call : Call) (moving : Moving ν) :
    (sources node call moving).state.store = (moving.ahead 0).foldl Store.apply moving.store := by
  cases call <;> rfl

theorem sources_ahead (call : Call) (moving : Moving ν) (n : Nat) :
    (sources node call moving).state.ahead n = moving.ahead (n + 1) := by
  cases call <;> rfl

variable {p q : Progress (Moving ν)}

theorem version_of_answers {version : UInt64} (h : Answers (sources node) .version version p q) :
    q.state.store.version = version := by
  rw [h.state, sources_store]
  exact Except.ok.inj h.outcome

theorem highest_of_answers {highest : Option UInt64} (h : Answers (sources node) .highest highest p q) :
    q.state.store.highest? = highest := by
  rw [h.state, sources_store]
  exact Except.ok.inj h.outcome

theorem query_of_answers {part : StoreFilter} {stored : List StoredLog}
    (h : Answers (sources node) (.stored part) stored p q) : q.state.store.query part = stored := by
  rw [h.state, sources_store]
  exact Except.ok.inj h.outcome

/-- A query over the store has come so far: its calls found the store as of their number. -/
structure Follows (moving : Moving ν) (p : Progress (Moving ν)) : Prop where
  store : p.state.store = moving.storeAt p.asked.length
  ahead : ∀ n, p.state.ahead n = moving.ahead (p.asked.length + n)

theorem follows_start (moving : Moving ν) (start : Nat) : moving.Follows ⟨moving, start, [], 0⟩ :=
  ⟨rfl, fun n => by rw [List.length_nil, Nat.zero_add]⟩

theorem follows_kept (node : Sources ν) (moving : Moving ν) : Kept (sources node) moving.Follows := by
  refine ⟨fun call answer p q h hp => ?_, fun p retries hp => ⟨hp.store, hp.ahead⟩⟩
  constructor
  · -- the call finds what the changes ahead of it left
    rw [h.state, sources_store, hp.store, hp.ahead, h.length, storeAt_succ]
    rfl
  · intro n
    rw [h.state, sources_ahead, hp.ahead, h.length]
    congr 1
    omega

theorem version_of_moved {deadline : Nat} {filter : LogFilter} {before after : UInt64}
    {rounds : List (Round (Moving ν))} (hm : Moved (sources node) deadline filter before p rounds after q)
    (hp : p.state.store.version = before) : q.state.store.version = after := by
  induction hm with
  | refl => exact hp
  | @step _ _ round _ _ ran _ _ _ ih =>
    -- a round ends with a version read, and nothing moves the store before the next one
    have hread : (round.closed (sources node)).state.store.version = round.version :=
      version_of_answers (ask_answers ran.read)
    exact ih hread

/-- A query that gives a result closes its last round at the version that the round began with. -/
theorem follows_last {deadline start : Nat} {filter : LogFilter} {opening before : UInt64}
    {opened : Progress (Moving ν)} {moved : List (Round (Moving ν))} {last : Round (Moving ν)}
    (hopen : Answers (sources node) .version opening ⟨moving, start, [], 0⟩ opened)
    (hm : Moved (sources node) deadline filter opening opened moved before last.began)
    (ran : last.Ran (sources node) deadline filter) (same : last.version = before) :
    moving.Follows last.began ∧
      (moving.storeAt (last.closed (sources node)).asked.length).version =
        (moving.storeAt last.began.asked.length).version := by
  have kept := moving.follows_kept node
  have hbegan := kept.moved hm (kept.call _ _ _ _ hopen (moving.follows_start start))
  refine ⟨hbegan, ?_⟩
  rw [← (kept.round ran hbegan).store, ← hbegan.store, version_of_moved hm (version_of_answers hopen), ← same]
  exact version_of_answers (ask_answers ran.read)

end Moving

/-! ## The query -/

variable {σ : Type} {sources : Sources σ} {criteria : Criteria} {first last : UInt64}

/-- A query between two numbers is divided by the highest block alone. -/
theorem Divided.numbers {p q : Progress σ} {split : Split}
    (h : Divided sources (numberFilter criteria first last) p split q) :
    ∃ highest, Answers sources .highest highest p q ∧ split = divided criteria first last highest := by
  cases h with
  | empty highest => exact ⟨none, highest, rfl⟩
  | range highest selection => exact ⟨_, highest, rfl⟩
  | block _ selection _ => cases selection

/-- The store is asked up to its highest block or the end of the range. -/
theorem divided_store {top : UInt64} (h : first ≤ top) :
    (divided criteria first last (some top)).store = some ⟨first, min last top, criteria⟩ := by
  have hmin : min last top = if last ≤ top then last else top := rfl
  rw [divided, Split.ofNumbers, if_neg (UInt64.not_lt.2 h), hmin]
  split <;> rfl

/-- Where other code only reorganises and appends, a query that gives a result saw one store. Its last attempt
read the highest block. If the range begins at or below that, the store was asked first, and what it gave is
what it has up to the highest block in every state from that read to the last version read: no block up to there
was dropped or changed. All else came from the node, which was asked from the next block on. -/
theorem run_ok_untorn {ν : Type} (node : Sources ν) {moving : Moving ν} {deadline start limit : Nat}
    {outcome : Outcome (Moving ν)} {fetched : Fetched}
    (h : run (Moving.sources node) deadline (numberFilter criteria first last) start moving limit = some outcome)
    (hok : outcome.result = .ok fetched)
    (hfew : reorgs (moving.changes outcome.asked.length) < UInt64.size)
    (habove : Along Above moving.store (moving.changes outcome.asked.length)) :
    ∃ (earlier later : List Asked) (time : Nat) (highest : Option UInt64),
      outcome.asked = earlier ++ ⟨.highest, time, some (.ok highest)⟩ :: later ∧
      later.map Asked.call = logCalls (divided criteria first last highest) ++ [.version] ∧
      ∀ top, highest = some top → first ≤ top →
        ∃ (time : Nat) (stored : List StoredLog) (rest : List Asked),
          later = ⟨.stored ⟨first, min last top, criteria⟩, time, some (.ok stored)⟩ :: rest ∧
          fetched.logs = stored.map StoredLog.toLog ++ rest.flatMap Asked.logs ∧
          ∀ done, moving.changes (earlier.length + 1) <+: done → done <+: moving.changes outcome.asked.length →
            (done.foldl Store.apply moving.store).query ⟨first, min last top, criteria⟩ = stored ∧
            AgreeTo top (done.foldl Store.apply moving.store) (moving.storeAt (earlier.length + 1)) := by
  obtain ⟨opening, before, opened, moved, final, hopen, hm, ran, same, rfl, hasked⟩ := run_ok h hok
  obtain ⟨split, fromStore, live, p₁, p₂, hd, hs, hl, hfetched⟩ := attempt_ok ran.attempt
  obtain ⟨highest, hhigh, rfl⟩ := hd.numbers
  obtain ⟨storing, hstoring, hstoreCalls⟩ := hs.asked
  obtain ⟨living, hliving, hnodeCalls, hlive⟩ := hl.asked
  have hopened := ask_answers hopen
  have hread := ask_answers ran.read
  have hlog : outcome.asked = final.began.asked ++ ⟨.highest, final.began.now, some (.ok highest)⟩ ::
      (storing ++ living ++ [.read final.ended.now final.version]) := by
    rw [hasked, hread.asked, hliving, hstoring, hhigh.asked]
    simp only [List.append_assoc, List.cons_append, List.nil_append, Asked.read]
  refine ⟨_, _, _, highest, hlog, ?_, ?_⟩
  · rw [List.map_append, List.map_append, hstoreCalls, hnodeCalls]
    rfl
  rintro top rfl hle
  -- the store was asked, as the range begins at or below its highest block
  cases hs with
  | none unasked => rw [divided_store hle] at unasked; cases unasked
  | @some part stored _ asked answers =>
    obtain rfl := Option.some.inj ((divided_store hle).symm.trans asked)
    obtain rfl := List.append_cancel_left (hstoring.symm.trans answers.asked)
    refine ⟨_, stored, living ++ [.read final.ended.now final.version], rfl, ?_, ?_⟩
    · rw [hfetched, List.flatMap_append, hlive]
      exact congrArg _ (List.append_nil live).symm
    -- and each call found it as of its number
    obtain ⟨hbegan, hversion⟩ := Moving.follows_last hopened hm ran same
    have hdivided := (moving.follows_kept node).call _ _ _ _ hhigh hbegan
    have hanswered := (moving.follows_kept node).call _ _ _ _ answers hdivided
    have steady : moving.Steady final.began.asked.length outcome.asked.length :=
      ⟨hasked ▸ hversion, hfew, habove⟩
    have htop : (moving.storeAt (final.began.asked.length + 1)).highest? = some top := by
      rw [← hhigh.length, ← hdivided.store]
      exact Moving.highest_of_answers hhigh
    have hfrom : final.began.asked.length + 1 ≤ p₂.asked.length := by
      rw [answers.length, hhigh.length]
      omega
    have hupto : p₂.asked.length ≤ outcome.asked.length := by
      rw [hasked, hread.length, hliving, List.length_append]
      omega
    intro done hk hn
    refine ⟨?_, steady.agree (Nat.le_add_right _ 1) htop hk hn⟩
    rw [steady.query_eq (Nat.le_add_right _ 1) htop hfrom hupto Std.min_le_right hk hn, ← hanswered.store]
    exact Moving.query_of_answers answers

/-- An empty store. Ahead of a query it gets two blocks, the second of which is replaced after the query's
attempt has read it. The next attempt reads it anew, and then a third block is appended. -/
def sampleMoving : Moving Unit where
  store := .empty
  ahead call := [[.persist 5 [sampleLog 5 5 0], .persist 6 [sampleLog 6 6 0]], [], [],
    [.reorg 6, .persist 6 [sampleLog 7 6 0]], [], [], [], [.persist 7 []]].getD call []
  node := ()

/-- A node without blocks. -/
def silentNode : Sources Unit
  | .version, _ => ⟨0, .ok 0, ()⟩
  | .highest, _ => ⟨0, .ok none, ()⟩
  | .stored _, _ => ⟨0, .ok [], ()⟩
  | .block _, _ => ⟨0, .ok none, ()⟩
  | .logs _, _ => ⟨0, .ok [], ()⟩

def sampleRun : Option (Outcome (Moving Unit)) :=
  run (Moving.sources silentNode) 10 (numberFilter ⟨[], []⟩ 5 8) 0 sampleMoving 2

/-- The calls that an attempt over these makes, and the version read after it. -/
def sampleCalls : List Call := [.highest, .stored ⟨5, 6, ⟨[], []⟩⟩, .logs (numberFilter ⟨[], []⟩ 7 8), .version]

/-- The calls tell the highest block that the last attempt read. -/
theorem highest_of_sampleCalls {highest : Option UInt64}
    (h : .highest :: (logCalls (divided ⟨[], []⟩ 5 8 highest) ++ [.version]) <:+
      .version :: sampleCalls ++ sampleCalls) : highest = some 6 := by
  cases highest with
  | none => exact absurd h (by decide)
  | some top =>
    rw [divided, Split.ofNumbers] at h
    by_cases hbelow : top < 5
    · rw [if_pos hbelow] at h
      exact absurd h (by decide)
    by_cases habove : 8 ≤ top
    · rw [if_neg hbelow, if_pos habove] at h
      exact absurd h (by decide)
    rw [if_neg hbelow, if_neg habove] at h
    have heq : [.highest, .stored ⟨5, top, ⟨[], []⟩⟩, .logs (numberFilter ⟨[], []⟩ (top + 1) 8), .version] =
      sampleCalls := List.suffix_iff_eq_drop.1 h
    cases heq
    rfl

theorem run_ok_untorn_sample :
    ∃ (outcome : Outcome (Moving Unit)) (fetched : Fetched), sampleRun = some outcome ∧
      outcome.result = .ok fetched ∧ outcome.asked.map Asked.call = .version :: sampleCalls ++ sampleCalls ∧
      fetched.logs = [(sampleLog 5 5 0).toLog, (sampleLog 7 6 0).toLog] ∧
      ∀ done, sampleMoving.changes 6 <+: done → done <+: sampleMoving.changes 9 →
        (done.foldl Store.apply .empty).query ⟨5, 6, ⟨[], []⟩⟩ = [sampleLog 5 5 0, sampleLog 7 6 0] := by
  have hshown : sampleRun.map (fun outcome => (outcome.result, outcome.asked.map Asked.call)) =
      some (.ok ⟨[(sampleLog 5 5 0).toLog, (sampleLog 7 6 0).toLog], true⟩,
        .version :: sampleCalls ++ sampleCalls) := by
    unfold sampleRun Moving.sources
    simp only [Store.apply_eq, Store.highest?_eq_getLast?]
    decide +kernel
  obtain ⟨outcome, hrun, hout⟩ := Option.map_eq_some_iff.1 hshown
  obtain ⟨hok, hcalls⟩ := Prod.mk.inj hout
  have hlen : outcome.asked.length = 9 := by
    rw [← List.length_map (f := Asked.call), hcalls]
    rfl
  have hfew : reorgs (sampleMoving.changes outcome.asked.length) < UInt64.size := by
    rw [hlen]
    decide
  have habove : Along Above sampleMoving.store (sampleMoving.changes outcome.asked.length) := by
    rw [hlen]
    refine ⟨Store.above_persist_iff.2 (by decide +kernel), Store.above_persist_iff.2 ?_, trivial,
      Store.above_persist_iff.2 ?_, Store.above_persist_iff.2 ?_, trivial⟩ <;>
    · rw [Store.apply_eq]
      decide +kernel
  obtain ⟨earlier, later, time, highest, hlog, hlater, hstore⟩ := run_ok_untorn silentNode hrun hok hfew habove
  have hsuffix : .highest :: later.map Asked.call <:+ outcome.asked.map Asked.call := by
    rw [hlog, List.map_append]
    exact List.suffix_append _ _
  rw [hlater, hcalls] at hsuffix
  obtain rfl := highest_of_sampleCalls hsuffix
  obtain ⟨-, stored, rest, -, -, hall⟩ := hstore 6 rfl (by decide)
  have hearlier : earlier.length = 5 := by
    have := congrArg List.length hlog
    have hlaterlen : later.length = 3 := by
      rw [← List.length_map (f := Asked.call), hlater]
      rfl
    rw [hlen, List.length_append, List.length_cons, hlaterlen] at this
    omega
  rw [hearlier, hlen] at hall
  have hstored : stored = [sampleLog 5 5 0, sampleLog 7 6 0] := by
    rw [← (hall _ (Moving.changes_prefix _ (by decide)) List.prefix_rfl).1, Store.apply_eq]
    decide +kernel
  exact ⟨outcome, _, hrun, hok, hcalls, rfl, fun done hk hn => (hall done hk hn).1.trans hstored⟩

end LogGateway.Query
