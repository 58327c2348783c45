/-
A store filled from a chain: consecutive blocks are persisted one after the other, from any block on. It holds
exactly the logs of these blocks, and finds among them what a filter accepts.
-/
import LogGateway.Proofs.Chain.Range
import LogGateway.Proofs.Store.Changes

namespace LogGateway.Chain

variable {chain : Chain} {store : Store} {start count : Nat} {low top : UInt64}

/-- The change that persists a block of a chain. -/
def persist (chain : Chain) (n : Nat) : Mutation :=
  .persist (.ofNat n) ((chain.logs (.ofNat n)).map StoredLog.ofLog)

/-- The store to which a chain's blocks from `low` to `top` were persisted, one after the other. -/
def filled (chain : Chain) (low top : UInt64) : Store :=
  ((List.range' low.toNat (top.toNat + 1 - low.toNat)).map chain.persist).foldl Store.apply .empty

/-- The logs of a block are in the order in which a store keeps them. -/
theorem sortLogs_ofLog (block : UInt64) :
    Store.sortLogs ((chain.logs block).map StoredLog.ofLog) = (chain.logs block).map StoredLog.ofLog := by
  refine List.mergeSort_of_pairwise ?_
  rw [List.pairwise_map]
  exact (chain.ordered block).imp fun h => decide_eq_true h

/-! ## What is stored -/

/-- A store holds so many blocks of a chain from one on, and no others, and had no reorganisation. -/
structure Fills (chain : Chain) (start count : Nat) (store : Store) : Prop where
  listed : store.blocks.toList =
    (List.range' start count).map fun n => (.ofNat n, (chain.logs (.ofNat n)).map StoredLog.ofLog)
  unmoved : store.version = 0

namespace Fills

theorem empty : Fills chain start 0 .empty := ⟨rfl, rfl⟩

theorem mem_iff (h : Fills chain start count store) (hc : start + count ≤ UInt64.size) {block : UInt64} :
    block ∈ store.blocks ↔ start ≤ block.toNat ∧ block.toNat < start + count := by
  rw [Store.mem_blocks_iff]
  simp only [← Std.TreeMap.mem_toList_iff_getElem?_eq_some, h.listed, List.mem_map, List.mem_range'_1, Prod.mk.injEq]
  constructor
  · rintro ⟨logs, n, hn, rfl, -⟩
    rwa [UInt64.toNat_ofNat_of_lt' (Nat.lt_of_lt_of_le hn.2 hc)]
  · intro hb
    exact ⟨_, block.toNat, hb, UInt64.ofNat_toNat, rfl⟩

theorem highest? (h : Fills chain start count store) (hc : start + count ≤ UInt64.size)
    (htop : top.toNat + 1 = start + count) (hpos : 0 < count) : store.highest? = some top := by
  rw [Store.highest?_eq_some_iff, h.mem_iff hc]
  refine ⟨by omega, fun block hb => ?_⟩
  have := (h.mem_iff hc).1 hb
  rw [UInt64.le_iff_toNat_le]
  omega

/-- The next block is taken, and listed last. -/
theorem persist (h : Fills chain start count store) (hc : start + (count + 1) ≤ UInt64.size) :
    Fills chain start (count + 1) (store.apply (chain.persist (start + count))) := by
  have hnew : (UInt64.ofNat (start + count)).toNat = start + count := UInt64.toNat_ofNat_of_lt' hc
  have htakes : store.Takes (.ofNat (start + count)) := by
    intro top htop
    obtain ⟨hmem, hmost⟩ := Store.highest?_eq_some_iff.1 htop
    have hmem := (h.mem_iff (Nat.le_of_succ_le hc)).1 hmem
    -- the last block so far is stored, so that the highest is not below it
    have hlast : (UInt64.ofNat (start + count - 1)).toNat = start + count - 1 :=
      UInt64.toNat_ofNat_of_lt' (by omega)
    have := UInt64.le_iff_toNat_le.1 (hmost (.ofNat (start + count - 1))
      ((h.mem_iff (Nat.le_of_succ_le hc)).2 (by omega)))
    -- it is not the last number, so that there is one after it
    have hnext : (top + 1).toNat = top.toNat + 1 := by
      have hlt : top.toNat + 1 < start + (count + 1) := by omega
      rw [UInt64.toNat_add, UInt64.toNat_one]
      exact Nat.mod_eq_of_lt (Nat.lt_of_lt_of_le hlt hc)
    rw [UInt64.le_iff_toNat_le]
    omega
  have hbelow : ∀ block ∈ store.blocks, compare block (.ofNat (start + count)) = .lt := by
    intro block hb
    have := (h.mem_iff (Nat.le_of_succ_le hc)).1 hb
    rw [Std.compare_eq_lt, UInt64.lt_iff_toNat_lt, hnew]
    exact this.2
  rw [Chain.persist, Store.apply_persist, if_pos htakes, sortLogs_ofLog]
  refine ⟨?_, h.unmoved⟩
  rw [OrderedMap.toList_insert_of_lt _ hbelow, h.listed, List.range'_1_concat, List.map_append]
  rfl

end Fills

theorem fills_foldl (hc : start + count ≤ UInt64.size) :
    Fills chain start count (((List.range' start count).map chain.persist).foldl Store.apply .empty) := by
  induction count with
  | zero => exact .empty
  | succ count ih =>
    rw [List.range'_1_concat, List.map_append, List.foldl_append]
    exact (ih (Nat.le_of_succ_le hc)).persist hc

theorem fills_filled (h : low ≤ top) : Fills chain low.toNat (top.toNat + 1 - low.toNat) (chain.filled low top) := by
  have := top.toNat_lt
  rw [UInt64.le_iff_toNat_le] at h
  exact fills_foldl (show _ ≤ 2 ^ 64 by omega)

/-! ## What is found -/

theorem highest?_filled (h : low ≤ top) : (chain.filled low top).highest? = some top := by
  have := top.toNat_lt
  have hle := UInt64.le_iff_toNat_le.1 h
  exact (fills_filled h).highest? (show _ ≤ 2 ^ 64 by omega) (by omega) (by omega)

/-- What gives nothing may be left out. -/
theorem flatMap_filter_of_eq_nil {α β : Type} {l : List α} {p : α → Bool} {f : α → List β}
    (h : ∀ a ∈ l, p a = false → f a = []) : (l.filter p).flatMap f = l.flatMap f := by
  induction l with
  | nil => rfl
  | cons a l ih =>
    have ih := ih fun b hb => h b (List.mem_cons_of_mem _ hb)
    cases hp : p a with
    | true => rw [List.filter_cons_of_pos hp, List.flatMap_cons, List.flatMap_cons, ih]
    | false =>
      rw [List.filter_cons_of_neg (by simp [hp]), List.flatMap_cons, h a (List.mem_cons_self ..) hp, ih]
      rfl

/-- A filter accepts no log of a block outside its range. -/
theorem filter_accept_of_outside {part : StoreFilter} {block : UInt64} {logs : List StoredLog}
    (hnumber : ∀ log ∈ logs, log.blockNumber = block) (hout : (part.first ≤ block && block ≤ part.last) = false) :
    logs.filter part.accept = [] := by
  refine List.filter_eq_nil_iff.2 fun log hlog haccept => ?_
  rw [StoreFilter.accept, hnumber log hlog, hout] at haccept
  cases haccept

/-- Of its blocks the store gives the logs that a filter accepts. -/
theorem query_filled (h : low ≤ top) (part : StoreFilter) :
    (chain.filled low top).query part = ((chain.between low top).map StoredLog.ofLog).filter part.accept := by
  -- a log that is accepted carries the number of a block that is looked at
  have hskip : ∀ n ∈ List.range' low.toNat (top.toNat + 1 - low.toNat),
      (part.first ≤ UInt64.ofNat n && UInt64.ofNat n ≤ part.last) = false →
        ((chain.logs (.ofNat n)).map StoredLog.ofLog).filter part.accept = [] := by
    intro n _ hout
    refine filter_accept_of_outside (List.forall_mem_map.2 fun log hlog => ?_) hout
    exact chain.numbered _ _ hlog
  have hlisted := congrArg (fun blocks => ((blocks.filter fun e => part.first ≤ e.1 && e.1 ≤ part.last).flatMap
    Prod.snd).filter part.accept) (@fills_filled chain low top h).listed
  refine Eq.trans hlisted ?_
  rw [List.filter_map, List.flatMap_map, List.filter_flatMap]
  refine (flatMap_filter_of_eq_nil hskip).trans ?_
  rw [between, blocks, List.map_flatMap, List.filter_flatMap]

end LogGateway.Chain
