/-
A chain as its logs, block by block, and the logs of a range of blocks: where a range is cut in two, its
logs are those of both parts one after the other, and they come by block and then by index.
-/
import LogGateway.Proofs.Chain.Matching

namespace LogGateway

/-- The logs of every block. They carry the number of their block and come in the order of their index, with
at most four topics, and none is removed. -/
structure Chain where
  logs : UInt64 → List Log
  numbered : ∀ block, ∀ log ∈ logs block, log.blockNumber = block
  ordered : ∀ block, (logs block).Pairwise fun a b => a.logIndex ≤ b.logIndex
  slotted : ∀ block, ∀ log ∈ logs block, log.topics.length ≤ 4
  present : ∀ block, ∀ log ∈ logs block, log.removed = false

/-- By block, and in a block by index. -/
def Log.Before (a b : Log) : Prop :=
  a.blockNumber < b.blockNumber ∨ a.blockNumber = b.blockNumber ∧ a.logIndex ≤ b.logIndex

namespace Chain

variable (chain : Chain)

/-- The logs of so many blocks from one block on. -/
def blocks (start count : Nat) : List Log := (List.range' start count).flatMap fun n => chain.logs (.ofNat n)

/-- The logs of the blocks from `first` to `last`. -/
def between (first last : UInt64) : List Log := chain.blocks first.toNat (last.toNat + 1 - first.toNat)

/-- The logs between two blocks that meet criteria. -/
def matching (criteria : Criteria) (first last : UInt64) : List Log :=
  (chain.between first last).filter fun log => criteria.Met log

variable {chain : Chain} {first last : UInt64}

/-! ## Cutting ranges -/

theorem blocks_append (start m n : Nat) :
    chain.blocks start (m + n) = chain.blocks start m ++ chain.blocks (start + m) n := by
  rw [blocks, ← List.range'_append_1, List.flatMap_append]
  rfl

theorem mem_blocks {start count : Nat} (hc : start + count ≤ UInt64.size) {log : Log} :
    log ∈ chain.blocks start count ↔
      start ≤ log.blockNumber.toNat ∧ log.blockNumber.toNat < start + count ∧
        log ∈ chain.logs log.blockNumber := by
  simp only [blocks, List.mem_flatMap, List.mem_range'_1]
  constructor
  · rintro ⟨n, ⟨hn, hlt⟩, hlog⟩
    have hnum := chain.numbered _ _ hlog
    have hto : log.blockNumber.toNat = n := by
      rw [hnum, UInt64.toNat_ofNat_of_lt']
      exact Nat.lt_of_lt_of_le hlt hc
    rw [hto]
    exact ⟨hn, hlt, hnum ▸ hlog⟩
  · rintro ⟨hn, hlt, hlog⟩
    exact ⟨log.blockNumber.toNat, ⟨hn, hlt⟩, by rwa [UInt64.ofNat_toNat]⟩

theorem mem_between {log : Log} : log ∈ chain.between first last ↔
    first ≤ log.blockNumber ∧ log.blockNumber ≤ last ∧ log ∈ chain.logs log.blockNumber := by
  have := first.toNat_lt
  have := last.toNat_lt
  rw [between, mem_blocks (show _ ≤ 2 ^ 64 by omega), UInt64.le_iff_toNat_le, UInt64.le_iff_toNat_le]
  constructor
  · rintro ⟨h, hlt, hlog⟩
    exact ⟨h, by omega, hlog⟩
  · rintro ⟨h, hle, hlog⟩
    exact ⟨h, by omega, hlog⟩

/-- The blocks up to `mid` and those after it are all blocks. -/
theorem between_append {mid : UInt64} (h : first ≤ mid) (h' : mid < last) :
    chain.between first last = chain.between first mid ++ chain.between (mid + 1) last := by
  rw [UInt64.le_iff_toNat_le] at h
  rw [UInt64.lt_iff_toNat_lt] at h'
  have := last.toNat_lt
  have hmid : (mid + 1).toNat = mid.toNat + 1 := by
    rw [UInt64.toNat_add, UInt64.toNat_one]; omega
  rw [between, between, between, hmid,
    show last.toNat + 1 - first.toNat =
      (mid.toNat + 1 - first.toNat) + (last.toNat + 1 - (mid.toNat + 1)) by omega,
    blocks_append, show first.toNat + (mid.toNat + 1 - first.toNat) = mid.toNat + 1 by omega]

theorem matching_append {criteria : Criteria} {mid : UInt64} (h : first ≤ mid) (h' : mid < last) :
    chain.matching criteria first last =
      chain.matching criteria first mid ++ chain.matching criteria (mid + 1) last := by
  rw [matching, between_append h h', List.filter_append]
  rfl

/-- A filter for a range leaves nothing of blocks outside. -/
theorem filter_outside {start count : Nat} (hc : start + count ≤ UInt64.size)
    (hout : start + count ≤ first.toNat ∨ last.toNat < start) (p : Log → Bool) :
    ((chain.blocks start count).filter fun log =>
      first ≤ log.blockNumber && log.blockNumber ≤ last && p log) = [] := by
  rw [List.filter_eq_nil_iff]
  intro log hlog
  have := (mem_blocks hc).1 hlog
  simp only [Bool.and_eq_true, decide_eq_true_eq, UInt64.le_iff_toNat_le]
  omega

/-- Of all blocks up to `top`, a filter for a lower range leaves those of the range. -/
theorem filter_between {top : UInt64} (h : first ≤ last) (h' : last ≤ top) (p : Log → Bool) :
    ((chain.between 0 top).filter fun log => first ≤ log.blockNumber && log.blockNumber ≤ last && p log) =
      (chain.between first last).filter p := by
  rw [UInt64.le_iff_toNat_le] at h h'
  have := top.toNat_lt
  have hsplit : chain.between 0 top = chain.blocks 0 first.toNat ++ chain.between first last ++
      chain.blocks (last.toNat + 1) (top.toNat - last.toNat) := by
    rw [between, between, UInt64.toNat_zero, Nat.sub_zero,
      show top.toNat + 1 = first.toNat + (last.toNat + 1 - first.toNat) + (top.toNat - last.toNat) by omega,
      blocks_append, blocks_append, Nat.zero_add,
      show first.toNat + (last.toNat + 1 - first.toNat) = last.toNat + 1 by omega, Nat.zero_add]
  rw [hsplit, List.filter_append, List.filter_append,
    filter_outside (show _ ≤ 2 ^ 64 by omega) (.inl (by omega)),
    filter_outside (show _ ≤ 2 ^ 64 by omega) (.inr (by omega)), List.nil_append, List.append_nil]
  refine List.filter_congr fun log hlog => ?_
  obtain ⟨hfirst, hlast, -⟩ := mem_between.1 hlog
  simp [hfirst, hlast]

/-- The blocks from `low` on, of all blocks up to `top`. -/
theorem between_eq_filter {low top : UInt64} (h : low ≤ top) :
    chain.between low top = (chain.between 0 top).filter fun log => low ≤ log.blockNumber := by
  have hall := @filter_between chain low top top h (UInt64.le_refl top) fun _ => true
  rw [List.filter_eq_self.2 fun _ _ => rfl] at hall
  rw [← hall]
  refine List.filter_congr fun log hlog => ?_
  simp [(mem_between.1 hlog).2.1]

theorem filter_accept_ofLog {top : UInt64} (h : first ≤ last) (h' : last ≤ top) (criteria : Criteria) :
    ((chain.between 0 top).filter fun log => (StoreFilter.mk first last criteria).accept (.ofLog log)) =
      chain.matching criteria first last := by
  rw [matching, ← filter_between h h']
  refine List.filter_congr fun log hlog => ?_
  obtain ⟨-, -, hin⟩ := mem_between.1 hlog
  have hmet : criteria.accept log.address log.topics = decide (criteria.Met log) := by
    rw [Bool.eq_iff_iff, criteria.accept_iff, decide_eq_true_iff]
  rw [StoreFilter.accept, StoredLog.topics_ofLog (chain.slotted _ _ hin), ← hmet]
  rfl

/-- What a store with the blocks from `low` to `top` finds in a range below `top`, and gives back as logs, are the
logs of the range that meet the criteria and do not lie below `low`. -/
theorem map_toLog_filter_accept {low top : UInt64} (hlow : low ≤ top) (h : first ≤ last) (h' : last ≤ top)
    (criteria : Criteria) :
    (((chain.between low top).map StoredLog.ofLog).filter (StoreFilter.mk first last criteria).accept).map
      StoredLog.toLog = (chain.matching criteria first last).filter fun log => low ≤ log.blockNumber := by
  have hback : ∀ log ∈ (chain.matching criteria first last).filter (fun log => low ≤ log.blockNumber),
      (StoredLog.ofLog log).toLog = log := by
    intro log hlog
    obtain ⟨-, -, hin⟩ := mem_between.1 (List.mem_filter.1 (List.mem_filter.1 hlog).1).1
    exact StoredLog.toLog_ofLog (chain.slotted _ _ hin) (chain.present _ _ hin)
  have hfound : (chain.between low top).filter ((StoreFilter.mk first last criteria).accept ∘ StoredLog.ofLog) =
      (chain.matching criteria first last).filter fun log => low ≤ log.blockNumber := by
    rw [← filter_accept_ofLog h h' criteria, between_eq_filter hlow, List.filter_filter, List.filter_filter]
    exact List.filter_congr fun log _ => Bool.and_comm ..
  rw [List.filter_map, List.map_map, hfound]
  exact (List.map_congr_left hback).trans (List.map_id _)

/-- Blocks from `low` on have no logs below it. -/
theorem filter_matching_of_le {low : UInt64} (h : low ≤ first) (criteria : Criteria) :
    ((chain.matching criteria first last).filter fun log => low ≤ log.blockNumber) =
      chain.matching criteria first last := by
  refine List.filter_eq_self.2 fun log hlog => decide_eq_true ?_
  exact UInt64.le_trans h (mem_between.1 (List.mem_filter.1 hlog).1).1

/-! ## Contents and order -/

/-- A block of a range, between the blocks before and after it. -/
theorem between_cut {block : UInt64} (h : first ≤ block) (h' : block ≤ last) :
    chain.between first last = chain.blocks first.toNat (block.toNat - first.toNat) ++ chain.logs block ++
      chain.blocks (block.toNat + 1) (last.toNat - block.toNat) := by
  rw [UInt64.le_iff_toNat_le] at h h'
  have hone : chain.blocks block.toNat 1 = chain.logs block := by
    simp [blocks]
  rw [between, show last.toNat + 1 - first.toNat =
      (block.toNat - first.toNat) + 1 + (last.toNat - block.toNat) by omega,
    blocks_append, blocks_append, show first.toNat + (block.toNat - first.toNat) = block.toNat by omega, hone,
    show first.toNat + (block.toNat - first.toNat + 1) = block.toNat + 1 by omega]

/-- A range has a log as often as the log's block has it. -/
theorem count_between (log : Log) : (chain.between first last).count log =
    if first ≤ log.blockNumber ∧ log.blockNumber ≤ last then (chain.logs log.blockNumber).count log
    else 0 := by
  split
  · rename_i h
    have := last.toNat_lt
    have hfirst := UInt64.le_iff_toNat_le.1 h.1
    have hlast := UInt64.le_iff_toNat_le.1 h.2
    -- the blocks on both sides of the log's own have other numbers
    have hbelow : log ∉ chain.blocks first.toNat (log.blockNumber.toNat - first.toNat) := by
      rw [mem_blocks (show _ ≤ 2 ^ 64 by omega)]; omega
    have habove : log ∉ chain.blocks (log.blockNumber.toNat + 1) (last.toNat - log.blockNumber.toNat) := by
      rw [mem_blocks (show _ ≤ 2 ^ 64 by omega)]; omega
    rw [between_cut h.1 h.2, List.count_append, List.count_append, List.count_eq_zero.2 hbelow,
      List.count_eq_zero.2 habove, Nat.zero_add, Nat.add_zero]
  · rename_i h
    rw [List.count_eq_zero, mem_between]
    rintro ⟨hfirst, hlast, -⟩
    exact h ⟨hfirst, hlast⟩

theorem count_matching (criteria : Criteria) (log : Log) : (chain.matching criteria first last).count log =
    if first ≤ log.blockNumber ∧ log.blockNumber ≤ last ∧ criteria.Met log then
      (chain.logs log.blockNumber).count log
    else 0 := by
  by_cases hm : criteria.Met log
  · rw [matching, List.count_filter (by simpa using hm), count_between]
    simp [hm]
  · have hout : log ∉ chain.matching criteria first last := by
      intro hlog
      exact hm (of_decide_eq_true (List.mem_filter.1 hlog).2)
    rw [List.count_eq_zero.2 hout]
    simp [hm]

theorem between_pairwise : (chain.between first last).Pairwise Log.Before := by
  have := first.toNat_lt
  have := last.toNat_lt
  rw [between, blocks, List.pairwise_flatMap]
  constructor
  · intro n hn
    refine (chain.ordered _).imp_of_mem fun ha hb hle => .inr ⟨?_, hle⟩
    rw [chain.numbered _ _ ha, chain.numbered _ _ hb]
  · refine List.Pairwise.imp_of_mem (fun hm hn hlt a ha b hb => .inl ?_) List.pairwise_lt_range'
    rw [List.mem_range'_1] at hm hn
    rw [chain.numbered _ _ ha, chain.numbered _ _ hb, UInt64.lt_iff_toNat_lt,
      UInt64.toNat_ofNat_of_lt' (show _ < 2 ^ 64 by omega),
      UInt64.toNat_ofNat_of_lt' (show _ < 2 ^ 64 by omega)]
    exact hlt

theorem matching_pairwise (criteria : Criteria) : (chain.matching criteria first last).Pairwise Log.Before :=
  between_pairwise.filter _

end Chain

end LogGateway
