/-
What a query finds in a store whose logs carry the number of the block that they were persisted under: of all stored
logs those that the filter accepts, by block and then by index, and those of equal index in the order in which they
were persisted. Changes keep the logs of a store so numbered and in order, and then the range of blocks that is looked
at leaves out no log that the filter accepts.
-/
import LogGateway.Proofs.Store.Filled
import LogGateway.Proofs.Store.History
import LogGateway.Query.Live

namespace LogGateway

/-- Logs are persisted under the number that they carry. -/
def Mutation.Numbered : Mutation → Prop
  | .persist block logs => ∀ log ∈ logs, log.blockNumber = block
  | .reorg _ => True

/-- By block, and in a block by index. -/
def StoredLog.Before (a b : StoredLog) : Prop :=
  a.blockNumber < b.blockNumber ∨ a.blockNumber = b.blockNumber ∧ a.logIndex ≤ b.logIndex

namespace Store

variable {store : Store} {block : UInt64} {stored : List StoredLog} {changes history : List Mutation}
  {change : Mutation} {part : StoreFilter}

/-- All stored logs, block by block. -/
def logs (store : Store) : List StoredLog := store.blocks.toList.flatMap Prod.snd

/-- The logs of each block carry its number and come in the order of their index. -/
structure InOrder (store : Store) : Prop where
  numbered : ∀ (block : UInt64) (stored : List StoredLog), store.blocks[block]? = some stored →
    ∀ log ∈ stored, log.blockNumber = block
  ordered : ∀ (block : UInt64) (stored : List StoredLog), store.blocks[block]? = some stored →
    stored.Pairwise fun a b => a.logIndex ≤ b.logIndex

namespace InOrder

theorem empty : Store.empty.InOrder where
  numbered block _ h := by cases (Std.TreeMap.getElem?_emptyc (a := block)).symm.trans h
  ordered block _ h := by cases (Std.TreeMap.getElem?_emptyc (a := block)).symm.trans h

/-- A change leaves the logs of a block, or gives it the persisted ones, sorted. -/
theorem apply (h : store.InOrder) (hchange : change.Numbered) : (store.apply change).InOrder := by
  have hafter : ∀ (block : UInt64) (stored : List StoredLog), (store.apply change).blocks[block]? = some stored →
      store.blocks[block]? = some stored ∨ ∃ new, change = .persist block new ∧ stored = sortLogs new := by
    intro block stored hstored
    cases change with
    | reorg first =>
      rw [getElem?_reorg] at hstored
      split at hstored
      · exact .inl hstored
      · cases hstored
    | persist number new =>
      rw [apply_persist] at hstored
      by_cases htakes : store.Takes number
      · rw [if_pos htakes, OrderedMap.getElem?_insert] at hstored
        split at hstored
        · rename_i hnumber
          exact .inr ⟨new, by rw [hnumber], (Option.some.inj hstored).symm⟩
        · exact .inl hstored
      · rw [if_neg htakes] at hstored
        exact .inl hstored
  constructor <;> intro block stored hstored <;> rcases hafter block stored hstored with hold | ⟨new, rfl, rfl⟩
  · exact h.numbered block stored hold
  · exact fun log hlog => hchange log ((sortLogs_perm new).mem_iff.1 hlog)
  · exact h.ordered block stored hold
  · exact (sortLogs_sorted new).ordered

theorem foldl (h : store.InOrder) (hchanges : ∀ change ∈ changes, change.Numbered) :
    (changes.foldl Store.apply store).InOrder := by
  induction changes generalizing store with
  | nil => exact h
  | cons change changes ih =>
    exact ih (h.apply (hchanges change (List.mem_cons_self ..))) fun c hc => hchanges c (List.mem_cons_of_mem _ hc)

theorem mem_entry (h : store.InOrder) {entry : UInt64 × List StoredLog} (hentry : entry ∈ store.blocks.toList) :
    ∀ log ∈ entry.2, log.blockNumber = entry.1 :=
  h.numbered entry.1 entry.2 (Std.TreeMap.mem_toList_iff_getElem?_eq_some.1 hentry)

/-- The range of blocks that is looked at leaves out no log that is accepted. -/
theorem query_eq (h : store.InOrder) (part : StoreFilter) : store.query part = store.logs.filter part.accept := by
  have hskip : ∀ entry ∈ store.blocks.toList, (part.first ≤ entry.1 && entry.1 ≤ part.last) = false →
      entry.2.filter part.accept = [] :=
    fun entry hentry hout => Chain.filter_accept_of_outside (h.mem_entry hentry) hout
  rw [query, logs, List.filter_flatMap, List.filter_flatMap]
  exact Chain.flatMap_filter_of_eq_nil hskip

theorem logs_pairwise (h : store.InOrder) : store.logs.Pairwise StoredLog.Before := by
  rw [logs, List.pairwise_flatMap]
  constructor
  · intro entry hentry
    refine (h.ordered entry.1 entry.2 (Std.TreeMap.mem_toList_iff_getElem?_eq_some.1 hentry)).imp_of_mem ?_
    intro a b ha hb hle
    exact .inr ⟨by rw [h.mem_entry hentry a ha, h.mem_entry hentry b hb], hle⟩
  · refine store.blocks.ordered_keys_toList.imp_of_mem fun hm hn hlt a ha b hb => .inl ?_
    rw [h.mem_entry hm a ha, h.mem_entry hn b hb]
    exact Std.compare_eq_lt.1 hlt

/-- Of all stored logs those of one number are the logs of that block. -/
theorem logs_filter_number (h : store.InOrder) (block : UInt64) :
    (store.logs.filter fun log => log.blockNumber = block) = store.blocks[block]?.getD [] := by
  have hskip : ∀ entry ∈ store.blocks.toList, decide (entry.1 = block) = false →
      (entry.2.filter fun log => log.blockNumber = block) = [] := by
    intro entry hentry hother
    refine List.filter_eq_nil_iff.2 fun log hlog hnumber => of_decide_eq_false hother ?_
    rw [← h.mem_entry hentry log hlog, of_decide_eq_true hnumber]
  rw [logs, List.filter_flatMap, ← Chain.flatMap_filter_of_eq_nil hskip,
    OrderedMap.toList_filter_key store.blocks (p := fun number => decide (number = block)) fun a => decide_eq_true_iff]
  cases hstored : store.blocks[block]? with
  | none => rfl
  | some stored =>
    simp only [Option.toList_some, List.map_cons, List.map_nil, List.flatMap_singleton, Option.getD_some]
    exact List.filter_eq_self.2 fun log hlog => decide_eq_true (h.numbered block stored hstored log hlog)

end InOrder

/-! ## After a history -/

variable {logs : List StoredLog}

theorem inOrder_ofHistory (hnumbered : ∀ change ∈ history, change.Numbered) : (ofHistory history).InOrder :=
  InOrder.empty.foldl hnumbered

/-- The found logs of one block and index are those that the block was last persisted with, in the same order. -/
theorem query_filter_of_lastGiven (hnumbered : ∀ change ∈ history, change.Numbered)
    (hgiven : LastGiven (taken empty history) block logs) (part : StoreFilter) (index : UInt64) :
    (((ofHistory history).query part).filter fun log => log.blockNumber = block && log.logIndex = index) =
      logs.filter fun log => part.accept log && log.logIndex = index := by
  have horder := inOrder_ofHistory hnumbered
  have hsorted := sortLogs_sorted logs
  have hstored : (ofHistory history).blocks[block]? = some (sortLogs logs) :=
    getElem?_ofHistory.2 ⟨logs, hgiven, hsorted⟩
  calc (((ofHistory history).query part).filter fun log => log.blockNumber = block && log.logIndex = index)
      = ((((ofHistory history).logs.filter fun log => log.blockNumber = block).filter fun log =>
          log.logIndex = index).filter part.accept) := by
        simp only [horder.query_eq, List.filter_filter]
        refine List.filter_congr fun log _ => ?_
        rw [Bool.and_comm (decide (log.blockNumber = block)), Bool.and_comm]
    _ = (((sortLogs logs).filter fun log => log.logIndex = index).filter part.accept) := by
        rw [horder.logs_filter_number, hstored, Option.getD_some]
    _ = logs.filter fun log => part.accept log && log.logIndex = index := by
        rw [hsorted.stable, List.filter_filter]

/-- A found log is one that its block was last persisted with. -/
theorem lastGiven_of_mem_query (hnumbered : ∀ change ∈ history, change.Numbered) {log : StoredLog}
    (hlog : log ∈ (ofHistory history).query part) :
    ∃ logs, LastGiven (taken empty history) log.blockNumber logs ∧ log ∈ logs := by
  have horder := inOrder_ofHistory hnumbered
  rw [horder.query_eq] at hlog
  obtain ⟨entry, hentry, hin⟩ := List.mem_flatMap.1 (List.mem_filter.1 hlog).1
  rw [horder.mem_entry hentry log hin]
  obtain ⟨logs, hgiven, hsorted⟩ := getElem?_ofHistory.1 (Std.TreeMap.mem_toList_iff_getElem?_eq_some.1 hentry)
  rw [sortedByIndex_iff.1 hsorted] at hin
  exact ⟨logs, hgiven, (sortLogs_perm logs).mem_iff.1 hin⟩

/-- What a query finds after any history whose logs are persisted under their number, for any filter, also one that
ends before it begins. It gives an answer, which is of all stored logs those that the filter accepts, each as often as
it is stored, by block and then by index. They are logs that their blocks were last persisted with, and those of
one block and index are in the order in which they were persisted. -/
theorem query_ofHistory (part : StoreFilter) (hnumbered : ∀ change ∈ history, change.Numbered) :
    (∀ {σ : Type} (transport : Http.Transport σ) (live : Live σ), live.store = ofHistory history →
      (Live.sources transport (.stored part) live).outcome = .ok ((ofHistory history).query part)) ∧
    (ofHistory history).query part = (ofHistory history).logs.filter part.accept ∧
    ((ofHistory history).query part).Pairwise StoredLog.Before ∧
    (∀ log ∈ (ofHistory history).query part,
      ∃ logs, LastGiven (taken empty history) log.blockNumber logs ∧ log ∈ logs) ∧
    ∀ block logs, LastGiven (taken empty history) block logs → ∀ index : UInt64,
      (((ofHistory history).query part).filter fun log => log.blockNumber = block && log.logIndex = index) =
        logs.filter fun log => part.accept log && log.logIndex = index := by
  have horder := inOrder_ofHistory hnumbered
  refine ⟨fun transport live hlive => ?_, horder.query_eq part, ?_, fun log hlog => ?_,
    fun block logs hgiven index => ?_⟩
  · rw [← hlive]
    rfl
  · rw [horder.query_eq]
    exact horder.logs_pairwise.filter _
  · exact lastGiven_of_mem_query hnumbered hlog
  · exact query_filter_of_lastGiven hnumbered hgiven part index

/-- A block is dropped and persisted anew, with logs that are not in order. -/
def unsortedHistory : List Mutation :=
  [.persist 1 [sampleLog 1 1 0], .persist 2 [sampleLog 2 2 0], .reorg 2,
    .persist 2 [sampleLog 3 2 1, sampleLog 4 2 0, sampleLog 5 2 0]]

theorem query_ofHistory_unsortedHistory :
    (∀ change ∈ unsortedHistory, change.Numbered) ∧
      (ofHistory unsortedHistory).query ⟨0, 0xffffffffffffffff, ⟨[], []⟩⟩ =
        [sampleLog 1 1 0, sampleLog 4 2 0, sampleLog 5 2 0, sampleLog 3 2 1] ∧
      (ofHistory unsortedHistory).query ⟨2, 1, ⟨[], []⟩⟩ = [] := by
  have hnumbered : ∀ change ∈ unsortedHistory, change.Numbered := by
    simp [unsortedHistory, Mutation.Numbered, sampleLog]
  have hsorted : [sampleLog 4 2 0, sampleLog 5 2 0, sampleLog 3 2 1] =
      sortLogs [sampleLog 3 2 1, sampleLog 4 2 0, sampleLog 5 2 0] := by
    refine sortedByIndex_iff.1 ⟨by decide, fun index => ?_⟩
    by_cases hzero : (0 : UInt64) = index
    · subst hzero
      rfl
    · simp [sampleLog, List.filter_cons, hzero]
  have hlogs : (ofHistory unsortedHistory).logs =
      [sampleLog 1 1 0, sampleLog 4 2 0, sampleLog 5 2 0, sampleLog 3 2 1] := by
    simp only [ofHistory, unsortedHistory, List.foldl, apply_eq, ← hsorted, sortLogs_singleton]
    decide +kernel
  refine ⟨hnumbered, ?_, ?_⟩
  · rw [(query_ofHistory _ hnumbered).2.1, hlogs]
    rfl
  · rw [(query_ofHistory _ hnumbered).2.1, hlogs]
    rfl

end Store

end LogGateway
