/-
A log store and the history of changes that made it. Main statement: a block is stored exactly if it was persisted
and not dropped since, with the logs that it was last persisted with, in the order of their index; the highest of
these blocks decides which block is refused, and the version counts the reorganisations. So what a reorganisation
drops leaves no trace in the blocks.
-/
import Mathlib.Data.List.Induction
import LogGateway.Proofs.Store.Changes

namespace LogGateway

/-! ## Changes and a block -/

namespace Mutation

variable (block : UInt64)

/-- A change does not drop a block. -/
def Keeps : Mutation → Prop
  | .persist _ _ => True
  | .reorg first => block < first

/-- A change neither drops a block nor persists it. -/
def Spares : Mutation → Prop
  | .persist number _ => number ≠ block
  | .reorg first => block < first

/-- A change leaves all blocks below one as they are. -/
def From (first : UInt64) : Mutation → Prop
  | .persist block _ => first ≤ block
  | .reorg block => first ≤ block

end Mutation

namespace Store

variable {store other : Store} {block : UInt64} {logs stored : List StoredLog} {changes history : List Mutation}
  {change : Mutation}

/-! ## Sorted logs -/

/-- The same logs in the order of their index; logs of equal index are in the order that they had. -/
structure SortedByIndex (logs sorted : List StoredLog) : Prop where
  ordered : sorted.Pairwise fun a b => a.logIndex ≤ b.logIndex
  stable : ∀ index : UInt64,
    (sorted.filter fun log => log.logIndex = index) = logs.filter fun log => log.logIndex = index

theorem sortLogs_perm (logs : List StoredLog) : (sortLogs logs).Perm logs := List.mergeSort_perm ..

theorem sortLogs_sorted (logs : List StoredLog) : SortedByIndex logs (sortLogs logs) := by
  have htrans : ∀ a b c : StoredLog, (a.logIndex ≤ b.logIndex : Bool) → (b.logIndex ≤ c.logIndex : Bool) →
      (a.logIndex ≤ c.logIndex : Bool) := by
    simp only [decide_eq_true_eq]
    exact fun a b c => UInt64.le_trans
  have htotal : ∀ a b : StoredLog, (decide (a.logIndex ≤ b.logIndex) || decide (b.logIndex ≤ a.logIndex)) = true := by
    simp only [Bool.or_eq_true, decide_eq_true_eq]
    exact fun a b => UInt64.le_total ..
  refine ⟨(List.pairwise_mergeSort htrans htotal logs).imp fun h => of_decide_eq_true h, fun index => ?_⟩
  -- the logs of one index are in order as they are, and so stay a sublist
  have hsame : (logs.filter fun log => log.logIndex = index).Pairwise fun a b => (a.logIndex ≤ b.logIndex : Bool) := by
    refine List.pairwise_of_forall_mem_list fun a ha b hb => ?_
    simp only [List.mem_filter, decide_eq_true_eq] at ha hb
    rw [ha.2, hb.2]
    exact decide_eq_true (UInt64.le_refl index)
  have hsub := (List.sublist_mergeSort htrans htotal hsame List.filter_sublist).filter fun log => log.logIndex = index
  rw [List.filter_filter, List.filter_congr fun log _ => Bool.and_self _] at hsub
  exact (hsub.eq_of_length ((sortLogs_perm logs).filter _).length_eq.symm).symm

theorem mem_of_filter_index {a b : List StoredLog}
    (h : ∀ index : UInt64, (a.filter fun log => log.logIndex = index) = b.filter fun log => log.logIndex = index)
    {log : StoredLog} (hlog : log ∈ a) : log ∈ b := by
  have hin : log ∈ a.filter fun other => other.logIndex = log.logIndex := List.mem_filter.2 ⟨hlog, decide_eq_true rfl⟩
  rw [h] at hin
  exact (List.mem_filter.1 hin).1

/-- The logs of each index tell the whole list, as it is in order. -/
theorem eq_of_filter_index {a b : List StoredLog} (ha : a.Pairwise fun x y => x.logIndex ≤ y.logIndex)
    (hb : b.Pairwise fun x y => x.logIndex ≤ y.logIndex)
    (h : ∀ index : UInt64, (a.filter fun log => log.logIndex = index) = b.filter fun log => log.logIndex = index) :
    a = b := by
  induction a generalizing b with
  | nil => exact (List.eq_nil_iff_forall_not_mem.2 fun log hlog =>
      List.not_mem_nil (mem_of_filter_index (fun index => (h index).symm) hlog)).symm
  | cons x a ih =>
    cases b with
    | nil => exact absurd (mem_of_filter_index h (List.mem_cons_self ..)) List.not_mem_nil
    | cons y b =>
      obtain ⟨hxa, ha'⟩ := List.pairwise_cons.1 ha
      obtain ⟨hyb, hb'⟩ := List.pairwise_cons.1 hb
      -- both first logs have the least index
      have hyx : y.logIndex ≤ x.logIndex := by
        rcases List.mem_cons.1 (mem_of_filter_index h (List.mem_cons_self ..)) with rfl | hx
        · exact UInt64.le_refl _
        · exact hyb x hx
      have hxy : x.logIndex ≤ y.logIndex := by
        rcases List.mem_cons.1 (mem_of_filter_index (fun index => (h index).symm) (List.mem_cons_self ..)) with rfl | hy
        · exact UInt64.le_refl _
        · exact hxa y hy
      have hindex : y.logIndex = x.logIndex := UInt64.le_antisymm hyx hxy
      obtain ⟨rfl, -⟩ : x = y ∧ _ := by
        have hfirst := h x.logIndex
        rw [List.filter_cons_of_pos (by simp), List.filter_cons_of_pos (by simp [hindex])] at hfirst
        exact List.cons.inj hfirst
      refine congrArg (x :: ·) (ih ha' hb' fun index => ?_)
      have hall := h index
      rw [List.filter_cons, List.filter_cons] at hall
      split at hall
      · exact (List.cons.inj hall).2
      · exact hall

theorem sortedByIndex_iff : SortedByIndex logs stored ↔ stored = sortLogs logs := by
  constructor
  · intro h
    have hsorted := sortLogs_sorted logs
    exact eq_of_filter_index h.ordered hsorted.ordered fun index => (h.stable index).trans (hsorted.stable index).symm
  · rintro rfl
    exact sortLogs_sorted logs

/-! ## Changes that were not refused -/

/-- The store after a history of changes. -/
def ofHistory (history : List Mutation) : Store := history.foldl apply empty

theorem ofHistory_snoc (history : List Mutation) (change : Mutation) :
    ofHistory (history ++ [change]) = (ofHistory history).apply change := by
  rw [ofHistory, List.foldl_append]
  rfl

theorem taken_snoc (store : Store) (changes : List Mutation) (change : Mutation) :
    taken store (changes ++ [change]) =
      taken store changes ++ if (changes.foldl apply store).refuses change then [] else [change] := by
  induction changes generalizing store with
  | nil => rfl
  | cons first changes ih =>
    rw [List.cons_append, taken, taken, ih]
    split <;> rfl

/-- A persist is refused exactly if the block lies more than one above the highest, which the fault names. The
number after the last one is zero. -/
theorem persist_eq_error_iff {fault : StoreFault} : store.persist block logs = .error fault ↔
    ∃ top, store.highest? = some top ∧ (top.toNat + 1) % UInt64.size < block.toNat ∧ fault = .gap block top := by
  unfold persist
  cases store.highest? with
  | none => simp
  | some top =>
    have hnext : top + 1 < block ↔ (top.toNat + 1) % UInt64.size < block.toNat := UInt64.lt_iff_toNat_lt
    by_cases hgap : top + 1 < block
    · simp [hgap, ← hnext, eq_comm]
    · simp [hgap, ← hnext]

/-- While the last number is not stored, this is the comparison of the numbers. -/
theorem persist_eq_error_iff_of_not_mem {fault : StoreFault} (h : 0xffffffffffffffff ∉ store.blocks) :
    store.persist block logs = .error fault ↔
      ∃ top, store.highest? = some top ∧ top.toNat + 1 < block.toNat ∧ fault = .gap block top := by
  rw [persist_eq_error_iff]
  refine exists_congr fun top => and_congr_right fun htop => ?_
  have hne : top ≠ 0xffffffffffffffff := by
    rintro rfl
    exact h (highest?_eq_some_iff.1 htop).1
  have hlt : top.toNat + 1 < UInt64.size :=
    Nat.lt_of_le_of_ne top.toNat_lt fun hlast => hne (UInt64.toNat_inj.1 (Nat.succ.inj hlast))
  rw [Nat.mod_eq_of_lt hlt]

/-! ## What a history left -/

/-- One of these changes persists the block with these logs, and all after it meet a condition. -/
def PersistedThen (P : Mutation → Prop) (changes : List Mutation) (block : UInt64) (logs : List StoredLog) : Prop :=
  ∃ earlier later, changes = earlier ++ .persist block logs :: later ∧ ∀ change ∈ later, P change

/-- A block was persisted, and not dropped since. -/
def Stays (changes : List Mutation) (block : UInt64) : Prop :=
  ∃ logs, PersistedThen (Mutation.Keeps block) changes block logs

/-- A block was last persisted with these logs, and not dropped since. -/
def LastGiven (changes : List Mutation) (block : UInt64) (logs : List StoredLog) : Prop :=
  PersistedThen (Mutation.Spares block) changes block logs

theorem not_persistedThen_nil {P : Mutation → Prop} : ¬ PersistedThen P [] block logs := by
  rintro ⟨earlier, later, heq, -⟩
  exact List.append_ne_nil_of_right_ne_nil earlier (List.cons_ne_nil _ later) heq.symm

theorem persistedThen_snoc {P : Mutation → Prop} : PersistedThen P (changes ++ [change]) block logs ↔
    change = .persist block logs ∨ P change ∧ PersistedThen P changes block logs := by
  constructor
  · rintro ⟨earlier, later, heq, hP⟩
    rcases List.eq_nil_or_concat later with rfl | ⟨later, last, rfl⟩
    · exact .inl (List.cons.inj (List.append_inj' heq rfl).2).1
    · rw [List.concat_eq_append, ← List.cons_append, ← List.append_assoc] at heq
      obtain ⟨rfl, hlast⟩ := List.append_inj' heq rfl
      cases hlast
      rw [List.concat_eq_append] at hP
      exact .inr ⟨hP _ (by simp), earlier, later, rfl, fun c hc => hP c (List.mem_append_left _ hc)⟩
  · rintro (rfl | ⟨hchange, earlier, later, rfl, hP⟩)
    · exact ⟨changes, [], rfl, by simp⟩
    · refine ⟨earlier, later ++ [change], by simp, fun c hc => ?_⟩
      rcases List.mem_append.1 hc with hc | hc
      · exact hP c hc
      · rw [List.mem_singleton.1 hc]
        exact hchange

theorem lastGiven_persist {number : UInt64} {new : List StoredLog} :
    LastGiven (changes ++ [.persist number new]) block logs ↔
      if number = block then logs = new else LastGiven changes block logs := by
  rw [LastGiven, persistedThen_snoc]
  by_cases hn : number = block
  · simp [hn, Mutation.Spares, eq_comm]
  · simp [hn, Mutation.Spares, LastGiven]

theorem lastGiven_reorg {first : UInt64} :
    LastGiven (changes ++ [.reorg first]) block logs ↔ block < first ∧ LastGiven changes block logs := by
  rw [LastGiven, persistedThen_snoc]
  simp [Mutation.Spares, LastGiven]

/-- A block that was persisted and not dropped since has logs that it was last persisted with. -/
theorem stays_iff : Stays changes block ↔ ∃ logs, LastGiven changes block logs := by
  induction changes using List.reverseRecOn with
  | nil => exact iff_of_false (fun ⟨_, h⟩ => not_persistedThen_nil h) fun ⟨_, h⟩ => not_persistedThen_nil h
  | append_singleton changes change ih =>
    rw [Stays] at ih ⊢
    simp only [persistedThen_snoc, exists_or, exists_and_left, ih]
    cases change with
    | reorg first => simp only [lastGiven_reorg, exists_and_left, Mutation.Keeps, reduceCtorEq, exists_false, false_or]
    | persist number new =>
      by_cases hn : number = block
      · simp [lastGiven_persist, hn]
      · simp [lastGiven_persist, hn, Mutation.Keeps]

/-- A block is stored exactly with the logs that it was last persisted with, in order, if it was not dropped since. -/
theorem getElem?_ofHistory : (ofHistory history).blocks[block]? = some stored ↔
    ∃ logs, LastGiven (taken empty history) block logs ∧ SortedByIndex logs stored := by
  simp only [sortedByIndex_iff]
  induction history using List.reverseRecOn with
  | nil =>
    refine iff_of_false (fun h => ?_) fun ⟨_, h, _⟩ => not_persistedThen_nil h
    cases (Std.TreeMap.getElem?_emptyc (a := block)).symm.trans h
  | append_singleton history change ih =>
    rw [ofHistory_snoc, taken_snoc, ← ofHistory]
    by_cases href : (ofHistory history).refuses change = true
    · rw [apply_of_refuses href, if_pos href, List.append_nil, ih]
    rw [if_neg href]
    cases change with
    | reorg first =>
      rw [getElem?_reorg]
      by_cases hlt : block < first
      · simpa [lastGiven_reorg, hlt] using ih
      · simp [lastGiven_reorg, hlt]
    | persist number new =>
      have htakes := Classical.not_not.1 (mt refuses_persist.2 href)
      by_cases hn : number = block
      · subst hn
        rw [getElem?_persist_self htakes]
        simp [lastGiven_persist, eq_comm]
      · rw [getElem?_persist_of_ne (Ne.symm hn)]
        simpa [lastGiven_persist, hn] using ih

theorem mem_ofHistory : block ∈ (ofHistory history).blocks ↔ Stays (taken empty history) block := by
  rw [mem_blocks_iff, stays_iff]
  simp only [getElem?_ofHistory, sortedByIndex_iff]
  exact ⟨fun ⟨_, logs, h, _⟩ => ⟨logs, h⟩, fun ⟨logs, h⟩ => ⟨_, logs, h, rfl⟩⟩

/-- The highest stored block is the highest of those that were persisted and not dropped since. -/
theorem highest?_ofHistory {top : UInt64} : (ofHistory history).highest? = some top ↔
    Stays (taken empty history) top ∧ ∀ block, Stays (taken empty history) block → block ≤ top := by
  simp only [highest?_eq_some_iff, mem_ofHistory]

theorem highest?_ofHistory_eq_none :
    (ofHistory history).highest? = none ↔ ∀ block, ¬ Stays (taken empty history) block := by
  simp only [← mem_ofHistory]
  constructor
  · intro hnone block hb
    obtain ⟨top, htop, -⟩ := exists_highest hb
    cases hnone.symm.trans htop
  · intro h
    refine Option.eq_none_iff_forall_ne_some.2 fun top htop => ?_
    exact h top (highest?_eq_some_iff.1 htop).1

theorem version_ofHistory (hfew : reorgs history < UInt64.size) :
    (ofHistory history).version.toNat = reorgs history := by
  rw [ofHistory, version_foldl, show empty.version = 0 from rfl, UInt64.zero_add, UInt64.toNat_ofNat_of_lt' hfew]

/-! ## Branches -/

/-- Two stores have the same blocks with the same logs. -/
def SameBlocks (store other : Store) : Prop := ∀ block : UInt64, store.blocks[block]? = other.blocks[block]?

namespace SameBlocks

theorem equiv (h : SameBlocks store other) : store.blocks.Equiv other.blocks :=
  Std.TreeMap.Equiv.of_forall_constGet?_eq h

theorem takes_iff (h : SameBlocks store other) : store.Takes block ↔ other.Takes block := by
  have hhighest : store.highest? = other.highest? := h.equiv.maxKey?_eq
  rw [Takes, Takes, hhighest]

/-- The blocks alone decide what a change does to them. -/
theorem apply (h : SameBlocks store other) (change : Mutation) :
    SameBlocks (store.apply change) (other.apply change) := by
  intro number
  cases change with
  | reorg first => rw [getElem?_reorg, getElem?_reorg, h number]
  | persist block logs =>
    rw [apply_persist, apply_persist]
    by_cases htakes : store.Takes block
    · rw [if_pos htakes, if_pos (h.takes_iff.1 htakes), OrderedMap.getElem?_insert, OrderedMap.getElem?_insert, h number]
    · rw [if_neg htakes, if_neg fun h' => htakes (h.takes_iff.2 h'), h number]

theorem foldl (h : SameBlocks store other) (changes : List Mutation) :
    SameBlocks (changes.foldl Store.apply store) (changes.foldl Store.apply other) := by
  induction changes generalizing store other with
  | nil => exact h
  | cons change changes ih => exact ih (h.apply change)

end SameBlocks

/-- What follows a reorganisation finds the kept blocks, and no trace of the dropped ones. -/
theorem sameBlocks_of_reorg {earlier kept : List Mutation} {first : UInt64} (branch : List Mutation)
    (h : ∀ block, (ofHistory kept).blocks[block]? =
      if block < first then (ofHistory earlier).blocks[block]? else none) :
    SameBlocks (ofHistory (earlier ++ .reorg first :: branch)) (ofHistory (kept ++ branch)) := by
  have hreorg : SameBlocks ((ofHistory earlier).apply (.reorg first)) (ofHistory kept) := by
    intro block
    rw [getElem?_reorg, h]
  rw [ofHistory, ofHistory, List.foldl_append, List.foldl_append]
  exact hreorg.foldl branch

theorem getElem?_foldl_of_from {first : UInt64} (h : ∀ change ∈ changes, change.From first) (hb : block < first) :
    (changes.foldl apply store).blocks[block]? = store.blocks[block]? := by
  induction changes generalizing store with
  | nil => rfl
  | cons change changes ih =>
    rw [List.foldl_cons, ih fun c hc => h c (List.mem_cons_of_mem _ hc)]
    have hfrom := h change (List.mem_cons_self ..)
    cases change with
    | persist number logs => exact getElem?_persist_of_ne fun heq => UInt64.not_lt.2 hfrom (heq ▸ hb)
    | reorg cut => rw [getElem?_reorg, if_pos (UInt64.lt_of_lt_of_le hb hfrom)]

/-- A prefix of a history whose blocks lie below the reorganisation is kept, if all else up to it is from there on. -/
theorem getElem?_of_kept {kept dropped : List Mutation} {first : UInt64}
    (hkept : ∀ block ∈ (ofHistory kept).blocks, block < first) (hdropped : ∀ change ∈ dropped, change.From first)
    (block : UInt64) : (ofHistory kept).blocks[block]? =
      if block < first then (ofHistory (kept ++ dropped)).blocks[block]? else none := by
  by_cases hb : block < first
  · rw [if_pos hb, ofHistory, ofHistory, List.foldl_append, getElem?_foldl_of_from hdropped hb]
  · rw [if_neg hb]
    exact Std.TreeMap.getElem?_eq_none fun hin => hb (hkept block hin)

/-- What any history of changes makes of an empty store. A persist is refused exactly if its block lies more than one
above the highest, where after the last number comes zero, and then changes nothing. A block is stored exactly if it was persisted and not dropped since,
with the logs of its last persist in the order of their index, and the highest block is the highest of these. The
version counts the reorganisations. Changes after a reorganisation leave the same blocks as after any history that
keeps just the blocks below it, such as a part of the history that came before all changes from there on. -/
theorem ofHistory_told (history : List Mutation) :
    (0xffffffffffffffff ∉ (ofHistory history).blocks →
      ∀ block logs fault, (ofHistory history).persist block logs = .error fault ↔
        ∃ top, (ofHistory history).highest? = some top ∧ top.toNat + 1 < block.toNat ∧ fault = .gap block top) ∧
    (∀ block logs fault, (ofHistory history).persist block logs = .error fault ↔
      ∃ top, (ofHistory history).highest? = some top ∧ (top.toNat + 1) % UInt64.size < block.toNat ∧
        fault = .gap block top) ∧
    (∀ block logs fault, (ofHistory history).persist block logs = .error fault →
      ofHistory (history ++ [.persist block logs]) = ofHistory history) ∧
    (∀ block, block ∈ (ofHistory history).blocks ↔ Stays (taken empty history) block) ∧
    (∀ block stored, (ofHistory history).blocks[block]? = some stored ↔
      ∃ logs, LastGiven (taken empty history) block logs ∧ SortedByIndex logs stored) ∧
    (∀ top, (ofHistory history).highest? = some top ↔
      Stays (taken empty history) top ∧ ∀ block, Stays (taken empty history) block → block ≤ top) ∧
    ((ofHistory history).highest? = none ↔ ∀ block, ¬ Stays (taken empty history) block) ∧
    (reorgs history < UInt64.size → (ofHistory history).version.toNat = reorgs history) ∧
    (∀ kept branch first, (∀ block, (ofHistory kept).blocks[block]? =
        if block < first then (ofHistory history).blocks[block]? else none) →
      (ofHistory (history ++ .reorg first :: branch)).blocks.toList = (ofHistory (kept ++ branch)).blocks.toList) ∧
    ∀ kept dropped branch first, history = kept ++ dropped → (∀ block ∈ (ofHistory kept).blocks, block < first) →
      (∀ change ∈ dropped, change.From first) →
      (ofHistory (history ++ .reorg first :: branch)).blocks.toList = (ofHistory (kept ++ branch)).blocks.toList := by
  refine ⟨fun h block logs fault => persist_eq_error_iff_of_not_mem h, fun block logs fault => persist_eq_error_iff,
    fun block logs fault h => ?_, fun block => mem_ofHistory, fun block stored => getElem?_ofHistory,
    fun top => highest?_ofHistory, highest?_ofHistory_eq_none, version_ofHistory, fun kept branch first h => ?_, ?_⟩
  · rw [ofHistory_snoc, apply_of_refuses]
    rw [refuses, h]
    rfl
  · exact Std.TreeMap.equiv_iff_toList_eq.1 (sameBlocks_of_reorg branch h).equiv
  · rintro kept dropped branch first rfl hkept hdropped
    exact Std.TreeMap.equiv_iff_toList_eq.1 (sameBlocks_of_reorg branch (getElem?_of_kept hkept hdropped)).equiv

/-- Two blocks, and one that leaves a gap. -/
def refusedHistory : List Mutation := [.persist 1 [sampleLog 1 1 0], .persist 2 [sampleLog 2 2 0], .persist 4 []]

/-- The second block is dropped and another persisted. -/
theorem ofHistory_told_refusedHistory :
    let branched := refusedHistory ++ [.reorg 2, .persist 2 [sampleLog 3 2 0]]
    (ofHistory refusedHistory).highest? = some 2 ∧ (ofHistory branched).version.toNat = 1 ∧
      (ofHistory branched).blocks[(2 : UInt64)]? = some [sampleLog 3 2 0] ∧
      (ofHistory branched).blocks.toList =
        (ofHistory [.persist 1 [sampleLog 1 1 0], .persist 2 [sampleLog 3 2 0]]).blocks.toList := by
  intro branched
  have htaken : taken empty branched = [.persist 1 [sampleLog 1 1 0], .persist 2 [sampleLog 2 2 0], .reorg 2,
    .persist 2 [sampleLog 3 2 0]] := by
    simp only [branched, refusedHistory, List.cons_append, List.nil_append, taken_persist, taken_reorg, apply_eq]
    decide +kernel
  have hkept : ∀ block ∈ (ofHistory [.persist 1 [sampleLog 1 1 0]]).blocks, block < 2 := by
    intro block hin
    rcases mem_persist.1 hin with hin | ⟨rfl, -⟩
    · cases Std.TreeMap.not_mem_emptyc hin
    · decide
  obtain ⟨-, -, -, -, hstored, -, -, hversion, -⟩ := ofHistory_told branched
  obtain ⟨-, -, -, -, -, -, -, -, -, hbranch⟩ := ofHistory_told refusedHistory
  have hhighest : (ofHistory refusedHistory).highest? = some 2 := by
    rw [highest?_eq_getLast?, ofHistory, apply_eq]
    decide +kernel
  refine ⟨hhighest, hversion (by decide), (hstored 2 _).2 ⟨[sampleLog 3 2 0], ?_, ?_⟩, ?_⟩
  · rw [htaken]
    exact ⟨[.persist 1 _, .persist 2 _, .reorg 2], [], rfl, by simp⟩
  · exact sortedByIndex_iff.2 (sortLogs_singleton _).symm
  · refine hbranch [.persist 1 [sampleLog 1 1 0]] [.persist 2 [sampleLog 2 2 0], .persist 4 []] _ 2 rfl hkept ?_
    simp [Mutation.From]

end Store

end LogGateway
