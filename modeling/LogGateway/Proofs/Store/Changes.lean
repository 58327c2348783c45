/-
What changes make of a log store: which blocks it holds, with which logs, and its version. Main statement:
where the version is the same before and after, no stored block was dropped, and a block has other logs only
if it was persisted anew and the store took it.
-/
import LogGateway.Proofs.OrderedMap
import LogGateway.Query.Script

namespace LogGateway

/-- Whether a change drops blocks. -/
def Mutation.isReorg : Mutation → Bool
  | .persist _ _ => false
  | .reorg _ => true

/-- How many of these changes drop blocks. -/
def reorgs (changes : List Mutation) : Nat := changes.countP Mutation.isReorg

theorem reorgs_append (changes more : List Mutation) : reorgs (changes ++ more) = reorgs changes + reorgs more :=
  List.countP_append

theorem reorgs_cons_eq_zero {change : Mutation} {changes : List Mutation} :
    reorgs (change :: changes) = 0 ↔ change.isReorg = false ∧ reorgs changes = 0 := by
  rw [reorgs, reorgs, List.countP_cons]
  cases change.isReorg <;> simp

namespace Store

variable {store : Store} {block : UInt64} {logs : List StoredLog}

/-! ## The highest block -/

theorem mem_blocks_iff : block ∈ store.blocks ↔ ∃ logs, store.blocks[block]? = some logs := by
  rw [Std.TreeMap.mem_iff_isSome_getElem?, Option.isSome_iff_exists]

theorem highest?_empty : empty.highest? = none := Std.TreeMap.maxKey?_emptyc

theorem highest?_eq_some_iff {top : UInt64} :
    store.highest? = some top ↔ top ∈ store.blocks ∧ ∀ block ∈ store.blocks, block ≤ top := by
  rw [highest?, Std.TreeMap.maxKey?_eq_some_iff_mem_and_forall]
  simp only [Std.isLE_compare]

/-- In this form the highest block evaluates. -/
theorem highest?_eq_getLast? (store : Store) : store.highest? = store.blocks.keys.getLast? :=
  Std.TreeMap.maxKey?_eq_getLast?_keys

theorem exists_highest (h : block ∈ store.blocks) : ∃ top, store.highest? = some top ∧ block ≤ top := by
  obtain ⟨top, htop⟩ := Option.isSome_iff_exists.1 (Std.TreeMap.isSome_maxKey?_of_mem h)
  exact ⟨top, htop, (highest?_eq_some_iff.1 htop).2 block h⟩

/-! ## One block -/

/-- A query for one number gives the logs of that block that meet the criteria. -/
theorem query_number (store : Store) (number : UInt64) (criteria : Criteria) :
    store.query ⟨number, number, criteria⟩ =
      ((store.blocks[number]?.getD []).filter (StoreFilter.accept ⟨number, number, criteria⟩)) := by
  have hkey : ∀ block : UInt64, (number ≤ block && block ≤ number) = true ↔ block = number := by
    intro block
    rw [Bool.and_eq_true, decide_eq_true_eq, decide_eq_true_eq, UInt64.le_antisymm_iff, and_comm]
  have hblocks := OrderedMap.toList_filter_key store.blocks hkey
  have hquery := congrArg (fun blocks =>
    (blocks.flatMap Prod.snd).filter (StoreFilter.accept ⟨number, number, criteria⟩)) hblocks
  refine Eq.trans hquery ?_
  cases store.blocks[number]? <;> simp

/-! ## One change -/

/-- A store takes a block that lies at most one above its highest, and any block if it is empty. Above the last
number it takes zero alone. -/
def Takes (store : Store) (block : UInt64) : Prop := ∀ top ∈ store.highest?, block ≤ top + 1

theorem takes_empty (block : UInt64) : empty.Takes block := by
  intro top htop
  rw [highest?_empty] at htop
  cases htop

theorem Takes.toNat_le (h : store.Takes block) {top : UInt64} (htop : store.highest? = some top) :
    block.toNat ≤ top.toNat + 1 := by
  have hle := UInt64.le_iff_toNat_le.1 (h top htop)
  rw [UInt64.toNat_add, UInt64.toNat_one] at hle
  exact Nat.le_trans hle (Nat.mod_le _ _)

instance Takes.decidable (store : Store) (block : UInt64) : Decidable (store.Takes block) :=
  decidable_of_iff (store.blocks.keys.getLast?.all (block ≤ · + 1) = true) <| by
    rw [Takes, highest?_eq_getLast?, Option.all_eq_true]
    simp only [Option.mem_def, decide_eq_true_eq]

/-- Persisting a block puts it where the store takes it, and else leaves the store as it is. -/
theorem apply_persist (store : Store) (block : UInt64) (logs : List StoredLog) :
    store.apply (.persist block logs) =
      if store.Takes block then { store with blocks := store.blocks.insert block (sortLogs logs) } else store := by
  unfold apply persist
  cases htop : store.highest? with
  | none =>
    have htakes : store.Takes block := by simp [Takes, htop]
    rw [if_pos htakes]
    rfl
  | some top =>
    have htakes : store.Takes block ↔ ¬ top + 1 < block := by simp [Takes, htop, UInt64.not_lt]
    by_cases hgap : top + 1 < block
    · rw [if_neg fun h => htakes.1 h hgap]
      simp only [if_pos hgap]
      rfl
    · rw [if_pos (htakes.2 hgap)]
      simp only [if_neg hgap]
      rfl

/-- In this form changes evaluate. -/
theorem apply_eq : apply = fun store change =>
    match change with
    | .persist block logs =>
      if store.Takes block then { store with blocks := store.blocks.insert block (sortLogs logs) } else store
    | .reorg first => store.reorg first := by
  funext store change
  cases change with
  | persist block logs => exact store.apply_persist block logs
  | reorg first => rfl

theorem getElem?_persist_self (h : store.Takes block) (logs : List StoredLog) :
    (store.apply (.persist block logs)).blocks[block]? = some (sortLogs logs) := by
  rw [apply_persist, if_pos h, OrderedMap.getElem?_insert, if_pos rfl]

theorem getElem?_persist_of_ne {other : UInt64} (h : other ≠ block) :
    (store.apply (.persist block logs)).blocks[other]? = store.blocks[other]? := by
  rw [apply_persist]
  split
  · rw [OrderedMap.getElem?_insert, if_neg h]
  · rfl

theorem getElem?_reorg (store : Store) (first block : UInt64) :
    (store.apply (.reorg first)).blocks[block]? = if block < first then store.blocks[block]? else none := by
  show (store.blocks.filter fun block _ => block < first)[block]? = _
  rw [OrderedMap.getElem?_filter]
  simp only [decide_eq_true_eq]

theorem mem_persist {other : UInt64} : other ∈ (store.apply (.persist block logs)).blocks ↔
    other ∈ store.blocks ∨ other = block ∧ store.Takes block := by
  rw [apply_persist]
  split
  · rename_i htakes
    rw [Std.TreeMap.mem_insert, Std.compare_eq_iff_eq]
    simp only [htakes, and_true, eq_comm, or_comm]
  · rename_i hnot
    simp [hnot]

theorem mem_reorg {first : UInt64} :
    block ∈ (store.apply (.reorg first)).blocks ↔ block ∈ store.blocks ∧ block < first := by
  rw [mem_blocks_iff, mem_blocks_iff, getElem?_reorg]
  split <;> simp [*]

/-! ## Changes that are refused -/

/-- Whether a store refuses a change. -/
def refuses (store : Store) : Mutation → Bool
  | .persist block logs => !(store.persist block logs).isOk
  | .reorg _ => false

/-- Of these changes those that are not refused by the store, each as it finds it. -/
def taken : Store → List Mutation → List Mutation
  | _, [] => []
  | store, change :: rest =>
    if store.refuses change then taken (store.apply change) rest else change :: taken (store.apply change) rest

theorem refuses_persist : store.refuses (.persist block logs) = true ↔ ¬ store.Takes block := by
  unfold refuses persist Takes
  cases store.highest? with
  | none => simp [Except.isOk, Except.toBool]
  | some top =>
    by_cases hgap : top + 1 < block
    · simp [hgap, Except.isOk, Except.toBool]
    · simp [hgap, Except.isOk, Except.toBool, UInt64.not_lt.1 hgap]

/-- A refused change leaves the store as it is. -/
theorem apply_of_refuses {change : Mutation} (h : store.refuses change = true) : store.apply change = store := by
  cases change with
  | persist block logs => rw [apply_persist, if_neg (refuses_persist.1 h)]
  | reorg first => cases h

theorem taken_persist (store : Store) (block : UInt64) (logs : List StoredLog) (rest : List Mutation) :
    taken store (.persist block logs :: rest) =
      if store.Takes block then .persist block logs :: taken (store.apply (.persist block logs)) rest
      else taken store rest := by
  rw [taken]
  by_cases htakes : store.Takes block
  · rw [if_pos htakes, if_neg fun h => refuses_persist.1 h htakes]
  · have hrefuses : store.refuses (.persist block logs) = true := refuses_persist.2 htakes
    rw [if_neg htakes, if_pos hrefuses, apply_of_refuses hrefuses]

theorem taken_reorg (store : Store) (first : UInt64) (rest : List Mutation) :
    taken store (.reorg first :: rest) = .reorg first :: taken (store.reorg first) rest := rfl

/-! ## Changes one after the other -/

/-- Each of these changes meets a condition on the store that it finds. -/
def Along (P : Store → Mutation → Prop) : Store → List Mutation → Prop
  | _, [] => True
  | store, change :: rest => P store change ∧ Along P (store.apply change) rest

theorem along_append {P : Store → Mutation → Prop} {changes more : List Mutation} :
    Along P store (changes ++ more) ↔ Along P store changes ∧ Along P (changes.foldl apply store) more := by
  induction changes generalizing store with
  | nil => simp [Along]
  | cons change changes ih => simp only [List.cons_append, Along, ih, List.foldl_cons, and_assoc]

/-- A change is not refused. -/
def Fits (store : Store) : Mutation → Prop
  | .persist block _ => store.Takes block
  | .reorg _ => True

/-! ## The version -/

theorem version_apply (store : Store) (change : Mutation) :
    (store.apply change).version = if change.isReorg then store.version + 1 else store.version := by
  cases change with
  | persist block logs =>
    rw [apply_persist]
    split <;> rfl
  | reorg first => rfl

/-- The version counts the changes that drop blocks. -/
theorem version_foldl (changes : List Mutation) (store : Store) :
    (changes.foldl apply store).version = store.version + .ofNat (reorgs changes) := by
  induction changes generalizing store with
  | nil => simp [reorgs]
  | cons change changes ih =>
    rw [List.foldl_cons, ih, version_apply, reorgs, reorgs, List.countP_cons]
    cases change.isReorg with
    | false => simp
    | true => simp [UInt64.ofNat_add, UInt64.add_assoc, UInt64.add_comm 1]

/-- After fewer changes than there are versions the version is the same only if none dropped blocks. -/
theorem reorgs_eq_zero {changes : List Mutation} (h : (changes.foldl apply store).version = store.version)
    (hfew : reorgs changes < UInt64.size) : reorgs changes = 0 := by
  rw [version_foldl] at h
  have hzero : (UInt64.ofNat (reorgs changes)).toNat = 0 := by
    have := congrArg (fun v => (v - store.version).toNat) h
    simpa [UInt64.add_comm store.version] using this
  rwa [UInt64.toNat_ofNat_of_lt' hfew] at hzero

/-! ## Stored blocks -/

/-- The logs that the last of these changes to persist a block gave it. -/
def lastPersisted? (block : UInt64) : List Mutation → Option (List StoredLog)
  | [] => none
  | .persist number logs :: rest =>
    (lastPersisted? block rest).or (if number = block then some (sortLogs logs) else none)
  | .reorg _ :: rest => lastPersisted? block rest

theorem lastPersisted?_eq_none {changes : List Mutation} (h : ∀ logs, .persist block logs ∉ changes) :
    lastPersisted? block changes = none := by
  induction changes with
  | nil => rfl
  | cons change changes ih =>
    have ih := ih fun logs hin => h logs (List.mem_cons_of_mem _ hin)
    cases change with
    | persist number logs =>
      have hne : number ≠ block := by
        rintro rfl
        exact h logs (List.mem_cons_self ..)
      rw [lastPersisted?, ih, if_neg hne]
      rfl
    | reorg first => exact ih

/-- Changes that drop nothing keep every stored block. It has the logs that it was last given. -/
theorem getElem?_foldl {changes : List Mutation} (h : reorgs changes = 0)
    (hb : store.blocks[block]? = some logs) :
    (changes.foldl apply store).blocks[block]? =
      some ((lastPersisted? block (taken store changes)).getD logs) := by
  -- a later change that gives the block logs replaces what an earlier one gave it
  induction changes generalizing store logs with
  | nil => exact hb
  | cons change changes ih =>
    obtain ⟨hkind, hrest⟩ := reorgs_cons_eq_zero.1 h
    rw [List.foldl_cons, taken]
    by_cases href : store.refuses change = true
    · rw [if_pos href, apply_of_refuses href, ih hrest hb]
    rw [if_neg href]
    cases change with
    | reorg first => cases hkind
    | persist number new =>
      have htakes := Classical.not_not.1 (mt refuses_persist.2 href)
      rw [lastPersisted?]
      by_cases hn : number = block
      · subst hn
        rw [ih hrest (getElem?_persist_self htakes new), if_pos rfl]
        cases lastPersisted? number (taken (store.apply (.persist number new)) changes) <;> rfl
      · rw [ih hrest ((getElem?_persist_of_ne (Ne.symm hn)).trans hb), if_neg hn, Option.or_none]

/-- Where the version is the same before and after, each block that was stored still is. It has the same logs
unless a change persisted it and was not refused, and then those that the last of these gave it. -/
theorem getElem?_of_same_version {changes : List Mutation}
    (h : (changes.foldl apply store).version = store.version) (hfew : reorgs changes < UInt64.size)
    (hb : store.blocks[block]? = some logs) :
    (changes.foldl apply store).blocks[block]? =
        some ((lastPersisted? block (taken store changes)).getD logs) ∧
      ((∀ new, .persist block new ∉ taken store changes) →
        (changes.foldl apply store).blocks[block]? = some logs) := by
  have hkept := getElem?_foldl (reorgs_eq_zero h hfew) hb
  refine ⟨hkept, fun hnone => ?_⟩
  rw [hkept, lastPersisted?_eq_none hnone]
  rfl

/-- A stored log of a block with this hash. It tells nothing else but its index. -/
def sampleLog (hash : UInt8) (block index : UInt64) : StoredLog where
  blockNumber := block
  blockHash := Vector.replicate 32 hash
  transactionHash := Vector.replicate 32 0
  transactionIndex := 0
  logIndex := index
  address := Vector.replicate 20 0
  slots := Vector.replicate 4 none
  data := []

theorem sortLogs_singleton (log : StoredLog) : sortLogs [log] = [log] := List.mergeSort_singleton log

/-- Two blocks. -/
def sampleStore : Store := ⟨(Std.TreeMap.empty.insert 1 [sampleLog 1 1 0]).insert 2 [sampleLog 2 2 0], 0⟩

/-- The second block anew, twice, then one that leaves a gap, and the next one. -/
def sampleChanges : List Mutation :=
  [.persist 2 [sampleLog 3 2 0], .persist 2 [sampleLog 4 2 0], .persist 5 [], .persist 3 [sampleLog 5 3 0]]

/-- The block of the last number alone. -/
def lastStore : Store := ⟨Std.TreeMap.empty.insert 0xffffffffffffffff [sampleLog 1 0xffffffffffffffff 0], 0⟩

/-- Beside what is kept and what is given anew, a block of the last number is not taken again. -/
theorem getElem?_of_same_version_sample :
    (sampleChanges.foldl apply sampleStore).version = sampleStore.version ∧
      (sampleChanges.foldl apply sampleStore).blocks[(1 : UInt64)]? = some [sampleLog 1 1 0] ∧
      (sampleChanges.foldl apply sampleStore).blocks[(2 : UInt64)]? = some [sampleLog 4 2 0] ∧
      ([.persist 0xffffffffffffffff []].foldl apply lastStore).blocks[(0xffffffffffffffff : UInt64)]? =
        some [sampleLog 1 0xffffffffffffffff 0] := by
  have hversion : (sampleChanges.foldl apply sampleStore).version = sampleStore.version :=
    (version_foldl _ _).trans (UInt64.add_zero _)
  have htaken : taken sampleStore sampleChanges =
    [.persist 2 [sampleLog 3 2 0], .persist 2 [sampleLog 4 2 0], .persist 3 [sampleLog 5 3 0]] := by
    simp only [sampleChanges, taken_persist, apply_eq]
    decide +kernel
  have hone : sampleStore.blocks[(1 : UInt64)]? = some [sampleLog 1 1 0] := by
    simp only [sampleStore, OrderedMap.getElem?_insert]
    rfl
  have htwo : sampleStore.blocks[(2 : UInt64)]? = some [sampleLog 2 2 0] := by
    simp only [sampleStore, OrderedMap.getElem?_insert]
    rfl
  have hend : lastStore.blocks[(0xffffffffffffffff : UInt64)]? = some [sampleLog 1 0xffffffffffffffff 0] := by
    simp only [lastStore, OrderedMap.getElem?_insert]
    rfl
  refine ⟨hversion, (getElem?_of_same_version hversion (by decide) hone).2 ?_, ?_, ?_⟩
  · simp [htaken]
  · have hlast : lastPersisted? 2 (taken sampleStore sampleChanges) = some (sortLogs [sampleLog 4 2 0]) := by
      rw [htaken]
      rfl
    rw [(getElem?_of_same_version hversion (by decide) htwo).1, hlast, sortLogs_singleton]
    rfl
  · have hrefused : taken lastStore [.persist 0xffffffffffffffff []] = [] := by
      rw [taken_persist]
      decide +kernel
    refine (getElem?_of_same_version ((version_foldl _ _).trans (UInt64.add_zero _)) (by decide) hend).2 ?_
    simp [hrefused]

/-- The same version does not mean the same logs: a store takes a block anew and leaves the version. -/
theorem rewritten_at_same_version :
    ¬ ∀ earlier changes : List Mutation, Along Fits empty (earlier ++ changes) →
      reorgs (earlier ++ changes) < UInt64.size →
      (changes.foldl apply (earlier.foldl apply empty)).version = (earlier.foldl apply empty).version →
      ∀ (block : UInt64) (logs : List StoredLog), (earlier.foldl apply empty).blocks[block]? = some logs →
        (changes.foldl apply (earlier.foldl apply empty)).blocks[block]? = some logs := by
  intro h
  have hfirst : empty.Takes 1 := takes_empty 1
  have hagain : (empty.apply (.persist 1 [sampleLog 1 1 0])).Takes 1 := by
    intro top htop
    rcases mem_persist.1 (highest?_eq_some_iff.1 htop).1 with hin | ⟨rfl, -⟩
    · cases Std.TreeMap.not_mem_emptyc hin
    · decide
  have hnew := getElem?_persist_self hagain [sampleLog 2 1 0]
  -- neither change dropped a block
  have hkept := h [.persist 1 [sampleLog 1 1 0]] [.persist 1 [sampleLog 2 1 0]] ⟨hfirst, hagain, trivial⟩
    (by decide) ((version_foldl _ _).trans (UInt64.add_zero _)) 1 _ (getElem?_persist_self hfirst _)
  rw [sortLogs_singleton] at hkept hnew
  exact absurd (hkept.symm.trans hnew) (by decide)

end Store

end LogGateway
