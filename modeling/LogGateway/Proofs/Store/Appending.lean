/-
Appending to a log store: as long as blocks are persisted above the highest alone and none is dropped, the
blocks up to it stay as they are. So does what the store finds there, for that depends on these blocks alone.
-/
import LogGateway.Proofs.Store.Changes

namespace LogGateway.Store

variable {store other : Store} {top : UInt64}

/-- A persisted block lies above the highest. -/
def Above (store : Store) : Mutation → Prop
  | .persist block _ => ∀ top ∈ store.highest?, top < block
  | .reorg _ => True

theorem above_persist_iff {block : UInt64} {logs : List StoredLog} :
    store.Above (.persist block logs) ↔ store.blocks.keys.getLast?.all (· < block) = true := by
  rw [Above, highest?_eq_getLast?, Option.all_eq_true]
  simp only [Option.mem_def, decide_eq_true_eq]

/-- Two stores have the same blocks up to `top`, with the same logs. -/
def AgreeTo (top : UInt64) (store other : Store) : Prop :=
  ∀ block ≤ top, store.blocks[block]? = other.blocks[block]?

/-- Appended blocks lie above all blocks up to the highest. -/
theorem Along.agree {changes : List Mutation} (h : Along Above store changes) (hnone : reorgs changes = 0)
    {high : UInt64} (hhigh : store.highest? = some high) (htop : top ≤ high) :
    AgreeTo top (changes.foldl apply store) store := by
  induction changes generalizing store high with
  | nil => intro block _; rfl
  | cons change changes ih =>
    obtain ⟨hkind, hnone⟩ := reorgs_cons_eq_zero.1 hnone
    cases change with
    | reorg first => cases hkind
    | persist number logs =>
      obtain ⟨habove, hrest⟩ := h
      have hlt : high < number := habove high hhigh
      -- the highest block is still there, so that the new highest is not lower
      obtain ⟨high', hhigh', hle⟩ := exists_highest (mem_persist.2 (.inl (highest?_eq_some_iff.1 hhigh).1))
      have hagree := ih hrest hnone hhigh' (UInt64.le_trans htop hle)
      intro block hb
      have hne : block ≠ number := by
        rintro rfl
        exact UInt64.not_le.2 hlt (UInt64.le_trans hb htop)
      rw [List.foldl_cons, hagree block hb, getElem?_persist_of_ne hne]

/-- A query up to a block depends on the blocks up to it. -/
theorem AgreeTo.query_eq (h : AgreeTo top store other) {part : StoreFilter} (hle : part.last ≤ top) :
    store.query part = other.query part := by
  have hblocks := OrderedMap.toList_filter_congr (t := store.blocks) (u := other.blocks)
    (p := fun block => part.first ≤ block && block ≤ part.last) fun block hb => by
      simp only [Bool.and_eq_true, decide_eq_true_eq] at hb
      exact h block (UInt64.le_trans hb.2 hle)
  exact congrArg (fun blocks => (blocks.flatMap Prod.snd).filter part.accept) hblocks

end LogGateway.Store
