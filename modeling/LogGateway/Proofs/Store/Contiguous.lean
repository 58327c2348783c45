/-
Whether the stored blocks are one run of numbers. Reorganising never breaks the run. Persisting breaks it where
the block lies more than one below the lowest, which the store does not refuse. Main statement: there is no gap
after any of the changes exactly when none of them persisted a block that far below.
-/
import LogGateway.Proofs.Store.Changes

namespace LogGateway.Store

variable {store : Store} {block : UInt64} {logs : List StoredLog}

/-- Between two stored blocks every block is stored. -/
def Contiguous (store : Store) : Prop :=
  ∀ a b c, a ∈ store.blocks → c ∈ store.blocks → a ≤ b → b ≤ c → b ∈ store.blocks

def lowest? (store : Store) : Option UInt64 := store.blocks.minKey?

/-- A block that is persisted and taken lies at most one below the lowest. -/
def Adjoins (store : Store) : Mutation → Prop
  | .persist block _ => store.Takes block → ∀ low ∈ store.lowest?, low.toNat ≤ block.toNat + 1
  | .reorg _ => True

theorem lowest?_eq_some_iff {low : UInt64} :
    store.lowest? = some low ↔ low ∈ store.blocks ∧ ∀ block ∈ store.blocks, low ≤ block := by
  rw [lowest?, Std.TreeMap.minKey?_eq_some_iff_mem_and_forall]
  simp only [Std.isLE_compare]

theorem exists_lowest (h : block ∈ store.blocks) : ∃ low, store.lowest? = some low ∧ low ≤ block := by
  obtain ⟨low, hlow⟩ := Option.isSome_iff_exists.1 (Std.TreeMap.isSome_minKey?_of_mem h)
  exact ⟨low, hlow, (lowest?_eq_some_iff.1 hlow).2 block h⟩

/-! ## One change -/

theorem contiguous_empty : Contiguous empty := by
  intro a b c ha
  cases Std.TreeMap.not_mem_emptyc ha

theorem Contiguous.reorg (h : Contiguous store) (first : UInt64) :
    Contiguous (store.apply (.reorg first)) := by
  intro a b c ha hc hab hbc
  rw [mem_reorg] at ha hc ⊢
  exact ⟨h a b c ha.1 hc.1 hab hbc, UInt64.lt_of_le_of_lt hbc hc.2⟩

/-- A block at most one below the lowest continues the run, as the store takes none too far above. -/
theorem Contiguous.persist (h : Contiguous store) (hadj : store.Adjoins (.persist block logs)) :
    Contiguous (store.apply (.persist block logs)) := by
  intro a b c ha hc hab hbc
  rw [mem_persist] at ha hc ⊢
  rcases ha with ha | ⟨rfl, htakes⟩
  · rcases hc with hc | ⟨rfl, htakes⟩
    · exact .inl (h a b c ha hc hab hbc)
    · rcases UInt64.lt_or_eq_of_le hbc with hlt | rfl
      · -- what lies below the new block is not above the highest
        obtain ⟨top, htop, -⟩ := exists_highest ha
        have := htakes.toNat_le htop
        rw [UInt64.lt_iff_toNat_lt] at hlt
        exact .inl (h a b top ha (highest?_eq_some_iff.1 htop).1 hab (UInt64.le_iff_toNat_le.2 (by omega)))
      · exact .inr ⟨rfl, htakes⟩
  · rcases UInt64.lt_or_eq_of_le hab with hlt | rfl
    · rcases hc with hc | ⟨rfl, -⟩
      · -- what lies above the new block is not below the lowest
        obtain ⟨low, hlow, -⟩ := exists_lowest hc
        have := hadj htakes low hlow
        rw [UInt64.lt_iff_toNat_lt] at hlt
        exact .inl (h low b c (lowest?_eq_some_iff.1 hlow).1 hc (UInt64.le_iff_toNat_le.2 (by omega)) hbc)
      · exact absurd hbc (UInt64.not_le.2 hlt)
    · exact .inr ⟨rfl, htakes⟩

/-- A block further below leaves a gap above it. -/
theorem Contiguous.adjoins (h : Contiguous (store.apply (.persist block logs))) :
    store.Adjoins (.persist block logs) := by
  intro htakes low hlow
  obtain ⟨hmem, hleast⟩ := lowest?_eq_some_iff.1 hlow
  refine Nat.le_of_not_lt fun hfar => ?_
  have hnext : (block + 1).toNat = block.toNat + 1 := by
    have := low.toNat_lt
    rw [UInt64.toNat_add, UInt64.toNat_one]; omega
  -- the number after the new block is below the lowest, and so would be new as well
  have hin : block + 1 ∈ (store.apply (.persist block logs)).blocks :=
    h block (block + 1) low (mem_persist.2 (.inr ⟨rfl, htakes⟩)) (mem_persist.2 (.inl hmem))
      (UInt64.le_iff_toNat_le.2 (by omega)) (UInt64.le_iff_toNat_le.2 (by omega))
  rcases mem_persist.1 hin with hin | ⟨heq, -⟩
  · have := UInt64.le_iff_toNat_le.1 (hleast _ hin)
    omega
  · have := congrArg UInt64.toNat heq
    omega

theorem Contiguous.apply_iff (h : Contiguous store) (change : Mutation) :
    Contiguous (store.apply change) ↔ store.Adjoins change := by
  cases change with
  | persist block logs => exact ⟨Contiguous.adjoins, h.persist⟩
  | reorg first => exact ⟨fun _ => trivial, fun _ => h.reorg first⟩

/-! ## All changes -/

theorem Contiguous.throughout_iff {changes : List Mutation} (h : Contiguous store) :
    (∀ done, done <+: changes → Contiguous (done.foldl apply store)) ↔ Along Adjoins store changes := by
  induction changes generalizing store with
  | nil =>
    refine ⟨fun _ => trivial, fun _ done hd => ?_⟩
    rw [List.prefix_nil.1 hd]
    exact h
  | cons change changes ih =>
    constructor
    · intro hall
      have hfirst : Contiguous (store.apply change) :=
        hall [change] ((List.prefix_cons_inj change).2 List.nil_prefix)
      refine ⟨(h.apply_iff change).1 hfirst, (ih hfirst).1 fun done hd => ?_⟩
      exact hall (change :: done) ((List.prefix_cons_inj change).2 hd)
    · rintro ⟨hadj, hrest⟩ done hd
      rcases List.prefix_cons_iff.1 hd with rfl | ⟨rest, rfl, hd'⟩
      · exact h
      · exact (ih ((h.apply_iff change).2 hadj)).2 hrest rest hd'

/-- From an empty store on the stored blocks have no gap after any of the changes exactly when each block that
was persisted, and not refused, lay at most one below the lowest. -/
theorem contiguous_throughout_iff_adjoins (changes : List Mutation) :
    (∀ done, done <+: changes → Contiguous (done.foldl apply empty)) ↔ Along Adjoins empty changes :=
  contiguous_empty.throughout_iff

/-- A block far below the lowest is taken, and there is a gap. -/
theorem gap_below_lowest :
    ¬ ∀ changes : List Mutation, Along Fits empty changes →
      Along (fun store change => change.isReorg = false → 0xffffffffffffffff ∉ store.blocks) empty changes →
      Contiguous (changes.foldl apply empty) := by
  intro h
  have hnone : ∀ b, b ∉ empty.blocks := fun b => Std.TreeMap.not_mem_emptyc
  have hten : ∀ b, b ∈ (empty.apply (.persist 10 [])).blocks ↔ b = 10 := by
    intro b
    simp only [mem_persist, hnone, takes_empty, and_true, false_or]
  have htakes : (empty.apply (.persist 10 [])).Takes 1 := by
    intro top htop
    rw [(hten top).1 (highest?_eq_some_iff.1 htop).1]
    decide
  have hgap := h [.persist 10 [], .persist 1 []] ⟨takes_empty 10, htakes, trivial⟩
    ⟨fun _ => hnone _, fun _ hin => absurd ((hten _).1 hin) (by decide), trivial⟩
  have hfive := hgap 1 5 10 (mem_persist.2 (.inr ⟨rfl, htakes⟩)) (mem_persist.2 (.inl ((hten 10).2 rfl)))
    (by decide) (by decide)
  rcases mem_persist.1 hfive with hin | ⟨heq, -⟩
  · exact absurd ((hten 5).1 hin) (by decide)
  · exact absurd heq (by decide)

end LogGateway.Store
