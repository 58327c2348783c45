/-
Splitting a filter at the highest stored block. Main statement: the blocks of a range between two numbers are parted
there, each asked of the store or of the node and none of both; a filter without two numbers is left whole to the
node, and a single block is asked of one of them.
-/
import LogGateway.Chain.Split

namespace LogGateway

/-- The numbers of the blocks from `first` to `last`, in their order. -/
def blockNumbers (first last : UInt64) : List UInt64 :=
  (List.range' first.toNat (last.toNat + 1 - first.toNat)).map UInt64.ofNat

/-- The blocks of a filter of the store. -/
def StoreFilter.blocks (part : StoreFilter) : List UInt64 := blockNumbers part.first part.last

/-- The blocks of a filter between two numbers. -/
def LogFilter.blocks? (filter : LogFilter) : Option (List UInt64) :=
  match filter.selection with
  | .range (some (.number first)) (some (.number last)) => some (blockNumbers first last)
  | _ => none

/-! ## Ranges of numbers -/

section Numbers

variable {first mid next last block : UInt64}

theorem mem_blockNumbers : block ∈ blockNumbers first last ↔ first ≤ block ∧ block ≤ last := by
  rw [blockNumbers, List.mem_map, UInt64.le_iff_toNat_le, UInt64.le_iff_toNat_le]
  constructor
  · rintro ⟨n, hn, rfl⟩
    rw [List.mem_range'_1] at hn
    have := last.toNat_lt
    rw [UInt64.toNat_ofNat_of_lt' (show _ < 18446744073709551616 by omega)]
    omega
  · intro h
    exact ⟨block.toNat, List.mem_range'_1.2 (by omega), UInt64.ofNat_toNat⟩

theorem blockNumbers_self : blockNumbers block block = [block] := by
  rw [blockNumbers, Nat.add_sub_cancel_left, List.range'_one, List.map_singleton, UInt64.ofNat_toNat]

theorem blockNumbers_of_lt (h : last < first) : blockNumbers first last = [] := by
  rw [UInt64.lt_iff_toNat_lt] at h
  rw [blockNumbers, Nat.sub_eq_zero_of_le h]
  rfl

/-- The blocks up to one and those from the next one on. -/
theorem blockNumbers_append (h : first ≤ mid) (hnext : next.toNat = mid.toNat + 1) (h' : next ≤ last) :
    blockNumbers first mid ++ blockNumbers next last = blockNumbers first last := by
  rw [UInt64.le_iff_toNat_le] at h h'
  have hcount : last.toNat + 1 - first.toNat =
      (mid.toNat + 1 - first.toNat) + (last.toNat + 1 - next.toNat) := by omega
  have hstart : first.toNat + (mid.toNat + 1 - first.toNat) = next.toNat := by omega
  rw [blockNumbers, blockNumbers, blockNumbers, hcount, ← List.range'_append_1, List.map_append, hstart]

end Numbers

namespace Split

variable {filter : LogFilter} {first last highest : UInt64} {split : Split}

/-- The blocks that are asked of the store. -/
def storeBlocks (split : Split) : List UInt64 := split.store.elim [] StoreFilter.blocks

/-- The blocks that are asked of the node, if it is asked for numbers alone. -/
def nodeBlocks? (split : Split) : Option (List UInt64) := split.node.elim (some []) LogFilter.blocks?

/-! ## Between two numbers -/

/-- All that splitting between two numbers can do. -/
inductive Divides (filter : LogFilter) (first last highest : UInt64) : Split → Prop
  | above (h : highest < first) : Divides filter first last highest (nodeOnly filter)
  | below (h : first ≤ highest) (h' : last ≤ highest) :
      Divides filter first last highest (storeOnly ⟨first, last, filter.criteria⟩)
  /-- The block after the highest is the next number, as there is one in the range. -/
  | across (h : first ≤ highest) {next : UInt64} (hnext : next.toNat = highest.toNat + 1) (h' : next ≤ last) :
      Divides filter first last highest
        ⟨some ⟨first, highest, filter.criteria⟩, some (filter.withRange (.number next) (some (.number last)))⟩

theorem ofNumbers_divides (filter : LogFilter) (first last highest : UInt64) :
    Divides filter first last highest (ofNumbers filter first last highest) := by
  unfold ofNumbers
  by_cases habove : highest < first
  · rw [if_pos habove]
    exact .above habove
  have hfirst := UInt64.not_lt.1 habove
  rw [if_neg habove]
  by_cases hbelow : last ≤ highest
  · rw [if_pos hbelow]
    exact .below hfirst hbelow
  rw [if_neg hbelow]
  have hlast := UInt64.lt_iff_toNat_lt.1 (UInt64.not_le.1 hbelow)
  have hnext : (highest + 1).toNat = highest.toNat + 1 := by
    have := last.toNat_lt
    rw [UInt64.toNat_add, UInt64.toNat_one]
    omega
  exact .across hfirst hnext (UInt64.le_iff_toNat_le.2 (hnext ▸ hlast))

/-- How the blocks from `first` to `last` are parted at `highest`: those that the store and the node are asked for. -/
structure Parts (filter : LogFilter) (first last highest : UInt64) (split : Split) (stored live : List UInt64) :
    Prop where
  ofStore : split.storeBlocks = stored
  ofNode : split.nodeBlocks? = some live
  /-- One after the other they are all blocks of the range, each once. -/
  joined : stored ++ live = blockNumbers first last
  below : ∀ block ∈ stored, block ≤ highest
  above : ∀ block ∈ live, highest < block
  hits : split.hitsStore = true ↔ first ≤ highest
  storeCriteria : ∀ part ∈ split.store, part.criteria = filter.criteria
  nodeCriteria : ∀ part ∈ split.node, part.criteria = filter.criteria
  /-- Next to the store the node is asked from the block after the highest on, whose number does not wrap around. -/
  next : split.hitsStore = true → ∀ part ∈ split.node, ∃ next : UInt64, next.toNat = highest.toNat + 1 ∧
    part = filter.withRange (.number next) (some (.number last))

theorem Divides.parts (h : Divides filter first last highest split)
    (hs : filter.selection = .range (some (.number first)) (some (.number last))) :
    ∃ stored live, Parts filter first last highest split stored live := by
  cases h with
  | above h =>
    have hwhole : filter.blocks? = some (blockNumbers first last) := by
      rw [LogFilter.blocks?, hs]
    refine ⟨[], blockNumbers first last, rfl, hwhole, rfl, by simp, ?_, ?_, by simp [nodeOnly], ?_, ?_⟩
    · intro block hb
      exact UInt64.lt_of_lt_of_le h (mem_blockNumbers.1 hb).1
    · exact iff_of_false Bool.false_ne_true (UInt64.not_le.2 h)
    · rintro _ ⟨rfl⟩
      rfl
    · rintro ⟨⟩
  | below h h' =>
    refine ⟨blockNumbers first last, [], rfl, rfl, List.append_nil _, ?_, by simp, iff_of_true rfl h, ?_,
      by simp [storeOnly], by simp [storeOnly]⟩
    · intro block hb
      exact UInt64.le_trans (mem_blockNumbers.1 hb).2 h'
    · rintro _ ⟨rfl⟩
      rfl
  | @across h next hnext h' =>
    refine ⟨blockNumbers first highest, blockNumbers next last, rfl, rfl, blockNumbers_append h hnext h', ?_, ?_,
      iff_of_true rfl h, ?_, ?_, ?_⟩
    · intro block hb
      exact (mem_blockNumbers.1 hb).2
    · intro block hb
      have := UInt64.le_iff_toNat_le.1 (mem_blockNumbers.1 hb).1
      rw [UInt64.lt_iff_toNat_lt]
      omega
    · rintro _ ⟨rfl⟩
      rfl
    · rintro _ ⟨rfl⟩
      rfl
    · rintro - _ ⟨rfl⟩
      exact ⟨next, hnext, rfl⟩

/-! ## Any filter -/

theorem ofRange_of_numbers (hs : filter.selection = .range (some (.number first)) (some (.number last))) :
    ofRange filter highest = ofNumbers filter first last highest := by
  rw [ofRange, hs]

/-- A named end or an open one, and the block of a hash, are not split. -/
theorem ofRange_of_ne
    (hs : ∀ first last, filter.selection ≠ .range (some (.number first)) (some (.number last))) :
    ofRange filter highest = nodeOnly filter := by
  unfold ofRange
  split
  · exact absurd ‹_› (hs _ _)
  · rfl

/-- A filter between two numbers is parted at the highest stored block. The blocks of the range that are not above
it are asked of the store, the others of the node: no block of both, and all of one or the other. Any other filter
is asked of the node as it is. A filter for a single block is asked of the store exactly if the block is not above
the highest stored one, and else of the node as it is. -/
theorem ofRange_parts (filter : LogFilter) (highest : UInt64) :
    (∀ first last, filter.selection = .range (some (.number first)) (some (.number last)) →
      ∃ stored live, Parts filter first last highest (ofRange filter highest) stored live ∧
        (∀ block, block ∈ stored ∨ block ∈ live ↔ first ≤ block ∧ block ≤ last) ∧
        (∀ block ∈ stored, block ∉ live) ∧ (last < first → stored = [] ∧ live = [])) ∧
    ((∀ first last, filter.selection ≠ .range (some (.number first)) (some (.number last))) →
      ofRange filter highest = ⟨none, some filter⟩) ∧
    ∀ number, ((ofBlock filter number highest).hitsStore = true ↔ number ≤ highest) ∧
      ((ofBlock filter number highest).node = none ↔ number ≤ highest) ∧
      (∀ part ∈ (ofBlock filter number highest).store, part.blocks = [number] ∧ part.criteria = filter.criteria) ∧
      ∀ part ∈ (ofBlock filter number highest).node, part = filter := by
  refine ⟨fun first last hs => ?_, ofRange_of_ne, fun number => ?_⟩
  · obtain ⟨stored, live, parts⟩ := (ofNumbers_divides filter first last highest).parts hs
    refine ⟨stored, live, ofRange_of_numbers hs ▸ parts, fun block => ?_, fun block hb hb' => ?_, fun h => ?_⟩
    · rw [← List.mem_append, parts.joined, mem_blockNumbers]
    · exact UInt64.not_lt.2 (parts.below block hb) (parts.above block hb')
    · exact List.append_eq_nil_iff.1 (parts.joined.trans (blockNumbers_of_lt h))
  · unfold ofBlock
    by_cases habove : highest < number
    · have hnot := UInt64.not_le.2 habove
      rw [if_pos habove]
      simp [nodeOnly, hitsStore, hnot]
    · have hle := UInt64.not_lt.1 habove
      rw [if_neg habove]
      simp [storeOnly, hitsStore, hle, StoreFilter.blocks, blockNumbers_self]

/-- The whole chain, with a store that ends just below its last possible block, and a filter with an open end. -/
theorem ofRange_parts_ends :
    let whole : LogFilter := ⟨.range (some (.number 0)) (some (.number 0xffffffffffffffff)), ⟨[], []⟩⟩
    let onward : LogFilter := ⟨.range (some (.number 0)) none, ⟨[], []⟩⟩
    (∃ stored live, Parts whole 0 0xffffffffffffffff 0xfffffffffffffffe (ofRange whole 0xfffffffffffffffe) stored live ∧
      0xfffffffffffffffe ∈ stored ∧ 0xffffffffffffffff ∈ live) ∧
    ofRange onward 0xfffffffffffffffe = ⟨none, some onward⟩ := by
  intro whole onward
  obtain ⟨stored, live, parts, hall, -, -⟩ := (ofRange_parts whole 0xfffffffffffffffe).1 0 0xffffffffffffffff rfl
  refine ⟨⟨stored, live, parts, ?_, ?_⟩, ?_⟩
  · refine ((hall 0xfffffffffffffffe).2 (by decide)).resolve_right fun hin => ?_
    exact absurd (parts.above _ hin) (by decide)
  · refine ((hall 0xffffffffffffffff).2 (by decide)).resolve_left fun hin => ?_
    exact absurd (parts.below _ hin) (by decide)
  · exact (ofRange_parts onward 0xfffffffffffffffe).2.1 (by simp [onward])

end Split

end LogGateway
