/-
Splitting a filter at the highest stored block: blocks up to it are asked of the store, later ones of the
node. A single block is never split, and a range is only if both its ends are numbers.
-/
import LogGateway.Chain.Filter

namespace LogGateway

/-- The part of a filter for the store and the part for the node. -/
structure Split where
  store : Option StoreFilter
  node : Option LogFilter
  deriving DecidableEq, Repr

namespace Split

/-- Everything is asked of the node. -/
def nodeOnly (filter : LogFilter) : Split := ⟨none, some filter⟩

/-- Everything is asked of the store. -/
def storeOnly (filter : StoreFilter) : Split := ⟨some filter, none⟩

/-- Whether anything is asked of the store. -/
def hitsStore (split : Split) : Bool := split.store.isSome

/-- Splits a filter for one block whose number is known. -/
def ofBlock (filter : LogFilter) (block highest : UInt64) : Split :=
  if highest < block then nodeOnly filter else storeOnly ⟨block, block, filter.criteria⟩

/-- Splits a filter between two numbers. -/
def ofNumbers (filter : LogFilter) (first last highest : UInt64) : Split :=
  if highest < first then nodeOnly filter
  else if last ≤ highest then storeOnly ⟨first, last, filter.criteria⟩
  else
    { store := some ⟨first, highest, filter.criteria⟩
      node := some (filter.withRange (.number (highest + 1)) (some (.number last))) }

/-- Splits a filter over a range. -/
def ofRange (filter : LogFilter) (highest : UInt64) : Split :=
  match filter.selection with
  | .range (some (.number first)) (some (.number last)) => ofNumbers filter first last highest
  | _ => nodeOnly filter

end Split

end LogGateway
