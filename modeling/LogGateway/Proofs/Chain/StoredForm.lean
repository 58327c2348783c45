/-
What is lost when a log goes to its stored form and back. Main statement: on the way through the store a log loses its
topics after the fourth and its mark of removal and nothing else, and a stored form loses what stands behind its first
empty slot and nothing else. Going that way a second time loses nothing more.
-/
import LogGateway.Proofs.Chain.Matching

namespace LogGateway

/-! ## Values before a missing one -/

/-- A value is kept as long as none before it is missing. -/
theorem getElem?_untilMissing {α : Type} (slots : List (Option α)) (i : Nat) :
    (untilMissing slots)[i]? = if ∀ slot ∈ slots.take i, slot ≠ none then slots[i]?.join else none := by
  induction slots generalizing i with
  | nil => simp [untilMissing]
  | cons slot rest ih =>
    cases slot with
    | none => cases i <;> simp [untilMissing]
    | some a =>
      cases i with
      | zero => simp [untilMissing]
      | succ i => simp [untilMissing, ih]

theorem length_untilMissing_le {α : Type} (slots : List (Option α)) : (untilMissing slots).length ≤ slots.length := by
  fun_induction untilMissing slots with
  | case1 a rest ih => simpa using ih
  | case2 => simp

namespace StoredLog

variable {slots : Vector (Option Hash) 4}

/-! ## Slots -/

/-- No slot is filled behind an empty one. -/
def Packed (slots : Vector (Option Hash) 4) : Prop :=
  ∀ i j : Fin 4, i < j → slots[i] = none → slots[j] = none

/-- The slots as they are up to the first empty one, and all empty behind it. -/
def cleared (slots : Vector (Option Hash) 4) : Vector (Option Hash) 4 :=
  Vector.ofFn fun j => if ∀ i < j, slots[i] ≠ none then slots[j] else none

theorem getElem_cleared (slots : Vector (Option Hash) 4) (j : Fin 4) :
    (cleared slots)[j] = if ∀ i < j, slots[i] ≠ none then slots[j] else none := by
  simp [cleared]

example (a b : Hash) : cleared #v[some a, none, some b, none] = #v[some a, none, none, none] := rfl

/-- Clearing leaves slots as they are exactly if there is nothing to clear. -/
theorem cleared_eq_self_iff : cleared slots = slots ↔ Packed slots := by
  constructor
  · intro h i j hij hnone
    rw [← h, getElem_cleared, if_neg fun hfilled => hfilled i hij hnone]
  · intro h
    refine Vector.ext fun j hj => ?_
    have hslot := getElem_cleared slots ⟨j, hj⟩
    by_cases hfilled : ∀ i < (⟨j, hj⟩ : Fin 4), slots[i] ≠ none
    · exact hslot.trans (if_pos hfilled)
    · -- a slot before is empty, so that this one is empty already
      simp only [Classical.not_forall, ne_eq, Classical.not_not] at hfilled
      obtain ⟨i, hij, hnone⟩ := hfilled
      rw [if_neg fun hfilled => hfilled i hij hnone] at hslot
      exact hslot.trans (h i ⟨j, hj⟩ hij hnone).symm

/-- The topics are read off the slots up to the first empty one. -/
theorem getElem?_topics (stored : StoredLog) (j : Fin 4) :
    stored.topics[j.val]? = (cleared stored.slots)[j] := by
  have hbefore : (∀ slot ∈ stored.slots.toList.take j, slot ≠ none) ↔ ∀ i < j, stored.slots[i] ≠ none := by
    constructor
    · intro h i hij
      exact h _ (List.mem_take_iff_getElem.2 ⟨i, by simp; omega, by simp⟩)
    · rintro h slot hslot
      obtain ⟨i, hi, rfl⟩ := List.mem_take_iff_getElem.1 hslot
      rw [Vector.length_toList, Nat.lt_min] at hi
      exact h ⟨i, hi.2⟩ hi.1
  rw [topics, getElem?_untilMissing, getElem_cleared]
  simp only [hbefore]
  congr 1
  simp

theorem length_topics_le (stored : StoredLog) : stored.topics.length ≤ 4 := by
  simpa [topics] using length_untilMissing_le stored.slots.toList

/-! ## Through the store and back -/

/-- A stored form comes back without what stands behind its first empty slot. -/
theorem ofLog_toLog_eq (stored : StoredLog) :
    ofLog stored.toLog = { stored with slots := cleared stored.slots } := by
  have hslots : (Vector.ofFn fun j : Fin 4 => stored.topics[j.val]?) = cleared stored.slots := by
    refine Vector.ext fun j hj => ?_
    rw [Vector.getElem_ofFn]
    exact stored.getElem?_topics ⟨j, hj⟩
  unfold ofLog toLog
  rw [← hslots]

/-- What a stored form gives back has lost all that it can lose. -/
theorem toLog_ofLog_toLog (stored : StoredLog) : (ofLog stored.toLog).toLog = stored.toLog :=
  toLog_ofLog stored.length_topics_le rfl

/-- A log that was stored comes back without its topics after the fourth and as not removed, so it comes back as it was
exactly if it has at most four topics and was not removed. A stored form that was given back is stored again without
what stands behind its first empty slot, so it is stored as it was exactly if nothing does. Either way, doing so a
second time changes nothing more. -/
theorem round_trips :
    (∀ log : Log, (ofLog log).toLog = { log with topics := log.topics.take 4, removed := false } ∧
      ((ofLog log).toLog = log ↔ log.topics.length ≤ 4 ∧ log.removed = false) ∧
      (ofLog (ofLog log).toLog).toLog = (ofLog log).toLog) ∧
    ∀ stored : StoredLog, ofLog stored.toLog = { stored with slots := cleared stored.slots } ∧
      (ofLog stored.toLog = stored ↔ Packed stored.slots) ∧
      ofLog (ofLog stored.toLog).toLog = ofLog stored.toLog := by
  constructor
  · intro log
    refine ⟨toLog_ofLog_eq log, ?_, toLog_ofLog_toLog (ofLog log)⟩
    constructor
    · intro h
      have hcut := toLog_ofLog_eq log
      rw [h] at hcut
      refine ⟨?_, congrArg Log.removed hcut⟩
      have htopics : log.topics = log.topics.take 4 := congrArg Log.topics hcut
      rw [htopics]
      exact List.length_take_le 4 log.topics
    · rintro ⟨hfour, hkept⟩
      exact toLog_ofLog hfour hkept
  · intro stored
    refine ⟨ofLog_toLog_eq stored, ?_, by rw [toLog_ofLog_toLog]⟩
    rw [ofLog_toLog_eq, ← cleared_eq_self_iff]
    constructor
    · intro h
      exact congrArg slots h
    · intro h
      rw [h]

end StoredLog

end LogGateway
