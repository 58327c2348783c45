/-
What logs a range of a chain has that meet a filter's criteria, and in which order. Criteria are met position
by position, and the stored form of a log with at most four topics loses nothing.
-/
import LogGateway.Chain.Filter

namespace LogGateway

/-! ## The stored form -/

/-- Slots in a row hold the first values of a list. -/
theorem untilMissing_ofFn {α : Type} (n : Nat) (as : List α) :
    untilMissing (List.ofFn fun i : Fin n => as[i.val]?) = as.take n := by
  induction n generalizing as with
  | zero => rfl
  | succ n ih =>
    rw [List.ofFn_succ]
    cases as with
    | nil => simp [untilMissing]
    | cons a as => simp [untilMissing, ih]

namespace StoredLog

theorem topics_ofLog_eq_take (log : Log) : (ofLog log).topics = log.topics.take 4 := by
  unfold topics ofLog
  rw [Vector.toList_ofFn, untilMissing_ofFn]

/-- Four slots hold up to four topics. -/
theorem topics_ofLog {log : Log} (h : log.topics.length ≤ 4) : (ofLog log).topics = log.topics := by
  rw [topics_ofLog_eq_take, List.take_of_length_le h]

/-- A log comes back without its topics after the fourth, and as one that was not removed. -/
theorem toLog_ofLog_eq (log : Log) :
    (ofLog log).toLog = { log with topics := log.topics.take 4, removed := false } := by
  unfold toLog
  rw [topics_ofLog_eq_take]
  rfl

theorem toLog_ofLog {log : Log} (h : log.topics.length ≤ 4) (hr : log.removed = false) :
    (ofLog log).toLog = log := by
  rw [toLog_ofLog_eq, List.take_of_length_le h, ← hr]

end StoredLog

/-! ## Criteria -/

/-- Each position at which a list asks for something has one of the topics of the list. -/
def TopicsMet (criteria : List TopicCriterion) (topics : List Hash) : Prop :=
  ∀ (i : Nat) (wanted : List Hash), criteria[i]? = some (some wanted) → wanted ≠ [] →
    ∃ topic, topics[i]? = some topic ∧ topic ∈ wanted

theorem topicsMet_cons {criterion : TopicCriterion} {criteria : List TopicCriterion} {topics : List Hash} :
    TopicsMet (criterion :: criteria) topics ↔
      (∀ wanted, criterion = some wanted → wanted ≠ [] → ∃ topic, topics[0]? = some topic ∧ topic ∈ wanted) ∧
        TopicsMet criteria topics.tail := by
  constructor
  · intro h
    refine ⟨fun wanted hw => h 0 wanted (by rw [List.getElem?_cons_zero, hw]), fun i wanted hw hne => ?_⟩
    rw [List.getElem?_tail]
    exact h (i + 1) wanted hw hne
  · rintro ⟨hfirst, hrest⟩ i wanted hw hne
    cases i with
    | zero => exact hfirst wanted (by simpa using hw) hne
    | succ i =>
      rw [← List.getElem?_tail]
      exact hrest i wanted hw hne

theorem topicsMatch_iff (criteria : List TopicCriterion) (topics : List Hash) :
    topicsMatch criteria topics = true ↔ TopicsMet criteria topics := by
  fun_induction topicsMatch criteria topics with
  | case1 => simp [TopicsMet]
  | case2 topics criteria ih => simp [topicsMet_cons, ih]
  | case3 topics criteria ih => simp [topicsMet_cons, ih]
  | case4 a as criteria => simp [topicsMet_cons]
  | case5 a as criteria topic topics ih => simp [topicsMet_cons, ih]

/-- A log meets criteria: an address that is asked for, if any is, and topics that are asked for. -/
def Criteria.Met (criteria : Criteria) (log : Log) : Prop :=
  (criteria.addresses = [] ∨ log.address ∈ criteria.addresses) ∧ TopicsMet criteria.topics log.topics

theorem Criteria.accept_iff (criteria : Criteria) (log : Log) :
    criteria.accept log.address log.topics = true ↔ criteria.Met log := by
  simp [Criteria.accept, Criteria.Met, topicsMatch_iff]

instance (criteria : Criteria) (log : Log) : Decidable (criteria.Met log) :=
  decidable_of_iff _ (criteria.accept_iff log)

end LogGateway
