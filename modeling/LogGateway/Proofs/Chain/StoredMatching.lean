/-
What a filter of the store makes of a stored log. Main statement: it matches a stored log exactly if the log that
clients get for it lies in the range and meets the criteria, where a topic behind an empty slot counts as missing. So a
log with at most four topics is matched by its stored form as by itself, and criteria that ask nothing may be added.
-/
import LogGateway.Proofs.Chain.StoredForm

namespace LogGateway

/-! ## Criteria that ask nothing -/

namespace TopicCriterion

/-- Nothing is asked of the topic, in one of the two ways to say so. -/
def Idle (criterion : TopicCriterion) : Prop := criterion = none ∨ criterion = some []

theorem idle_iff {criterion : TopicCriterion} :
    criterion.Idle ↔ ∀ wanted, criterion = some wanted → wanted = [] := by
  cases criterion with
  | none => simp [Idle]
  | some wanted => simp [Idle]

end TopicCriterion

section

variable {criteria more : List TopicCriterion} {topics : List Hash}

theorem topicsMet_of_idle (h : ∀ criterion ∈ criteria, criterion.Idle) : TopicsMet criteria topics := by
  intro i wanted hw hne
  have hidle := h _ (List.mem_of_getElem? hw)
  exact absurd (TopicCriterion.idle_iff.1 hidle wanted rfl) hne

/-- Criteria behind others are about the topics behind those of the others. -/
theorem topicsMet_append :
    TopicsMet (criteria ++ more) topics ↔ TopicsMet criteria topics ∧ TopicsMet more (topics.drop criteria.length) := by
  induction criteria generalizing topics with
  | nil => simp [TopicsMet]
  | cons criterion criteria ih =>
    rw [List.cons_append, topicsMet_cons, topicsMet_cons, ih, and_assoc, List.drop_tail, List.length_cons]

theorem topicsMet_append_idle (h : ∀ criterion ∈ more, criterion.Idle) :
    TopicsMet (criteria ++ more) topics ↔ TopicsMet criteria topics := by
  rw [topicsMet_append]
  exact and_iff_left (topicsMet_of_idle h)

/-- The first topics meet criteria that all of them meet, unless something is asked of the topics that were dropped. -/
theorem topicsMet_take (n : Nat) :
    TopicsMet criteria (topics.take n) ↔ TopicsMet criteria topics ∧ ∀ criterion ∈ criteria.drop n, criterion.Idle := by
  constructor
  · intro h
    refine ⟨fun i wanted hw hne => ?_, fun criterion hin => TopicCriterion.idle_iff.2 fun wanted hsome => ?_⟩
    · obtain ⟨topic, htopic, hwanted⟩ := h i wanted hw hne
      rw [List.getElem?_take] at htopic
      split at htopic
      · exact ⟨topic, htopic, hwanted⟩
      · cases htopic
    · obtain ⟨j, hj⟩ := List.mem_iff_getElem?.1 hin
      rw [List.getElem?_drop, hsome] at hj
      refine Classical.byContradiction fun hne => ?_
      obtain ⟨topic, htopic, -⟩ := h (n + j) wanted hj hne
      rw [List.getElem?_take_eq_none (Nat.le_add_right n j)] at htopic
      cases htopic
  · rintro ⟨h, hidle⟩ i wanted hw hne
    rcases Nat.lt_or_ge i n with hlt | hge
    · rw [List.getElem?_take_of_lt hlt]
      exact h i wanted hw hne
    · have hdropped : criteria[n + (i - n)]? = some (some wanted) := by rwa [Nat.add_sub_cancel' hge]
      rw [← List.getElem?_drop] at hdropped
      exact absurd (TopicCriterion.idle_iff.1 (hidle _ (List.mem_of_getElem? hdropped)) wanted rfl) hne

end

/-! ## Slots -/

namespace StoredLog

/-- What is asked of a topic is asked of the slot at its place, up to which no slot may be empty. -/
theorem topicsMet_topics (stored : StoredLog) (criteria : List TopicCriterion) :
    TopicsMet criteria stored.topics ↔
      ∀ (i : Nat) (wanted : List Hash), criteria[i]? = some (some wanted) → wanted ≠ [] →
        ∃ j : Fin 4, j.val = i ∧ (∀ k < j, stored.slots.get k ≠ none) ∧
          ∃ topic ∈ wanted, stored.slots.get j = some topic := by
  refine forall_congr' fun i => forall_congr' fun wanted => imp_congr_right fun _ => imp_congr_right fun _ => ?_
  constructor
  · rintro ⟨topic, htopic, hwanted⟩
    have hi : i < 4 := by
      have hlength := stored.length_topics_le
      have := (List.getElem?_eq_some_iff.1 htopic).1
      omega
    have hslot := (stored.getElem?_topics ⟨i, hi⟩).symm.trans htopic
    rw [getElem_cleared] at hslot
    split at hslot
    · rename_i hfilled
      exact ⟨⟨i, hi⟩, rfl, hfilled, topic, hwanted, hslot⟩
    · cases hslot
  · rintro ⟨j, rfl, hfilled, topic, hwanted, hslot⟩
    refine ⟨topic, ?_, hwanted⟩
    rw [getElem?_topics, getElem_cleared]
    exact (if_pos hfilled).trans hslot

end StoredLog

/-! ## Matching -/

namespace StoreFilter

/-- A log of a block in the filter's range that meets its criteria. -/
structure Met (filter : StoreFilter) (log : Log) : Prop where
  first : filter.first ≤ log.blockNumber
  last : log.blockNumber ≤ filter.last
  criteria : filter.criteria.Met log

variable {filter : StoreFilter} {log : Log}

theorem met_iff : filter.Met log ↔
    filter.first ≤ log.blockNumber ∧ log.blockNumber ≤ filter.last ∧ filter.criteria.Met log :=
  ⟨fun h => ⟨h.first, h.last, h.criteria⟩, fun ⟨first, last, criteria⟩ => ⟨first, last, criteria⟩⟩

instance (filter : StoreFilter) (log : Log) : Decidable (filter.Met log) := decidable_of_iff _ met_iff.symm

theorem accept_iff_met (filter : StoreFilter) (stored : StoredLog) :
    filter.accept stored = true ↔ filter.Met stored.toLog := by
  have hcriteria := filter.criteria.accept_iff stored.toLog
  rw [accept, met_iff, ← hcriteria, Bool.and_eq_true, Bool.and_eq_true, decide_eq_true_iff, decide_eq_true_iff,
    and_assoc]
  rfl

/-- The stored form of a log lacks the topics after the fourth. -/
theorem met_toLog_ofLog : filter.Met (StoredLog.ofLog log).toLog ↔
    filter.Met log ∧ ∀ criterion ∈ filter.criteria.topics.drop 4, criterion.Idle := by
  have htopics : TopicsMet filter.criteria.topics (log.topics.take 4) ↔ _ := topicsMet_take 4
  rw [StoredLog.toLog_ofLog_eq, met_iff, met_iff, Criteria.Met, Criteria.Met, htopics, and_assoc, and_assoc, and_assoc]

/-- No topic is missing for what is asked of it. -/
theorem Met.idle (h : filter.Met log) {n : Nat} (hn : log.topics.length ≤ n) :
    ∀ criterion ∈ filter.criteria.topics.drop n, criterion.Idle := by
  have htopics := h.criteria.2
  rw [← List.take_of_length_le hn] at htopics
  exact ((topicsMet_take n).1 htopics).2

/-- A filter of the store matches a stored log exactly if it matches the log that is given back for it, and a slot
behind an empty one is no topic to either. It matches the stored form of a log exactly if it matches the log and asks
nothing of a topic after the fourth; so if the log has at most four topics, both answers are the same. Criteria that ask
nothing change no answer when they are put behind others. -/
theorem accept_agrees :
    (∀ (filter : StoreFilter) (stored : StoredLog),
      (filter.accept stored = true ↔ filter.Met stored.toLog) ∧
      (TopicsMet filter.criteria.topics stored.toLog.topics ↔
        ∀ (i : Nat) (wanted : List Hash), filter.criteria.topics[i]? = some (some wanted) → wanted ≠ [] →
          ∃ j : Fin 4, j.val = i ∧ (∀ k < j, stored.slots.get k ≠ none) ∧
            ∃ topic ∈ wanted, stored.slots.get j = some topic)) ∧
    (∀ (filter : StoreFilter) (log : Log),
      (filter.accept (.ofLog log) = true ↔
        filter.Met log ∧ ∀ criterion ∈ filter.criteria.topics.drop 4, criterion.Idle) ∧
      (log.topics.length ≤ 4 → filter.accept (.ofLog log) = decide (filter.Met log))) ∧
    ∀ (first last : UInt64) (addresses : List Address) (criteria idle : List TopicCriterion),
      (∀ criterion ∈ idle, criterion.Idle) →
        let filter : StoreFilter := ⟨first, last, ⟨addresses, criteria⟩⟩
        let longer : StoreFilter := ⟨first, last, ⟨addresses, criteria ++ idle⟩⟩
        (∀ stored, longer.accept stored = filter.accept stored) ∧ ∀ log, longer.Met log ↔ filter.Met log := by
  refine ⟨fun filter stored => ⟨filter.accept_iff_met stored, stored.topicsMet_topics _⟩, fun filter log => ?_, ?_⟩
  · have hstored := (filter.accept_iff_met (.ofLog log)).trans met_toLog_ofLog
    refine ⟨hstored, fun hfour => ?_⟩
    rw [Bool.eq_iff_iff, decide_eq_true_iff, hstored]
    exact and_iff_left_of_imp fun hmet => hmet.idle hfour
  · intro first last addresses criteria idle hidle filter longer
    have hsame (log : Log) : longer.Met log ↔ filter.Met log := by
      rw [met_iff, met_iff]
      exact and_congr_right' (and_congr_right' (and_congr_right' (topicsMet_append_idle hidle)))
    refine ⟨fun stored => ?_, hsame⟩
    rw [Bool.eq_iff_iff, accept_iff_met, accept_iff_met, hsame]

/-- A stored log with a topic behind an empty slot: it is not found by that topic, as it comes back without it. A log
with one topic is found by it, also with criteria behind that ask nothing. -/
theorem accept_agrees_gap :
    let a : Hash := Vector.replicate 32 1
    let b : Hash := Vector.replicate 32 2
    let address : Address := Vector.replicate 20 0
    let stored : StoredLog := ⟨7, a, a, 0, 0, address, #v[some a, none, some b, none], []⟩
    let log : Log := ⟨address, [a], [], a, 7, a, 0, 0, false⟩
    (StoreFilter.mk 7 7 ⟨[], [none, none, some [b]]⟩).accept stored = false ∧
      (StoreFilter.mk 7 7 ⟨[], [some [b, a]]⟩).accept (.ofLog log) = true ∧
      (StoreFilter.mk 7 7 ⟨[], [some [b, a]] ++ [none, some [], none, some []]⟩).accept (.ofLog log) = true := by
  intro a b address stored log
  obtain ⟨hstored, hlogs, hlonger⟩ := accept_agrees
  have hfound : (StoreFilter.mk 7 7 ⟨[], [some [b, a]]⟩).accept (.ofLog log) = true := by
    rw [(hlogs _ log).2 (by decide)]
    decide
  refine ⟨?_, hfound, ?_⟩
  · rw [Bool.eq_false_iff, Ne, (hstored _ stored).1]
    decide
  · rw [(hlonger 7 7 [] [some [b, a]] [none, some [], none, some []] (by simp [TopicCriterion.Idle])).1]
    exact hfound

end StoreFilter

end LogGateway
