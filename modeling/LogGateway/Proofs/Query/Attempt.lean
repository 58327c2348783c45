/-
An attempt call by call: how it is divided, what it asks the store and the node for, and what each call answers.
What every answered call keeps, an attempt keeps, and so do the rounds of a query.
-/
import LogGateway.Proofs.Query.Rounds

namespace LogGateway.Query

variable {σ : Type} {sources : Sources σ} {deadline : Nat} {filter : LogFilter} {split : Split}
  {p q : Progress σ}

/-- A query goes from `p` to `q` by one call, which is answered so. -/
structure Answers (sources : Sources σ) (call : Call) (answer : call.Answer) (p q : Progress σ) : Prop where
  outcome : (sources call p.state).outcome = .ok answer
  next : q = answered sources call answer p

theorem ask_answers {call : Call} {answer : call.Answer} (h : ask sources deadline call p = .ok answer q) :
    Answers sources call answer p q :=
  ⟨(ask_ok h).1, (ask_ok h).2⟩

theorem Answers.asked {call : Call} {answer : call.Answer} (h : Answers sources call answer p q) :
    q.asked = p.asked ++ [⟨call, p.now, some (.ok answer)⟩] := by
  rw [h.next]
  rfl

theorem Answers.length {call : Call} {answer : call.Answer} (h : Answers sources call answer p q) :
    q.asked.length = p.asked.length + 1 := by
  rw [h.asked, List.length_append]
  rfl

theorem Answers.state {call : Call} {answer : call.Answer} (h : Answers sources call answer p q) :
    q.state = (sources call p.state).state := by
  rw [h.next]
  rfl

/-! ## The parts of an attempt -/

/-- How a query is divided: by the highest stored block alone, or by that and the number of a block. -/
inductive Divided (sources : Sources σ) (filter : LogFilter) (p : Progress σ) : Split → Progress σ → Prop
  | empty {q : Progress σ} (highest : Answers sources .highest none p q) :
      Divided sources filter p (.nodeOnly filter) q
  | range {top : UInt64} {first last : Option BlockSelector} {q : Progress σ}
      (highest : Answers sources .highest (some top) p q) (selection : filter.selection = .range first last) :
      Divided sources filter p (.ofRange filter top) q
  | block {top : UInt64} {hash : Hash} {found : BlockSummary} {q r : Progress σ}
      (highest : Answers sources .highest (some top) p q) (selection : filter.selection = .block hash)
      (block : Answers sources (.block hash) (some found) q r) :
      Divided sources filter p (.ofBlock filter found.number top) r

/-- What the store gives for its part of a query. -/
inductive FromStore (sources : Sources σ) (split : Split) (p : Progress σ) : List Log → Progress σ → Prop
  | none (unasked : split.store = none) : FromStore sources split p [] p
  | some {part : StoreFilter} {stored : List StoredLog} {q : Progress σ} (asked : split.store = some part)
      (answers : Answers sources (.stored part) stored p q) :
      FromStore sources split p (stored.map StoredLog.toLog) q

/-- What the node gives for its part of a query. -/
inductive FromNode (sources : Sources σ) (split : Split) (p : Progress σ) : List Log → Progress σ → Prop
  | none (unasked : split.node = none) : FromNode sources split p [] p
  | some {part : LogFilter} {live : List Log} {q : Progress σ} (asked : split.node = some part)
      (answers : Answers sources (.logs part) live p q) : FromNode sources split p live q

theorem divide_divided (h : divide sources deadline filter p = .ok split q) :
    Divided sources filter p split q := by
  unfold divide at h
  obtain ⟨highest, r, ha, h⟩ := of_bind_ok h
  have ha := ask_answers ha
  cases highest with
  | none => cases h; exact .empty ha
  | some top =>
    cases hs : filter.selection with
    | range first last => simp only [hs] at h; cases h; exact .range ha hs
    | block hash =>
      simp only [hs] at h
      obtain ⟨found, s, hb, h⟩ := of_bind_ok h
      have hb := ask_answers hb
      cases found with
      | none => cases h
      | some found => cases h; exact .block ha hs hb

theorem storedPart_fromStore {stored : List Log} (h : storedPart sources deadline split p = .ok stored q) :
    FromStore sources split p stored q := by
  unfold storedPart at h
  cases hs : split.store with
  | none => rw [hs] at h; cases h; exact .none hs
  | some part =>
    rw [hs] at h
    obtain ⟨answer, r, ha, h⟩ := of_bind_ok h
    cases h
    exact .some hs (ask_answers ha)

theorem livePart_fromNode {live : List Log} (h : livePart sources deadline split p = .ok live q) :
    FromNode sources split p live q := by
  unfold livePart at h
  cases hs : split.node with
  | none => rw [hs] at h; cases h; exact .none hs
  | some part =>
    rw [hs] at h
    exact .some hs (ask_answers h)

theorem FromStore.asked {stored : List Log} (h : FromStore sources split p stored q) :
    ∃ calls, q.asked = p.asked ++ calls ∧ calls.map Asked.call = split.store.toList.map .stored := by
  cases h with
  | none unasked => exact ⟨[], by rw [List.append_nil], by rw [unasked]; rfl⟩
  | some asked answers => exact ⟨_, answers.asked, by rw [asked]; rfl⟩

theorem FromNode.asked {live : List Log} (h : FromNode sources split p live q) :
    ∃ calls, q.asked = p.asked ++ calls ∧ calls.map Asked.call = split.node.toList.map .logs ∧
      calls.flatMap Asked.logs = live := by
  cases h with
  | none unasked => exact ⟨[], by rw [List.append_nil], by rw [unasked]; rfl, rfl⟩
  | some asked answers => exact ⟨_, answers.asked, by rw [asked]; rfl, by simp [Asked.logs]⟩

/-- An attempt divides the query, asks the store and then the node, and puts their logs together. -/
theorem attempt_ok {fetched : Fetched} (h : attempt sources deadline filter p = .ok fetched q) :
    ∃ (split : Split) (stored live : List Log) (p₁ p₂ : Progress σ),
      Divided sources filter p split p₁ ∧ FromStore sources split p₁ stored p₂ ∧
      FromNode sources split p₂ live q ∧ fetched = ⟨stored ++ live, split.hitsStore⟩ := by
  rw [attempt_eq] at h
  obtain ⟨split, p₁, hd, h⟩ := of_bind_ok h
  obtain ⟨stored, p₂, hs, h⟩ := of_bind_ok h
  obtain ⟨live, p₃, hl, h⟩ := of_bind_ok h
  cases h
  exact ⟨split, stored, live, p₁, p₂, divide_divided hd, storedPart_fromStore hs, livePart_fromNode hl, rfl⟩

/-! ## What calls keep -/

/-- Every answered call keeps this, and so does counting a retry. -/
structure Kept (sources : Sources σ) (P : Progress σ → Prop) : Prop where
  call : ∀ (call : Call) (answer : call.Answer) (p q : Progress σ), Answers sources call answer p q → P p → P q
  retry : ∀ (p : Progress σ) (retries : Nat), P p → P { p with retries }

namespace Kept

variable {P : Progress σ → Prop}

theorem attempt (h : Kept sources P) {fetched : Fetched}
    (ha : Query.attempt sources deadline filter p = .ok fetched q) (hp : P p) : P q := by
  obtain ⟨split, stored, live, p₁, p₂, hd, hs, hl, -⟩ := attempt_ok ha
  have h₁ : P p₁ := by
    cases hd with
    | empty highest => exact h.call _ _ _ _ highest hp
    | range highest => exact h.call _ _ _ _ highest hp
    | block highest _ block => exact h.call _ _ _ _ block (h.call _ _ _ _ highest hp)
  have h₂ : P p₂ := by
    cases hs with
    | none => exact h₁
    | some _ answers => exact h.call _ _ _ _ answers h₁
  cases hl with
  | none => exact h₂
  | some _ answers => exact h.call _ _ _ _ answers h₂

theorem round (h : Kept sources P) {round : Round σ} (ran : round.Ran sources deadline filter)
    (hp : P round.began) : P (round.closed sources) :=
  h.call _ _ _ _ (ask_answers ran.read) (h.attempt ran.attempt hp)

theorem moved (h : Kept sources P) {before after : UInt64} {rounds : List (Round σ)}
    (hm : Moved sources deadline filter before p rounds after q) (hp : P p) : P q := by
  induction hm with
  | refl => exact hp
  | step ran _ _ _ ih => exact ih (h.retry _ _ (h.round ran hp))

end Kept

end LogGateway.Query
