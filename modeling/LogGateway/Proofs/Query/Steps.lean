/-
What one call and one attempt of a query do: the log of calls only grows, an attempt reads no version
and counts no retry, and what it fetches is what its own calls brought.
-/
import LogGateway.Proofs.Sequence
import LogGateway.Query

namespace LogGateway

/-! ## What a call shows -/

namespace Asked

/-- The version that a call read. -/
def version? : Asked → Option UInt64
  | ⟨.version, _, some (.ok version)⟩ => some version
  | _ => none

/-- The logs that a call brought, as clients see them. -/
def logs : Asked → List Log
  | ⟨.stored _, _, some (.ok stored)⟩ => stored.map StoredLog.toLog
  | ⟨.logs _, _, some (.ok logs)⟩ => logs
  | _ => []

/-- Whether a call asked the store for logs. -/
def isStored (asked : Asked) : Bool :=
  match asked.call with
  | .stored _ => true
  | _ => false

/-- A version read that ended. -/
def read (start : Nat) (version : UInt64) : Asked := ⟨.version, start, some (.ok version)⟩

theorem version?_of_ne {asked : Asked} (h : asked.call ≠ .version) : asked.version? = none := by
  obtain ⟨call, start, outcome⟩ := asked
  cases call with
  | version => exact absurd rfl h
  | highest | stored | block | logs => rfl

end Asked

namespace Query

variable {σ α β : Type} {sources : Sources σ} {deadline : Nat} {filter : LogFilter}

/-! ## Steps of an attempt -/

theorem within_of_ok {attempts : UInt32} {f : Step σ α} {p q : Progress σ} {a : α} (h : f p = .ok a q) :
    within attempts f p = .ok a q := by
  simp only [within, EStateM.adaptExcept, h]

theorem within_of_error {attempts : UInt32} {f : Step σ α} {p q : Progress σ} {e : Error}
    (h : f p = .error e q) : within attempts f p = .error (blame attempts e) q := by
  simp only [within, EStateM.adaptExcept, h]

/-! ## Calls -/

/-- A query after a call that ended with this answer. -/
def answered (sources : Sources σ) (call : Call) (answer : call.Answer) (p : Progress σ) : Progress σ where
  state := (sources call p.state).state
  now := p.now + (sources call p.state).delay
  asked := p.asked ++ [⟨call, p.now, some (.ok answer)⟩]
  retries := p.retries

/-- A call that ends by the deadline gives what the sources answer. -/
theorem ask_of_answer {call : Call} {answer : call.Answer} {p : Progress σ}
    (h : (sources call p.state).outcome = .ok answer)
    (hin : p.now + (sources call p.state).delay ≤ deadline) :
    ask sources deadline call p = .ok answer (answered sources call answer p) := by
  unfold ask
  simp only [h, if_pos (Or.inr hin), answered]

theorem ask_ok {call : Call} {answer : call.Answer} {p q : Progress σ}
    (h : ask sources deadline call p = .ok answer q) :
    (sources call p.state).outcome = .ok answer ∧ q = answered sources call answer p := by
  unfold ask at h
  simp only at h
  split at h
  · cases ho : (sources call p.state).outcome with
    | ok a => rw [ho] at h; cases h; exact ⟨rfl, rfl⟩
    | error e => rw [ho] at h; cases h
  · cases h

/-! ## Attempts -/

/-- From `p` to `q` a query made these calls, none of which read the version, and was not retried. -/
structure Called (p : Progress σ) (calls : List Asked) (q : Progress σ) : Prop where
  asked : q.asked = p.asked ++ calls
  retries : q.retries = p.retries
  unversioned : ∀ a ∈ calls, a.call ≠ .version

namespace Called

variable {p q r : Progress σ} {calls more : List Asked}

theorem refl (p : Progress σ) : Called p [] p := ⟨by simp, rfl, by simp⟩

theorem trans (h : Called p calls q) (k : Called q more r) : Called p (calls ++ more) r := by
  refine ⟨by rw [k.asked, h.asked, List.append_assoc], k.retries.trans h.retries, ?_⟩
  intro a ha
  rcases List.mem_append.1 ha with ha | ha
  · exact h.unversioned a ha
  · exact k.unversioned a ha

theorem answered {call : Call} (h : call ≠ .version) (answer : call.Answer) (p : Progress σ) :
    Called p [⟨call, p.now, some (.ok answer)⟩] (answered sources call answer p) := by
  refine ⟨rfl, rfl, ?_⟩
  intro a ha
  rw [List.mem_singleton] at ha
  rw [ha]; exact h

end Called

/-- Dividing a query brings no logs and asks the store for none. -/
theorem divide_called {p q : Progress σ} {split : Split}
    (h : divide sources deadline filter p = .ok split q) :
    ∃ calls, Called p calls q ∧ calls.flatMap Asked.logs = [] ∧ calls.any Asked.isStored = false := by
  unfold divide at h
  obtain ⟨highest, r, ha, h⟩ := of_bind_ok h
  obtain ⟨-, rfl⟩ := ask_ok ha
  have hc := @Called.answered σ sources .highest (by simp) highest p
  cases highest with
  | none => cases h; exact ⟨_, hc, rfl, rfl⟩
  | some highest =>
    cases hs : filter.selection with
    | range first last => simp only [hs] at h; cases h; exact ⟨_, hc, rfl, rfl⟩
    | block hash =>
      simp only [hs] at h
      obtain ⟨block, r, hb, h⟩ := of_bind_ok h
      obtain ⟨-, rfl⟩ := ask_ok hb
      have hd := hc.trans (@Called.answered σ sources (.block hash) (by simp) block _)
      cases block with
      | none => cases h
      | some block => cases h; exact ⟨_, hd, rfl, rfl⟩

/-- The logs that an attempt asks the store for. -/
def storedPart (sources : Sources σ) (deadline : Nat) (split : Split) : Step σ (List Log) :=
  match split.store with
  | none => pure []
  | some part => (·.map StoredLog.toLog) <$> ask sources deadline (.stored part)

/-- The logs that an attempt asks the node for. -/
def livePart (sources : Sources σ) (deadline : Nat) (split : Split) : Step σ (List Log) :=
  match split.node with
  | none => pure []
  | some part => ask sources deadline (.logs part)

theorem attempt_eq (sources : Sources σ) (deadline : Nat) (filter : LogFilter) :
    attempt sources deadline filter = (do
      let split ← divide sources deadline filter
      let stored ← storedPart sources deadline split
      let live ← livePart sources deadline split
      return { logs := stored ++ live, hitStore := split.hitsStore }) := by
  unfold attempt
  congr 1
  funext split
  unfold storedPart livePart
  cases split.store <;> cases split.node <;> rfl

theorem storedPart_called {p q : Progress σ} {split : Split} {stored : List Log}
    (h : storedPart sources deadline split p = .ok stored q) :
    ∃ calls, Called p calls q ∧ calls.flatMap Asked.logs = stored ∧
      calls.any Asked.isStored = split.hitsStore := by
  unfold storedPart at h
  unfold Split.hitsStore
  cases hs : split.store with
  | none => rw [hs] at h; cases h; exact ⟨[], Called.refl p, rfl, rfl⟩
  | some part =>
    rw [hs] at h
    obtain ⟨answer, r, ha, h⟩ := of_bind_ok h
    obtain ⟨-, rfl⟩ := ask_ok ha
    cases h
    exact ⟨_, @Called.answered σ sources (.stored part) (by simp) answer p, by simp [Asked.logs], rfl⟩

theorem livePart_called {p q : Progress σ} {split : Split} {live : List Log}
    (h : livePart sources deadline split p = .ok live q) :
    ∃ calls, Called p calls q ∧ calls.flatMap Asked.logs = live ∧ calls.any Asked.isStored = false := by
  unfold livePart at h
  cases hs : split.node with
  | none => rw [hs] at h; cases h; exact ⟨[], Called.refl p, rfl, rfl⟩
  | some part =>
    rw [hs] at h
    obtain ⟨-, rfl⟩ := ask_ok h
    exact ⟨_, @Called.answered σ sources (.logs part) (by simp) live p, by simp [Asked.logs], rfl⟩

/-- What an attempt fetches is what its own calls brought, and it hits the store when one of them asked
the store for logs. -/
theorem attempt_called {p q : Progress σ} {fetched : Fetched}
    (h : attempt sources deadline filter p = .ok fetched q) :
    ∃ calls, Called p calls q ∧ fetched.logs = calls.flatMap Asked.logs ∧
      fetched.hitStore = calls.any Asked.isStored := by
  rw [attempt_eq] at h
  obtain ⟨split, p₁, hd, h⟩ := of_bind_ok h
  obtain ⟨stored, p₂, hs, h⟩ := of_bind_ok h
  obtain ⟨live, p₃, hl, h⟩ := of_bind_ok h
  cases h
  obtain ⟨dividing, hd, logs₁, hit₁⟩ := divide_called hd
  obtain ⟨storing, hs, logs₂, hit₂⟩ := storedPart_called hs
  obtain ⟨living, hl, logs₃, hit₃⟩ := livePart_called hl
  refine ⟨dividing ++ storing ++ living, (hd.trans hs).trans hl, ?_, ?_⟩
  · simp only [List.flatMap_append, logs₁, logs₂, logs₃, List.nil_append]
  · simp only [List.any_append, hit₁, hit₂, hit₃, Bool.false_or, Bool.or_false]

end Query

end LogGateway
