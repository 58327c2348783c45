/-
The log of calls, also of a query that fails. Played on the clock, the calls of the log give its outcomes: a call
ends in time or is cut. A step goes on as long as its calls have no fault; the first call with a fault is its
last, and its error is the one that the step fails with.
-/
import LogGateway.Proofs.Query.Rounds
import Mathlib.Control.Monad.Basic

namespace LogGateway

instance Call.decidableEqAnswer : (call : Call) → DecidableEq call.Answer
  | .version => inferInstanceAs (DecidableEq UInt64)
  | .highest => inferInstanceAs (DecidableEq (Option UInt64))
  | .stored _ => inferInstanceAs (DecidableEq (List StoredLog))
  | .block _ => inferInstanceAs (DecidableEq (Option BlockSummary))
  | .logs _ => inferInstanceAs (DecidableEq (List Log))

deriving instance DecidableEq for Asked

/-- The error that an answer leads to: there is no block of the hash. -/
def Call.refusal? : (call : Call) → call.Answer → Option Error
  | .block hash, none => some (.unknownBlock hash)
  | .block _, some _ => none
  | .version, _ => none
  | .highest, _ => none
  | .stored _, _ => none
  | .logs _, _ => none

/-- The error of a call that is cut, that fails, or that finds no block of a hash. -/
def Asked.fault? : Asked → Option Error
  | ⟨_, _, none⟩ => some .deadlineExceeded
  | ⟨_, _, some (.error e)⟩ => some e
  | ⟨call, _, some (.ok answer)⟩ => call.refusal? answer

namespace Query

variable {σ α β : Type} {sources : Sources σ} {deadline : Nat} {filter : LogFilter} {kind : Call → Prop}
  {p q r : Progress σ}

/-! ## Calls on the clock -/

/-- Calls one after the other, from a state and a time on. Each is made when the one before is over. It has the
outcome that the sources reply if it takes no time or ends by the deadline, and else is cut there. -/
inductive Played (sources : Sources σ) (deadline : Nat) : σ → Nat → List Asked → σ → Nat → Prop
  | nil (state : σ) (now : Nat) : Played sources deadline state now [] state now
  | ended {call : Call} {state last : σ} {now finish : Nat} {calls : List Asked}
      (intime : (sources call state).delay = 0 ∨ now + (sources call state).delay ≤ deadline)
      (rest : Played sources deadline (sources call state).state (now + (sources call state).delay) calls last
        finish) :
      Played sources deadline state now (⟨call, now, some (sources call state).outcome⟩ :: calls) last finish
  | cut {call : Call} {state last : σ} {now finish : Nat} {calls : List Asked}
      (late : (sources call state).delay ≠ 0 ∧ deadline < now + (sources call state).delay)
      (rest : Played sources deadline (sources call state).state (max now deadline) calls last finish) :
      Played sources deadline state now (⟨call, now, none⟩ :: calls) last finish

theorem Played.trans {state mid last : σ} {now time finish : Nat} {calls more : List Asked}
    (h : Played sources deadline state now calls mid time) (h' : Played sources deadline mid time more last finish) :
    Played sources deadline state now (calls ++ more) last finish := by
  induction h with
  | nil => exact h'
  | ended intime _ ih => exact .ended intime (ih h')
  | cut late _ ih => exact .cut late (ih h')

/-- From `p` to `q` a query made these calls, all of a kind. -/
structure Logged (sources : Sources σ) (deadline : Nat) (kind : Call → Prop) (p : Progress σ) (calls : List Asked)
    (q : Progress σ) : Prop where
  asked : q.asked = p.asked ++ calls
  played : Played sources deadline p.state p.now calls q.state q.now
  kinds : ∀ a ∈ calls, kind a.call

namespace Logged

variable {calls more : List Asked}

theorem refl (p : Progress σ) : Logged sources deadline kind p [] p := by
  refine ⟨by rw [List.append_nil], .nil _ _, ?_⟩
  intro a ha
  cases ha

theorem trans (h : Logged sources deadline kind p calls q) (h' : Logged sources deadline kind q more r) :
    Logged sources deadline kind p (calls ++ more) r := by
  refine ⟨by rw [h'.asked, h.asked, List.append_assoc], h.played.trans h'.played, ?_⟩
  intro a ha
  rcases List.mem_append.1 ha with ha | ha
  · exact h.kinds a ha
  · exact h'.kinds a ha

theorem start {a : Asked} (h : Logged sources deadline kind p (a :: calls) q) : a.start = p.now := by
  cases h.played <;> rfl

theorem mono {wider : Call → Prop} (h : Logged sources deadline kind p calls q)
    (hk : ∀ call, kind call → wider call) : Logged sources deadline wider p calls q :=
  ⟨h.asked, h.played, fun a ha => hk _ (h.kinds a ha)⟩

end Logged

/-! ## Steps -/

def Faultless (calls : List Asked) : Prop := ∀ a ∈ calls, a.fault? = none

theorem faultless_nil : Faultless [] := by
  intro a ha
  cases ha

theorem faultless_append {calls more : List Asked} :
    Faultless (calls ++ more) ↔ Faultless calls ∧ Faultless more := by
  simp only [Faultless, List.mem_append, or_imp, forall_and]

theorem faultless_singleton {a : Asked} : Faultless [a] ↔ a.fault? = none := by
  simp only [Faultless, List.mem_singleton, forall_eq]

/-- A step that gives a result makes calls without a fault; one that fails makes such calls and then one whose
fault is its error. -/
structure Plays (sources : Sources σ) (deadline : Nat) (kind : Call → Prop) (f : Step σ α) : Prop where
  ok : ∀ {p q : Progress σ} {a : α}, f p = .ok a q →
    ∃ calls, Logged sources deadline kind p calls q ∧ Faultless calls
  error : ∀ {p q : Progress σ} {e : Error}, f p = .error e q →
    ∃ calls mid last, Logged sources deadline kind p calls mid ∧ Faultless calls ∧
      Logged sources deadline kind mid [last] q ∧ last.fault? = some e

theorem pure_plays (a : α) : Plays sources deadline kind (pure a) := by
  refine ⟨fun {p q b} h => ?_, fun h => by cases h⟩
  cases h
  exact ⟨[], .refl p, faultless_nil⟩

theorem Plays.mono {wider : Call → Prop} {f : Step σ α} (h : Plays sources deadline kind f)
    (hk : ∀ call, kind call → wider call) : Plays sources deadline wider f where
  ok hf := by
    obtain ⟨calls, hcalls, hquiet⟩ := h.ok hf
    exact ⟨calls, hcalls.mono hk, hquiet⟩
  error hf := by
    obtain ⟨calls, mid, last, hcalls, hquiet, hlast, hfault⟩ := h.error hf
    exact ⟨calls, mid, last, hcalls.mono hk, hquiet, hlast.mono hk, hfault⟩

/-- The calls of two steps in sequence. -/
theorem Plays.bind {f : Step σ α} {g : α → Step σ β} (hf : Plays sources deadline kind f)
    (hg : ∀ a, Plays sources deadline kind (g a)) : Plays sources deadline kind (f >>= g) := by
  constructor
  · intro p r b h
    obtain ⟨a, q, hfp, hgq⟩ := of_bind_ok h
    obtain ⟨calls, hcalls, hquiet⟩ := hf.ok hfp
    obtain ⟨more, hmore, hquiet'⟩ := (hg a).ok hgq
    exact ⟨calls ++ more, hcalls.trans hmore, faultless_append.2 ⟨hquiet, hquiet'⟩⟩
  · intro p r e h
    cases hfp : f p with
    | error e' q =>
      rw [bind_of_error hfp] at h
      cases h
      exact hf.error hfp
    | ok a q =>
      rw [bind_of_ok hfp] at h
      obtain ⟨calls, hcalls, hquiet⟩ := hf.ok hfp
      obtain ⟨more, mid, last, hmore, hquiet', hlast⟩ := (hg a).error h
      exact ⟨calls ++ more, mid, last, hcalls.trans hmore, faultless_append.2 ⟨hquiet, hquiet'⟩, hlast⟩

/-- One call: it is answered, or it has a fault. -/
theorem ask_logged {call : Call} (hk : kind call) (p : Progress σ) :
    (∃ answer q, ask sources deadline call p = .ok answer q ∧
      Logged sources deadline kind p [⟨call, p.now, some (.ok answer)⟩] q) ∨
    ∃ e q a, ask sources deadline call p = .error e q ∧ Logged sources deadline kind p [a] q ∧
      a.fault? = some e := by
  have hkinds : ∀ outcome, ∀ a ∈ [(⟨call, p.now, outcome⟩ : Asked)], kind a.call := by
    intro outcome a ha
    rw [List.mem_singleton.1 ha]
    exact hk
  unfold ask
  by_cases hin : (sources call p.state).delay = 0 ∨ p.now + (sources call p.state).delay ≤ deadline
  · have hplayed := Played.ended hin (.nil _ _)
    simp only [if_pos hin]
    cases ho : (sources call p.state).outcome with
    | ok answer =>
      rw [ho] at hplayed
      exact .inl ⟨answer, _, rfl, rfl, hplayed, hkinds _⟩
    | error e =>
      rw [ho] at hplayed
      exact .inr ⟨e, _, _, rfl, ⟨rfl, hplayed, hkinds _⟩, rfl⟩
  · simp only [if_neg hin]
    have hlate : (sources call p.state).delay ≠ 0 ∧ deadline < p.now + (sources call p.state).delay := by
      omega
    exact .inr ⟨_, _, _, rfl, ⟨rfl, .cut hlate (.nil _ _), hkinds _⟩, rfl⟩

/-- A call and what follows from its answer: either more calls, or the error at once. -/
theorem ask_bind_plays {call : Call} (hk : kind call) {g : call.Answer → Step σ β}
    (hgo : ∀ answer, call.refusal? answer = none → Plays sources deadline kind (g answer))
    (hstop : ∀ answer e, call.refusal? answer = some e → ∀ p, g answer p = .error e p) :
    Plays sources deadline kind (ask sources deadline call >>= g) := by
  constructor
  · intro p r b h
    rcases @ask_logged σ sources deadline kind call hk p with ⟨answer, q, ha, hlog⟩ | ⟨e, q, a, ha, -, -⟩
    · rw [bind_of_ok ha] at h
      cases href : call.refusal? answer with
      | none =>
        obtain ⟨calls, hcalls, hquiet⟩ := (hgo answer href).ok h
        have hfirst : Faultless [⟨call, p.now, some (.ok answer)⟩] := faultless_singleton.2 href
        exact ⟨_, hlog.trans hcalls, faultless_append.2 ⟨hfirst, hquiet⟩⟩
      | some e => rw [hstop answer e href] at h; cases h
    · rw [bind_of_error ha] at h; cases h
  · intro p r e h
    rcases @ask_logged σ sources deadline kind call hk p with ⟨answer, q, ha, hlog⟩ | ⟨e', q, a, ha, hlog, hfault⟩
    · rw [bind_of_ok ha] at h
      cases href : call.refusal? answer with
      | none =>
        obtain ⟨calls, mid, last, hcalls, hquiet, hlast⟩ := (hgo answer href).error h
        have hfirst : Faultless [⟨call, p.now, some (.ok answer)⟩] := faultless_singleton.2 href
        exact ⟨_ :: calls, mid, last, hlog.trans hcalls, faultless_append.2 ⟨hfirst, hquiet⟩, hlast⟩
      | some e' =>
        rw [hstop answer e' href] at h
        cases h
        exact ⟨[], p, _, .refl p, faultless_nil, hlog, href⟩
    · rw [bind_of_error ha] at h
      cases h
      exact ⟨[], p, a, .refl p, faultless_nil, hlog, hfault⟩

theorem ask_plays {call : Call} (hk : kind call) (hnever : ∀ answer, call.refusal? answer = none) :
    Plays sources deadline kind (ask sources deadline call) := by
  rw [← bind_pure (ask sources deadline call)]
  refine ask_bind_plays hk (fun answer _ => pure_plays answer) fun answer e he => ?_
  rw [hnever] at he
  cases he

/-! ## The attempt -/

/-- An attempt asks for the highest block, once and first. Its further calls are about other blocks and logs. -/
theorem attempt_begins (sources : Sources σ) (deadline : Nat) (filter : LogFilter) :
    ∃ rest : Option UInt64 → Step σ Fetched,
      attempt sources deadline filter = ask sources deadline .highest >>= rest ∧
      ∀ highest, Plays sources deadline (fun call => call ≠ .version ∧ call ≠ .highest) (rest highest) := by
  have hdivide : ∃ rest : Option UInt64 → Step σ Split,
      divide sources deadline filter = ask sources deadline .highest >>= rest ∧
      ∀ highest, Plays sources deadline (fun call => call ≠ .version ∧ call ≠ .highest) (rest highest) := by
    unfold divide
    refine ⟨_, rfl, fun highest => ?_⟩
    cases highest with
    | none => exact pure_plays _
    | some top =>
      cases filter.selection with
      | range first last => exact pure_plays _
      | block hash =>
        refine ask_bind_plays (by simp) (fun found hf => ?_) fun found e he p => ?_
        · cases found with
          | none => cases hf
          | some found => exact pure_plays _
        · cases found with
          | none => cases he; rfl
          | some found => cases he
  have hstored : ∀ split, Plays sources deadline (fun call => call ≠ .version ∧ call ≠ .highest)
      (storedPart sources deadline split) := by
    intro split
    unfold storedPart
    cases split.store with
    | none => exact pure_plays _
    | some part => exact (ask_plays (by simp) fun _ => rfl).bind fun _ => pure_plays _
  have hlive : ∀ split, Plays sources deadline (fun call => call ≠ .version ∧ call ≠ .highest)
      (livePart sources deadline split) := by
    intro split
    unfold livePart
    cases split.node with
    | none => exact pure_plays _
    | some part => exact ask_plays (by simp) fun _ => rfl
  obtain ⟨dividing, heq, hdividing⟩ := hdivide
  rw [attempt_eq, heq, bind_assoc]
  exact ⟨_, rfl, fun highest => (hdividing highest).bind fun split => (hstored split).bind fun _ =>
    (hlive split).bind fun _ => pure_plays _⟩

/-- The calls of an attempt are about blocks and logs. -/
theorem attempt_plays (sources : Sources σ) (deadline : Nat) (filter : LogFilter) :
    Plays sources deadline (· ≠ .version) (attempt sources deadline filter) := by
  obtain ⟨rest, heq, hrest⟩ := attempt_begins sources deadline filter
  rw [heq]
  exact ask_bind_plays (by simp) (fun highest _ => (hrest highest).mono fun _ => And.left) fun _ _ he => by cases he

end Query

end LogGateway
