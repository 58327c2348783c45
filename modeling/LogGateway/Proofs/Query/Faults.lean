/-
What a log of calls tells of how its query ended: which call the deadline cut, which call failed, and whether the
version was seen to move in time. Where only the last call may have a fault, that call and the versions before it
decide.
-/
import LogGateway.Proofs.Query.Log

namespace LogGateway.Query

variable {σ : Type} {sources : Sources σ} {deadline : Nat}

/-! ## What a log tells -/

/-- The versions that were read. -/
def versions (asked : List Asked) : List UInt64 := asked.filterMap Asked.version?

/-- Two versions read one after the other differ. -/
def SawMove (asked : List Asked) : Prop :=
  ∃ k before after, (versions asked)[k]? = some before ∧ (versions asked)[k + 1]? = some after ∧ before ≠ after

/-- The deadline cuts the version read that opens the query, its first attempt, or the read that closes it. -/
inductive CutFirst : List Asked → Prop
  | opening {later : List Asked} (start : Nat) : CutFirst (⟨.version, start, none⟩ :: later)
  | attempt {calls later : List Asked} {call : Call} (opened start : Nat) (version : UInt64)
      (within : ∀ a ∈ calls, a.call ≠ .version) (ends : call ≠ .version) :
      CutFirst (.read opened version :: (calls ++ ⟨call, start, none⟩ :: later))
  | closing {calls later : List Asked} (opened start : Nat) (version : UInt64)
      (within : ∀ a ∈ calls, a.call ≠ .version) :
      CutFirst (.read opened version :: (calls ++ ⟨.version, start, none⟩ :: later))

/-- After a pair of versions that differ, the deadline cuts a call. -/
def CutRetry (asked : List Asked) : Prop :=
  ∃ earlier call start later, asked = earlier ++ ⟨call, start, none⟩ :: later ∧ SawMove earlier

/-- The time at which these calls go on, at the end of a log that is over at `finish`. -/
def clock (finish : Nat) : List Asked → Nat
  | [] => finish
  | next :: _ => next.start

/-- A version read differs from the one before it, and right after it the clock stands at or past the deadline. -/
def SawLate (deadline finish : Nat) (asked : List Asked) : Prop :=
  ∃ earlier start before after later, asked = earlier ++ .read start after :: later ∧
    (versions earlier).getLast? = some before ∧ after ≠ before ∧ deadline ≤ clock finish later

/-- A call fails with this error, or finds no block of a hash. -/
def FailsWith (e : Error) (asked : List Asked) : Prop := ∃ a ∈ asked, a.outcome ≠ none ∧ a.fault? = some e

theorem versions_append (asked more : List Asked) : versions (asked ++ more) = versions asked ++ versions more :=
  List.filterMap_append

theorem versions_read (start : Nat) (version : UInt64) (asked : List Asked) :
    versions (.read start version :: asked) = version :: versions asked := rfl

theorem versions_of_ne {asked : List Asked} (h : ∀ a ∈ asked, a.call ≠ .version) : versions asked = [] :=
  List.filterMap_eq_nil_iff.2 fun a ha => Asked.version?_of_ne (h a ha)

theorem SawMove.length {asked : List Asked} (h : SawMove asked) : 1 < (versions asked).length := by
  obtain ⟨k, before, after, -, hafter, -⟩ := h
  have := (List.getElem?_eq_some_iff.1 hafter).1
  omega

/-- The version read last differs from the one before it. -/
theorem sawMove_of_getLast? {asked : List Asked} {before after : UInt64} (start : Nat)
    (h : (versions asked).getLast? = some before) (hne : after ≠ before) :
    SawMove (asked ++ [.read start after]) := by
  have hread : versions (asked ++ [.read start after]) = versions asked ++ [after] := versions_append ..
  obtain ⟨init, hinit⟩ := List.getLast?_eq_some_iff.1 h
  refine ⟨init.length, before, after, ?_, ?_, hne.symm⟩
  · rw [hread, hinit]
    simp
  · rw [hread, hinit]
    simp

theorem SawMove.append {asked : List Asked} (h : SawMove asked) (more : List Asked) : SawMove (asked ++ more) := by
  obtain ⟨k, before, after, hbefore, hafter, hne⟩ := h
  refine ⟨k, before, after, ?_, ?_, hne⟩
  · rw [versions_append, List.getElem?_append_left (List.getElem?_eq_some_iff.1 hbefore).1, hbefore]
  · rw [versions_append, List.getElem?_append_left (List.getElem?_eq_some_iff.1 hafter).1, hafter]

/-! ## Logs whose last call may have a fault -/

section Last

variable {asked : List Asked} {last : Asked}

theorem sawLate_append {finish : Nat} : SawLate deadline finish (asked ++ [last]) ↔
    SawLate deadline last.start asked ∨ ∃ start before after, last = .read start after ∧
      (versions asked).getLast? = some before ∧ after ≠ before ∧ deadline ≤ finish := by
  constructor
  · rintro ⟨earlier, start, before, after, later, h, hseen, hne, hlate⟩
    rcases List.eq_nil_or_concat later with rfl | ⟨init, b, rfl⟩
    · obtain ⟨rfl, hlast⟩ := List.append_inj' h rfl
      cases hlast
      exact .inr ⟨start, before, after, rfl, hseen, hne, hlate⟩
    · rw [List.concat_eq_append, ← List.cons_append, ← List.append_assoc] at h
      obtain ⟨rfl, hlast⟩ := List.append_inj' h rfl
      cases hlast
      refine .inl ⟨earlier, start, before, after, init, rfl, hseen, hne, ?_⟩
      cases init <;> exact hlate
  · rintro (⟨earlier, start, before, after, later, rfl, hseen, hne, hlate⟩ |
      ⟨start, before, after, rfl, hseen, hne, hlate⟩)
    · refine ⟨earlier, start, before, after, later ++ [last], by simp, hseen, hne, ?_⟩
      cases later <;> exact hlate
    · exact ⟨asked, start, before, after, [], rfl, hseen, hne, hlate⟩

theorem SawLate.of_ne {finish : Nat} (hlate : SawLate deadline finish (asked ++ [last]))
    (hv : last.call ≠ .version) : SawLate deadline last.start asked := by
  rcases sawLate_append.1 hlate with h | ⟨_, _, _, rfl, -⟩
  · exact h
  · exact absurd rfl hv

/-- Calls that read no version do not find the clock late. -/
theorem Played.sawLate {calls : List Asked} {state mid : σ} {now finish : Nat}
    (h : Played sources deadline state now calls mid finish) (hv : ∀ a ∈ calls, a.call ≠ .version)
    (hlate : SawLate deadline finish (asked ++ calls)) : SawLate deadline now asked := by
  induction h generalizing asked with
  | nil => rwa [List.append_nil] at hlate
  | ended _ _ ih | cut _ _ ih =>
    rw [List.append_cons] at hlate
    have hlate := ih (fun a ha => hv a (List.mem_cons_of_mem _ ha)) hlate
    exact hlate.of_ne (hv _ (List.mem_cons_self ..))

end Last

end LogGateway.Query
