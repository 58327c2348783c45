/-
How long a guarded query goes on. Its clock never passes the deadline. Each round that does not end it saw the version
move ahead of the deadline, so that it makes at most one attempt more than the version moves; and where attempts take
time, only so many fit before the deadline.
-/
import LogGateway.Proofs.Query.Endings

namespace LogGateway.Query

variable {σ α : Type} {sources : Sources σ} {deadline : Nat} {filter : LogFilter} {before after : UInt64}
  {p q : Progress σ} {moved : List (Round σ)} {asked more later : List Asked} {d : Nat}

/-! ## The clock -/

theorem Played.finish_le {state last : σ} {now finish : Nat} (h : Played sources deadline state now asked last finish)
    (hnow : now ≤ deadline) : finish ≤ deadline := by
  induction h with
  | nil => exact hnow
  | ended intime _ ih => exact ih (by omega)
  | cut _ _ ih => exact ih (Nat.max_le.2 ⟨hnow, Nat.le_refl _⟩)

theorem Played.le_finish {state last : σ} {now finish : Nat}
    (h : Played sources deadline state now asked last finish) : now ≤ finish := by
  induction h with
  | nil => exact Nat.le_refl _
  | ended _ _ ih => exact Nat.le_trans (Nat.le_add_right ..) ih
  | cut _ _ ih => exact Nat.le_trans (Nat.le_max_left ..) ih

/-! ## What a log counts -/

/-- How many attempts made these calls: each asks for the highest block once. -/
def attempts (asked : List Asked) : Nat := asked.countP fun a => a.call = .highest

/-- How often a version differs from the one read before it. -/
def moves : List UInt64 → Nat
  | [] => 0
  | [_] => 0
  | before :: after :: rest => (if after = before then 0 else 1) + moves (after :: rest)

/-- Attempts that come to their end take so long: from the first call of each to the version read after it. -/
inductive Lasting (d : Nat) : List Asked → Prop
  | nil : Lasting d []
  | cons {first : Asked} {rest : List Asked}
      (long : first.call = .highest → ∀ last ∈ rest.find? fun a => a.call = .version, first.start + d ≤ last.start)
      (later : Lasting d rest) : Lasting d (first :: rest)

theorem attempts_append : attempts (asked ++ more) = attempts asked + attempts more := List.countP_append

theorem attempts_opening {start : Nat} {outcome : Option (Except Error (Option UInt64))}
    (h : ∀ a ∈ asked, a.call ≠ .highest) : attempts (⟨.highest, start, outcome⟩ :: asked) = 1 := by
  rw [attempts, List.countP_cons_of_pos (by simp), List.countP_eq_zero.2 (by simpa using h)]

theorem moves_le_append (versions later : List UInt64) : moves versions ≤ moves (versions ++ later) := by
  induction versions using moves.induct with
  | case1 => exact Nat.zero_le _
  | case2 => exact Nat.zero_le _
  | case3 before after rest ih =>
    simp only [List.cons_append, moves]
    exact Nat.add_le_add_left ih _

theorem lasting_cons {first : Asked} : Lasting d (first :: asked) ↔
    (first.call = .highest → ∀ last ∈ asked.find? fun a => a.call = .version, first.start + d ≤ last.start) ∧
      Lasting d asked := by
  constructor
  · intro h
    cases h with
    | cons long later => exact ⟨long, later⟩
  · rintro ⟨long, later⟩
    exact .cons long later

theorem Lasting.of_append (h : Lasting d (asked ++ more)) : Lasting d more := by
  induction asked with
  | nil => exact h
  | cons first asked ih => exact ih (lasting_cons.1 h).2

/-! ## The calls of an attempt -/

/-- Where a step leaves a query. -/
def reached : EStateM.Result Error (Progress σ) α → Progress σ
  | .ok _ q => q
  | .error _ q => q

theorem Plays.logged {kind : Call → Prop} {f : Step σ α} (h : Plays sources deadline kind f) (p : Progress σ) :
    ∃ calls, Logged sources deadline kind p calls (reached (f p)) := by
  cases hf : f p with
  | ok a q =>
    obtain ⟨calls, hcalls, -⟩ := h.ok hf
    exact ⟨calls, hcalls⟩
  | error e q =>
    obtain ⟨calls, mid, last, hcalls, -, hlast, -⟩ := h.error hf
    exact ⟨calls ++ [last], hcalls.trans hlast⟩

theorem ask_called (sources : Sources σ) (deadline : Nat) (call : Call) (p : Progress σ) :
    ∃ outcome,
      Logged sources deadline (· = call) p [⟨call, p.now, outcome⟩] (reached (ask sources deadline call p)) := by
  rcases @ask_logged σ sources deadline (· = call) call rfl p with ⟨answer, q, ha, hlog⟩ | ⟨e, q, a, ha, hlog, -⟩
  · rw [ha]
    exact ⟨_, hlog⟩
  · obtain ⟨kind, start, outcome⟩ := a
    obtain rfl : kind = call := hlog.kinds _ (List.mem_singleton_self _)
    obtain rfl : start = p.now := hlog.start
    rw [ha]
    exact ⟨outcome, hlog⟩

/-- An attempt, whether it fails or not, asks for the highest block first, and then no more. -/
theorem attempt_opens (sources : Sources σ) (deadline : Nat) (filter : LogFilter) (p : Progress σ) :
    ∃ outcome calls, Logged sources deadline (· ≠ .version) p (⟨.highest, p.now, outcome⟩ :: calls)
      (reached (attempt sources deadline filter p)) ∧ ∀ a ∈ calls, a.call ≠ .highest := by
  obtain ⟨rest, heq, hrest⟩ := attempt_begins sources deadline filter
  obtain ⟨outcome, hfirst⟩ := ask_called sources deadline .highest p
  have hfirst : Logged sources deadline (· ≠ .version) p [⟨.highest, p.now, outcome⟩] _ :=
    hfirst.mono fun call hcall => by simp [hcall]
  rw [heq]
  cases ha : ask sources deadline .highest p with
  | error e q =>
    rw [ha] at hfirst
    rw [bind_of_error ha]
    exact ⟨outcome, [], hfirst, by simp⟩
  | ok highest q =>
    rw [ha] at hfirst
    rw [bind_of_ok ha]
    obtain ⟨calls, hcalls⟩ := (hrest highest).logged q
    exact ⟨outcome, calls, hfirst.trans (hcalls.mono fun _ => And.left), fun a ha => (hcalls.kinds a ha).2⟩

/-! ## Rounds -/

namespace Round

variable {round : Round σ}

theorem Ran.opens (h : round.Ran sources deadline filter) :
    ∃ outcome calls, round.calls = ⟨.highest, round.began.now, outcome⟩ :: calls ∧ ∀ a ∈ calls, a.call ≠ .highest := by
  obtain ⟨outcome, calls, hlog, hnone⟩ := attempt_opens sources deadline filter round.began
  rw [h.attempt] at hlog
  exact ⟨outcome, calls, List.append_cancel_left (h.called.asked.symm.trans hlog.asked), hnone⟩

theorem Ran.attempts (h : round.Ran sources deadline filter) : attempts round.asked = 1 := by
  obtain ⟨outcome, calls, hcalls, hnone⟩ := h.opens
  rw [Round.asked, attempts_append, hcalls, attempts_opening hnone]
  rfl

/-- The next round begins at least so long after this one. -/
theorem Ran.elapsed (h : round.Ran sources deadline filter) (hlasting : Lasting d (round.asked ++ later)) :
    round.began.now + d ≤ (round.next sources).now := by
  obtain ⟨outcome, calls, hcalls, -⟩ := h.opens
  have hnone : ∀ a ∈ calls, ¬ decide (a.call = .version) = true := by
    intro a ha
    simpa using h.called.unversioned a (hcalls ▸ List.mem_cons_of_mem _ ha)
  -- the read that closes the round is the first one after its first call
  have hread : ((calls ++ [Asked.read round.ended.now round.version]) ++ later).find? (fun a => a.call = .version) =
      some (.read round.ended.now round.version) := by
    rw [List.append_assoc, List.find?_append, List.find?_eq_none.2 hnone]
    rfl
  rw [Round.asked, hcalls] at hlasting
  exact Nat.le_trans ((lasting_cons.1 hlasting).1 rfl _ hread) h.read_logged.played.le_finish

end Round

namespace Moved

theorem attempts (h : Moved sources deadline filter before p moved after q) :
    attempts (moved.flatMap Round.asked) = moved.length := by
  induction h with
  | refl => rfl
  | step ran _ _ _ ih => rw [List.flatMap_cons, attempts_append, ran.attempts, ih, List.length_cons, Nat.add_comm]

theorem moves (h : Moved sources deadline filter before p moved after q) :
    moves (before :: moved.map Round.version) = moved.length := by
  induction h with
  | refl => rfl
  | step _ moved _ _ ih => rw [List.map_cons, Query.moves, if_neg moved, ih, List.length_cons, Nat.add_comm]

theorem elapsed (h : Moved sources deadline filter before p moved after q)
    (hlasting : Lasting d (moved.flatMap Round.asked ++ later)) : p.now + moved.length * d ≤ q.now := by
  induction h with
  | refl => simp
  | step ran _ _ _ ih =>
    rw [List.flatMap_cons, List.append_assoc] at hlasting
    have hfirst := ran.elapsed hlasting
    have hrest := ih hlasting.of_append
    rw [List.length_cons, Nat.succ_mul]
    omega

theorem early (h : Moved sources deadline filter before p moved after q) :
    moved = [] ∧ q = p ∨ q.now < deadline := by
  induction h with
  | refl => exact .inl ⟨rfl, rfl⟩
  | step _ _ early _ ih =>
    rcases ih with ⟨-, rfl⟩ | ih
    · exact .inr early
    · exact .inr ih

end Moved

/-- The last round makes one attempt. -/
theorem Ends.attempts {n : UInt32} {result : EStateM.Result Error (Progress σ) (Option Fetched)}
    (h : Ends sources deadline filter before n p result) :
    ∃ later, (reached result).asked = p.asked ++ later ∧ attempts later = 1 := by
  obtain ⟨outcome, calls, hlog, hnone⟩ := attempt_opens sources deadline filter p
  cases h with
  | attempt failed =>
    rw [failed] at hlog
    exact ⟨_, hlog.asked, attempts_opening hnone⟩
  | @read fetched q r e ended failed =>
    obtain ⟨outcome', hread⟩ := ask_called sources deadline .version q
    rw [ended] at hlog
    rw [failed] at hread
    have hasked : r.asked = q.asked ++ _ := hread.asked
    refine ⟨_, by rw [reached, hasked, show q.asked = _ from hlog.asked, List.append_assoc], ?_⟩
    rw [attempts_append, attempts_opening hnone]
    rfl
  | settled ran began _ => exact ⟨_, began ▸ ran.asked, ran.attempts⟩
  | late ran began _ _ => exact ⟨_, began ▸ ran.asked, ran.attempts⟩

/-! ## Queries with a limit -/

/-- The calls of a query that runs at most `limit` rounds. -/
def trace (sources : Sources σ) (deadline : Nat) (filter : LogFilter) (start : Nat) (state : σ) (limit : Nat) :
    List Asked :=
  (reached (guarded sources deadline filter limit ⟨state, start, [], 0⟩)).asked

variable {start limit : Nat} {state : σ} {outcome : Outcome σ}

/-- Where a query has ended, it does so with a higher limit too. -/
theorem rounds_of_le {attempts : UInt32} {more : Nat} (h : limit ≤ more)
    (hend : ∀ q, rounds sources deadline filter limit attempts before p ≠ .ok none q) :
    rounds sources deadline filter more attempts before p = rounds sources deadline filter limit attempts before p := by
  induction limit generalizing attempts more before p with
  | zero => exact absurd rfl (hend p)
  | succ limit ih =>
    obtain ⟨more, rfl⟩ := Nat.exists_eq_add_of_le' h
    rcases @rounds_step σ sources deadline filter attempts before p with ⟨result, -, heq⟩ | ⟨round, -, rfl, -, -, heq⟩
    · exact (heq _).trans (heq limit).symm
    · rw [heq] at hend
      exact ((heq _).trans (ih (Nat.le_add_left ..) hend)).trans (heq limit).symm

theorem run_of_le {more : Nat} (h : limit ≤ more)
    (hrun : run sources deadline filter start state limit = some outcome) :
    run sources deadline filter start state more = some outcome := by
  unfold run guarded at hrun ⊢
  cases hv : ask sources deadline .version ⟨state, start, [], 0⟩ with
  | error e q =>
    rw [bind_of_error hv] at hrun ⊢
    exact hrun
  | ok opening opened =>
    rw [bind_of_ok hv] at hrun ⊢
    rw [rounds_of_le h, hrun]
    intro q hnone
    rw [hnone] at hrun
    cases hrun

/-- A query fails at the version read that opens it, or runs rounds that see the version move, until it reaches its
limit or makes its last attempt. -/
theorem run_cases (sources : Sources σ) (deadline : Nat) (filter : LogFilter) (start : Nat) (state : σ) (limit : Nat) :
    (∃ outcome, run sources deadline filter start state limit = some outcome ∧ attempts outcome.asked = 0) ∨
    ∃ opening opened moved before q later, ask sources deadline .version ⟨state, start, [], 0⟩ = .ok opening opened ∧
      Moved sources deadline filter opening opened moved before q ∧
      trace sources deadline filter start state limit = .read start opening :: (moved.flatMap Round.asked ++ later) ∧
      (moved.length = limit ∨ ∃ outcome, run sources deadline filter start state limit = some outcome ∧
        attempts outcome.asked = moved.length + 1) := by
  obtain ⟨first, hlog⟩ := ask_called sources deadline .version ⟨state, start, [], 0⟩
  unfold run trace guarded
  cases hv : ask sources deadline .version ⟨state, start, [], 0⟩ with
  | error e q =>
    rw [hv] at hlog
    rw [bind_of_error hv]
    refine .inl ⟨_, rfl, ?_⟩
    show attempts q.asked = 0
    rw [show q.asked = _ from hlog.asked]
    rfl
  | ok opening opened =>
    have hopened : opened.asked = [.read start opening] := by
      obtain ⟨-, rfl⟩ := ask_ok hv
      rfl
    rw [bind_of_ok hv]
    obtain ⟨moved, before, q, hm, h⟩ := @rounds_cases σ sources deadline filter limit 1 opening opened
    have hasked : q.asked = .read start opening :: moved.flatMap Round.asked := by
      rw [hm.asked, hopened]
      rfl
    refine .inr ⟨opening, opened, moved, before, q, ?_⟩
    rcases h with ⟨hlimit, hresult⟩ | ⟨-, hend⟩
    · refine ⟨[], rfl, hm, ?_, .inl hlimit⟩
      rw [hresult, List.append_nil]
      exact hasked
    · obtain ⟨later, hlater, hone⟩ := hend.attempts
      have hall : (reached (rounds sources deadline filter limit 1 opening opened)).asked =
          .read start opening :: (moved.flatMap Round.asked ++ later) := by
        rw [hlater, hasked]
        rfl
      have hcount : attempts (.read start opening :: (moved.flatMap Round.asked ++ later)) = moved.length + 1 := by
        rw [← hone, ← hm.attempts, ← attempts_append]
        rfl
      refine ⟨later, rfl, hm, hall, .inr ?_⟩
      generalize rounds sources deadline filter limit 1 opening opened = result at hend hall
      cases hend <;> exact ⟨_, rfl, hall ▸ hcount⟩

/-- A query ends after so many attempts, if fewer rounds can have seen the version move. -/
theorem run_of_bound {most : Nat}
    (hbound : ∀ opening opened moved before q later,
      ask sources deadline .version ⟨state, start, [], 0⟩ = .ok opening opened →
      Moved sources deadline filter opening opened moved before q →
      trace sources deadline filter start state most = .read start opening :: (moved.flatMap Round.asked ++ later) →
      moved.length < most) :
    ∃ outcome, (∀ limit ≥ most, run sources deadline filter start state limit = some outcome) ∧
      attempts outcome.asked ≤ most := by
  rcases run_cases sources deadline filter start state most with
    ⟨outcome, hrun, hnone⟩ | ⟨opening, opened, moved, before, q, later, hv, hm, htrace, h⟩
  · exact ⟨outcome, fun limit hlimit => run_of_le hlimit hrun, hnone ▸ Nat.zero_le most⟩
  · have hlt := hbound opening opened moved before q later hv hm htrace
    rcases h with hlength | ⟨outcome, hrun, hcount⟩
    · exact absurd hlength (Nat.ne_of_lt hlt)
    · exact ⟨outcome, fun limit hlimit => run_of_le hlimit hrun, hcount ▸ hlt⟩

/-- Rounds that saw the version move show as moves in the log. -/
theorem Moved.length_le_moves {opening : UInt64} (h : Moved sources deadline filter opening p moved after q) :
    moved.length ≤ Query.moves (versions (.read start opening :: (moved.flatMap Round.asked ++ later))) := by
  have hread : versions (moved.flatMap Round.asked) = moved.map Round.version := filterMap_version? h.ran
  rw [versions_read, versions_append, hread, ← List.cons_append, ← h.moves]
  exact moves_le_append ..

/-- Rounds that take so long each and end ahead of the deadline are fewer than fit before it. -/
theorem Moved.length_mul_lt {opening : UInt64} {timeout : Nat}
    (hv : ask sources (start + timeout) .version ⟨state, start, [], 0⟩ = .ok opening p)
    (h : Moved sources (start + timeout) filter opening p moved after q)
    (hlasting : Lasting d (.read start opening :: (moved.flatMap Round.asked ++ later))) :
    moved = [] ∨ moved.length * d < timeout := by
  rcases h.early with ⟨hnil, -⟩ | hearly
  · exact .inl hnil
  · have hstart : start ≤ p.now := by
      obtain ⟨-, rfl⟩ := ask_ok hv
      exact Nat.le_add_right ..
    have := h.elapsed (lasting_cons.1 hlasting).2
    exact .inr (by omega)

/-- How many attempts of length `d` begin before a timeout: it over `d`, rounded up, and at least one. -/
def mostAttempts (timeout d : Nat) : Nat := max 1 ((timeout + d - 1) / d)

/-- When a query with a timeout is over, whatever its sources answer and however long they take. It never ends after
its deadline. If the version moves at most `K` times, it makes at most `K + 1` attempts; and if each attempt takes at
least `d`, it makes no more than begin before the deadline, where the first one always counts. It ends then, and in
the same way for every limit of rounds that is not lower. -/
theorem run_bounded (sources : Sources σ) (filter : LogFilter) (state : σ) (start timeout : Nat) :
    (∀ limit outcome, run sources (start + timeout) filter start state limit = some outcome →
      outcome.finish ≤ start + timeout) ∧
    (∀ K, moves (versions (trace sources (start + timeout) filter start state (K + 1))) ≤ K →
      ∃ outcome, (∀ limit ≥ K + 1, run sources (start + timeout) filter start state limit = some outcome) ∧
        attempts outcome.asked ≤ K + 1) ∧
    ∀ d > 0, Lasting d (trace sources (start + timeout) filter start state (mostAttempts timeout d)) →
      ∃ outcome,
        (∀ limit ≥ mostAttempts timeout d, run sources (start + timeout) filter start state limit = some outcome) ∧
        attempts outcome.asked ≤ mostAttempts timeout d := by
  refine ⟨fun limit outcome h => (run_ended h).1.finish_le (Nat.le_add_right ..), fun K hmoves => ?_,
    fun d hd hlasting => ?_⟩
  · refine run_of_bound fun opening opened moved before q later _ hm htrace => ?_
    rw [htrace] at hmoves
    exact Nat.lt_succ_of_le (Nat.le_trans hm.length_le_moves hmoves)
  · refine run_of_bound fun opening opened moved before q later hv hm htrace => ?_
    rw [htrace] at hlasting
    rcases hm.length_mul_lt hv hlasting with rfl | hlt
    · exact Nat.lt_of_lt_of_le Nat.one_pos (Nat.le_max_left ..)
    · -- the last of these rounds ended in time, so that one more attempt begins in time
      have hfit : moved.length + 1 ≤ (timeout + d - 1) / d := by
        rw [Nat.le_div_iff_mul_le hd, Nat.succ_mul]
        omega
      exact Nat.lt_of_lt_of_le hfit (Nat.le_max_right ..)

/-- A store that reports a reorganisation at every read, and a node that takes its time. -/
def stormScene : Scene where
  store := .empty
  storedLogs := none
  nodeLogs := []
  nodeBlocks := []
  versions := [told 1, told 2, told 3, told 4, told 5]
  highests := [told none]
  storedCalls := []
  blockCalls := []
  logCalls := [⟨[], 30, none, some []⟩]

theorem run_bounded_stormScene :
    let filter : LogFilter := ⟨.range none none, ⟨[], []⟩⟩
    moves (versions (trace Scene.sources 100 filter 0 stormScene 4)) ≤ 3 ∧
      Lasting 30 (trace Scene.sources 100 filter 0 stormScene 4) ∧
      ∃ outcome, (∀ limit ≥ 4, run Scene.sources 100 filter 0 stormScene limit = some outcome) ∧
        outcome.finish ≤ 100 ∧ attempts outcome.asked ≤ 4 ∧ outcome.result = .error .reorgTimeout := by
  intro filter
  -- the fourth attempt is cut
  have htrace : trace Scene.sources 100 filter 0 stormScene 4 =
      [.read 0 1, ⟨.highest, 0, some (.ok none)⟩, ⟨.logs filter, 0, some (.ok [])⟩, .read 30 2,
        ⟨.highest, 30, some (.ok none)⟩, ⟨.logs filter, 30, some (.ok [])⟩, .read 60 3,
        ⟨.highest, 60, some (.ok none)⟩, ⟨.logs filter, 60, some (.ok [])⟩, .read 90 4,
        ⟨.highest, 90, some (.ok none)⟩, ⟨.logs filter, 90, none⟩] := by decide +kernel
  have hmoves : moves (versions (trace Scene.sources 100 filter 0 stormScene 4)) ≤ 3 := by
    rw [htrace]
    decide
  have hlasting : Lasting 30 (trace Scene.sources 100 filter 0 stormScene 4) := by
    rw [htrace]
    simp [lasting_cons, Lasting.nil, Asked.read]
  have hresult : (run Scene.sources 100 filter 0 stormScene 4).map Outcome.result = some (.error .reorgTimeout) := by
    decide +kernel
  obtain ⟨hfinish, hsteady, hslow⟩ := run_bounded Scene.sources filter stormScene 0 100
  rw [Nat.zero_add] at hfinish hsteady hslow
  have hslow := hslow 30 (by decide)
  rw [show mostAttempts 100 30 = 4 from rfl] at hslow
  obtain ⟨outcome, hrun, hfew⟩ := hsteady 3 hmoves
  obtain ⟨outcome', hrun', -⟩ := hslow hlasting
  have hsame : outcome = outcome' := Option.some.inj ((hrun 4 (by decide)).symm.trans (hrun' 4 (by decide)))
  rw [hrun 4 (by decide)] at hresult
  refine ⟨hmoves, hlasting, outcome, hsame ▸ hrun', ?_, hfew, Option.some.inj hresult⟩
  exact hfinish 4 outcome (hrun 4 (by decide))

end LogGateway.Query
