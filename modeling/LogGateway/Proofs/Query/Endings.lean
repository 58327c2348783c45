/-
How a query ends, as its log of calls tells. Main statement: it fails with a timeout of its own or one put down to
the reorganisations where the deadline or the clock says so, with any other error exactly as a call has it, and
otherwise it gives a result.
-/
import LogGateway.Proofs.Query.Faults

namespace LogGateway.Query

variable {σ : Type} {sources : Sources σ} {deadline : Nat} {filter : LogFilter}

/-! ## The log of a run -/

namespace Round

variable {round : Round σ}

theorem Ran.attempt_logged (h : round.Ran sources deadline filter) :
    Logged sources deadline (· ≠ .version) round.began round.calls round.ended ∧ Faultless round.calls := by
  obtain ⟨calls, hcalls, hquiet⟩ := (attempt_plays sources deadline filter).ok h.attempt
  obtain rfl := List.append_cancel_left (h.called.asked.symm.trans hcalls.asked)
  exact ⟨hcalls, hquiet⟩

theorem Ran.read_logged (h : round.Ran sources deadline filter) :
    Logged sources deadline (· = .version) round.ended [.read round.ended.now round.version]
      (round.closed sources) := by
  obtain ⟨calls, hcalls, -⟩ :=
    (@ask_plays σ sources deadline (· = .version) .version rfl fun _ => rfl).ok h.read
  obtain rfl : [.read round.ended.now round.version] = calls := List.append_cancel_left hcalls.asked
  exact hcalls

theorem Ran.logged (h : round.Ran sources deadline filter) :
    Logged sources deadline (fun _ => True) round.began round.asked (round.closed sources) :=
  (h.attempt_logged.1.mono fun _ _ => trivial).trans (h.read_logged.mono fun _ _ => trivial)

end Round

/-- The log of a query that goes on at `now` with so many versions read: no call has a fault, the version was seen
to move if there is a second one, and each time the deadline was still ahead. -/
structure Unfinished (deadline now reads : Nat) (asked : List Asked) : Prop where
  quiet : Faultless asked
  count : (versions asked).length = reads
  moved : 1 < reads → SawMove asked
  early : ¬ SawLate deadline now asked

theorem Unfinished.nil {now : Nat} : Unfinished deadline now 0 [] := by
  refine ⟨faultless_nil, rfl, fun h => absurd h (Nat.not_lt_zero 1), ?_⟩
  rintro ⟨earlier, _, _, _, _, h, -⟩
  cases earlier <;> cases h

/-- The log of a query that has read a version, `before` last. -/
structure Opened (deadline now reads : Nat) (before : UInt64) (asked : List Asked) : Prop
    extends Unfinished deadline now reads asked where
  opens : ∃ start version rest, asked = .read start version :: rest
  seen : (versions asked).getLast? = some before

namespace Opened

variable {now finish reads : Nat} {before after : UInt64} {asked calls : List Asked} {p q : Progress σ}
  {round : Round σ}

/-- The read that opens the query. -/
theorem opening {version : UInt64} {start : Nat} : Opened deadline now 1 version [.read start version] := by
  refine ⟨⟨faultless_singleton.2 rfl, rfl, fun h => absurd h (Nat.lt_irrefl 1), ?_⟩, ⟨start, version, [], rfl⟩, rfl⟩
  rw [← List.nil_append [_], sawLate_append]
  rintro (hlate | ⟨_, _, _, _, h, -⟩)
  · exact Unfinished.nil.early hlate
  · cases h

theorem head (h : Opened deadline now reads before asked) (more : List Asked) :
    ∀ a ∈ (asked ++ more).head?, a.call = .version := by
  obtain ⟨start, version, rest, rfl⟩ := h.opens
  intro a ha
  cases ha
  rfl

/-- Calls that read no version change nothing of it. -/
theorem of_calls (h : Opened deadline p.now reads before p.asked)
    (hlog : Logged sources deadline (· ≠ .version) p calls q) (hquiet : Faultless calls) :
    Opened deadline q.now reads before q.asked := by
  have hsame : versions q.asked = versions p.asked := by
    rw [hlog.asked, versions_append, versions_of_ne hlog.kinds, List.append_nil]
  obtain ⟨start, version, rest, hopens⟩ := h.opens
  refine ⟨⟨?_, ?_, fun hlong => ?_, ?_⟩, ⟨start, version, rest ++ calls, ?_⟩, ?_⟩
  · rw [hlog.asked]
    exact faultless_append.2 ⟨h.quiet, hquiet⟩
  · rw [hsame, h.count]
  · rw [hlog.asked]
    exact (h.moved hlong).append calls
  · rw [hlog.asked]
    exact fun hlate => h.early (hlog.played.sawLate hlog.kinds hlate)
  · rw [hlog.asked, hopens]
    rfl
  · rw [hsame, h.seen]

/-- A version that differs is read, ahead of the deadline. -/
theorem of_read (h : Opened deadline p.now reads before p.asked)
    (hlog : Logged sources deadline (· = .version) p [.read p.now after] q) (hne : after ≠ before)
    (hearly : q.now < deadline) : Opened deadline q.now (reads + 1) after q.asked := by
  have hread : versions q.asked = versions p.asked ++ [after] := by
    rw [hlog.asked, versions_append]
    rfl
  obtain ⟨start, version, rest, hopens⟩ := h.opens
  refine ⟨⟨?_, ?_, fun _ => ?_, ?_⟩, ⟨start, version, rest ++ [.read p.now after], ?_⟩, ?_⟩
  · rw [hlog.asked]
    exact faultless_append.2 ⟨h.quiet, faultless_singleton.2 rfl⟩
  · rw [hread, List.length_append, h.count]
    rfl
  · rw [hlog.asked]
    exact sawMove_of_getLast? _ h.seen hne
  · rw [hlog.asked, sawLate_append]
    rintro (hlate | ⟨_, _, _, _, _, _, hlate⟩)
    · exact h.early hlate
    · exact absurd hlate (Nat.not_le.2 hearly)
  · rw [hlog.asked, hopens]
    rfl
  · rw [hread, List.getLast?_append]
    rfl

theorem of_round (h : Opened deadline round.began.now reads before round.began.asked)
    (ran : round.Ran sources deadline filter) (hne : round.version ≠ before)
    (hearly : (round.closed sources).now < deadline) :
    Opened deadline (round.next sources).now (reads + 1) round.version (round.next sources).asked := by
  -- counting the retry adds no call and takes no time
  show Opened deadline (round.closed sources).now (reads + 1) round.version (round.closed sources).asked
  exact (h.of_calls ran.attempt_logged.1 ran.attempt_logged.2).of_read ran.read_logged hne hearly

end Opened

namespace Moved

variable {before after : UInt64} {p q : Progress σ} {rounds : List (Round σ)} {reads : Nat}

theorem played {state : σ} {start : Nat} (h : Moved sources deadline filter before p rounds after q)
    (hp : Played sources deadline state start p.asked p.state p.now) :
    Played sources deadline state start q.asked q.state q.now := by
  induction h with
  | refl => exact hp
  | step ran _ _ _ ih =>
    refine ih ?_
    show Played sources deadline state start (Round.closed sources _).asked _ _
    rw [ran.asked]
    exact hp.trans ran.logged.played

theorem opened (h : Moved sources deadline filter before p rounds after q)
    (hp : Opened deadline p.now reads before p.asked) :
    Opened deadline q.now (reads + rounds.length) after q.asked := by
  induction h generalizing reads with
  | refl => exact hp
  | step ran moved early _ ih =>
    rw [List.length_cons, Nat.add_comm _ 1, ← Nat.add_assoc]
    exact ih (hp.of_round ran moved early)

end Moved

/-- How a query that ended did so, as its log tells. -/
inductive Ended (deadline finish : Nat) : List Asked → Except Error Fetched → Prop
  | failed {reads : Nat} {earlier : List Asked} {last : Asked} {e : Error}
      (before : Unfinished deadline last.start reads earlier)
      (opens : ∀ a ∈ (earlier ++ [last]).head?, a.call = .version) (fault : last.fault? = some e) :
      Ended deadline finish (earlier ++ [last]) (.error (blame (.ofNat reads) e))
  | late {start reads : Nat} {before after : UInt64} {earlier : List Asked}
      (opened : Opened deadline start reads before earlier) (moved : after ≠ before) (late : deadline ≤ finish) :
      Ended deadline finish (earlier ++ [.read start after]) (.error .reorgTimeout)
  | settled {start reads : Nat} {version : UInt64} {earlier : List Asked} (fetched : Fetched)
      (opened : Opened deadline start reads version earlier) :
      Ended deadline finish (earlier ++ [.read start version]) (.ok fetched)

/-- The log of a query that ended is played by its sources, and tells how it ended. -/
theorem run_ended {start limit : Nat} {state : σ} {outcome : Outcome σ}
    (h : run sources deadline filter start state limit = some outcome) :
    Played sources deadline state start outcome.asked outcome.state outcome.finish ∧
      Ended deadline outcome.finish outcome.asked outcome.result := by
  unfold run guarded at h
  rcases @ask_logged σ sources deadline (· = .version) .version rfl ⟨state, start, [], 0⟩ with
    ⟨opening, opened, hv, hlog⟩ | ⟨e, q, a, hv, hlog, hfault⟩
  · rw [bind_of_ok hv] at h
    obtain ⟨moved, before, q, hm, ⟨-, hr⟩ | ⟨-, hr⟩⟩ :=
      @rounds_cases σ sources deadline filter limit 1 opening opened
    · rw [hr] at h; cases h
    have hplayed := hm.played (by rw [hlog.asked]; exact hlog.played)
    have hopened := hm.opened (by rw [hlog.asked]; exact .opening)
    -- the attempts are counted as the version reads before them
    rw [show (1 : UInt32) = .ofNat 1 from rfl, ← UInt32.ofNat_add] at hr
    generalize rounds sources deadline filter limit 1 opening opened = r at h hr
    cases hr with
    | @attempt e r failed =>
      cases h
      obtain ⟨calls, mid, last, hcalls, hquiet, hlast, hfault⟩ := (attempt_plays sources deadline filter).error failed
      simp only [hlast.asked]
      refine ⟨hcalls.asked ▸ (hplayed.trans hcalls.played).trans hlast.played, ?_⟩
      have hopened := hopened.of_calls hcalls hquiet
      exact .failed (hlast.start ▸ hopened.toUnfinished) (hopened.head _) hfault
    | @read fetched q' r e ended failed =>
      cases h
      obtain ⟨calls, hcalls, hquiet⟩ := (attempt_plays sources deadline filter).ok ended
      rcases @ask_logged σ sources deadline (· = .version) .version rfl q' with
        ⟨version, r', hok, -⟩ | ⟨e', r', a, he, hlast, hfault⟩
      · rw [failed] at hok; cases hok
      rw [failed] at he
      cases he
      simp only [hlast.asked]
      refine ⟨hcalls.asked ▸ (hplayed.trans hcalls.played).trans hlast.played, ?_⟩
      have hopened := hopened.of_calls hcalls hquiet
      exact .failed (hlast.start ▸ hopened.toUnfinished) (hopened.head _) hfault
    | @settled last ran began same =>
      cases h
      subst began
      obtain ⟨hcalls, hquiet⟩ := ran.attempt_logged
      refine ⟨by simpa only [ran.asked] using hplayed.trans ran.logged.played, ?_⟩
      simp only [ran.read_logged.asked]
      exact same ▸ .settled _ (hopened.of_calls hcalls hquiet)
    | @late last ran began moved late =>
      cases h
      subst began
      obtain ⟨hcalls, hquiet⟩ := ran.attempt_logged
      refine ⟨by simpa only [Round.next, ran.asked] using hplayed.trans ran.logged.played, ?_⟩
      simp only [Round.next, ran.read_logged.asked]
      exact .late (hopened.of_calls hcalls hquiet) moved late
  · rw [bind_of_error hv] at h
    cases h
    refine ⟨hlog.asked ▸ hlog.played, ?_⟩
    simp only [hlog.asked]
    have hkeep : blame (.ofNat 0) e = e := by cases e <;> rfl
    refine hkeep ▸ .failed .nil (fun b hb => ?_) hfault
    cases hb
    exact hlog.kinds a (List.mem_singleton_self a)

/-! ## Reading the result off -/

/-- As long as their number can be counted, what runs out of time at the first read or before is not put down to the
reorganisations. -/
theorem blame_ofNat {reads : Nat} (h : reads < UInt32.size) :
    blame (.ofNat reads) .deadlineExceeded = if 1 < reads then .reorgTimeout else .deadlineExceeded := by
  have hlt : 1 < UInt32.ofNat reads ↔ 1 < reads := by
    rw [UInt32.lt_iff_toNat_lt, UInt32.toNat_ofNat_of_lt' h]
    rfl
  simp only [blame, hlt]

namespace Ended

variable {finish : Nat} {asked : List Asked} {result : Except Error Fetched}

/-- All calls but the last are without a fault. -/
theorem quiet (h : Ended deadline finish asked result) :
    ∃ earlier last, asked = earlier ++ [last] ∧ Faultless earlier := by
  cases h with
  | failed before => exact ⟨_, _, rfl, before.quiet⟩
  | late opened => exact ⟨_, _, rfl, opened.quiet⟩
  | settled _ opened => exact ⟨_, _, rfl, opened.quiet⟩

/-- What the log tells of a query that ended. A call that was cut is one of the first attempt or one of a retry, as
the version was read once before or more often. -/
inductive Verdict (deadline finish : Nat) (asked : List Asked) : Except Error Fetched → Prop
  | cut {reads : Nat} (few : reads ≤ (versions asked).length) (first : CutFirst asked ↔ reads ≤ 1)
      (early : ¬ SawLate deadline finish asked) (retry : CutRetry asked ↔ 1 < reads) (works : ∀ e, ¬ FailsWith e asked) :
      Verdict deadline finish asked (.error (blame (.ofNat reads) .deadlineExceeded))
  | failed {e : Error} (kind : e.isTimeout = false) (first : ¬ CutFirst asked) (early : ¬ SawLate deadline finish asked)
      (retry : ¬ CutRetry asked) (fails : ∀ e', FailsWith e' asked ↔ e' = e) :
      Verdict deadline finish asked (.error e)
  | late (first : ¬ CutFirst asked) (late : SawLate deadline finish asked) (works : ∀ e, ¬ FailsWith e asked) :
      Verdict deadline finish asked (.error .reorgTimeout)
  | settled (fetched : Fetched) (first : ¬ CutFirst asked) (early : ¬ SawLate deadline finish asked)
      (retry : ¬ CutRetry asked) (works : ∀ e, ¬ FailsWith e asked) : Verdict deadline finish asked (.ok fetched)

end Ended

namespace Ended.Verdict

variable {finish : Nat} {asked : List Asked} {result : Except Error Fetched}

/-- Which timeout it is, as long as the version reads can be counted. -/
theorem timeouts (h : Verdict deadline finish asked result) (hfew : (versions asked).length < UInt32.size) :
    (result = .error .deadlineExceeded ↔ CutFirst asked) ∧
      (result = .error .reorgTimeout ↔ SawLate deadline finish asked ∨ CutRetry asked) := by
  cases h with
  | @cut reads few first early retry =>
    rw [blame_ofNat (Nat.lt_of_le_of_lt few hfew), first, retry, or_iff_right early]
    by_cases hreads : 1 < reads
    · simp [hreads]
    · simp [hreads, Nat.not_lt.1 hreads]
  | failed kind first early retry =>
    constructor
    · exact iff_of_false (fun h => by cases h; cases kind) first
    · exact iff_of_false (fun h => by cases h; cases kind) (not_or.2 ⟨early, retry⟩)
  | late first late => exact ⟨iff_of_false (by simp) first, iff_of_true rfl (.inl late)⟩
  | settled fetched first early retry =>
    exact ⟨iff_of_false (by simp) first, iff_of_false (by simp) (not_or.2 ⟨early, retry⟩)⟩

end Ended.Verdict

end LogGateway.Query
