/-
Fetching logs through the node that a key is routed to. As the store is empty, a query divides nothing and looks up no
block: it asks the node once, for the logs of its filter as it is. Main statement: the command prints one line for each
log of the node's reply, in order, or it fails and prints nothing. It sends one request at most, to the URL of the key
and for what its arguments ask, and none if there is no node or if the arguments give no block hash.
-/
import LogGateway.Proofs.Cluster.Configured
import LogGateway.Proofs.Gateway.Requests
import LogGateway.Proofs.Query.Steps
import LogGateway.Proofs.Rpc.Replies
import LogGateway.Proofs.Store.Changes
import LogGateway.Proofs.Wire.Lines

namespace LogGateway

variable {σ : Type}

/-! ## Replies in time -/

namespace Http.Posted

/-- The reply comes while the client waits, that is within 30 seconds, and by the deadline, and these logs are read from
it. -/
structure Brings (posted : Posted σ) (timeoutMs : Nat) (logs : List Log) : Prop where
  awaited : posted.delay < 30000
  timely : posted.delay ≤ timeoutMs
  read : Rpc.readLogs posted.delivery = .ok logs

theorem Brings.delivered {posted : Posted σ} {timeoutMs : Nat} {logs : List Log} (h : posted.Brings timeoutMs logs) :
    posted.delivery ≠ .failed := by
  intro hfailed
  have hread := h.read
  rw [hfailed] at hread
  cases hread

@[simp] theorem within_state (limit : Nat) (posted : Posted σ) : (posted.within limit).state = posted.state := by
  unfold within
  split <;> rfl

/-- The logs of a reply that comes by the deadline. -/
def logs (posted : Posted σ) (timeoutMs : Nat) : Except Error (List Log) :=
  if posted.delay ≤ timeoutMs then Rpc.readLogs posted.delivery else .error .deadlineExceeded

/-- A client whose wait ended has no logs, whatever the deadline. -/
theorem logs_within_eq_ok_iff {posted : Posted σ} {timeoutMs : Nat} {logs : List Log} :
    (posted.within Rpc.Client.defaultLimit).logs timeoutMs = .ok logs ↔ posted.Brings timeoutMs logs := by
  unfold within Posted.logs
  constructor
  · intro h
    by_cases hwait : posted.delay < Rpc.Client.defaultLimit
    · rw [if_pos hwait] at h
      split at h
      · next htimely => exact ⟨hwait, htimely, h⟩
      · cases h
    · rw [if_neg hwait] at h
      split at h <;> cases h
  · rintro ⟨hawaited, htimely, hread⟩
    have hwait : posted.delay < Rpc.Client.defaultLimit := hawaited
    rw [if_pos hwait, if_pos htimely, hread]

end Http.Posted

/-! ## A query with an empty store -/

namespace Query

open Live (sources)

variable {transport : Http.Transport σ} {deadline : Nat} {filter : LogFilter} {url : String} {wire : σ}

/-- The store of a running gateway answers at once, whatever the clock says. -/
theorem ask_version (p : Progress (Live σ)) : ask (sources transport) deadline .version p =
    .ok p.state.store.version (answered (sources transport) .version p.state.store.version p) := by
  unfold ask
  exact if_pos (.inl rfl)

theorem ask_highest (p : Progress (Live σ)) : ask (sources transport) deadline .highest p =
    .ok p.state.store.highest? (answered (sources transport) .highest p.state.store.highest? p) := by
  unfold ask
  exact if_pos (.inl rfl)

/-- The first request of a client, posted at the start. -/
theorem ask_logs {p : Progress (Live σ)} (hstate : p.state = ⟨.empty, .make url, wire⟩) (hstart : p.now = 0) :
    let posted := (transport url ((Rpc.Question.logs filter).request 1) wire).within Rpc.Client.defaultLimit
    ∃ q : Progress (Live σ), q.state.store = .empty ∧ q.state.wire = posted.state ∧
      ask (sources transport) deadline (.logs filter) p =
        match posted.logs deadline with
        | .ok logs => .ok logs q
        | .error e => .error e q := by
  intro posted
  obtain ⟨state, now, asked, retries⟩ := p
  obtain rfl : state = _ := hstate
  obtain rfl : now = 0 := hstart
  have hcall : sources transport (.logs filter) ⟨.empty, .make url, wire⟩ =
    ⟨posted.delay, Rpc.readLogs posted.delivery, ⟨.empty, ⟨url, Rpc.Client.defaultLimit, 2⟩, posted.state⟩⟩ := rfl
  unfold ask
  simp only [hcall]
  by_cases hin : posted.delay ≤ deadline
  · rw [if_pos (.inr (by omega)), Http.Posted.logs, if_pos hin]
    cases Rpc.readLogs posted.delivery with
    | ok logs => exact ⟨_, rfl, rfl, rfl⟩
    | error e => exact ⟨_, rfl, rfl, rfl⟩
  · rw [if_neg (by omega), Http.Posted.logs, if_neg hin]
    exact ⟨_, rfl, rfl, rfl⟩

/-- With an empty store an attempt is a call of the node for the logs of the filter. -/
theorem attempt_of_empty {p : Progress (Live σ)} (hempty : p.state.store = .empty) :
    attempt (sources transport) deadline filter p =
      (do
        let live ← ask (sources transport) deadline (.logs filter)
        return { logs := live, hitStore := false } : Step (Live σ) Fetched)
        (answered (sources transport) .highest none p) := by
  have hnone : p.state.store.highest? = none := by rw [hempty, Store.highest?_empty]
  have hdivide : divide (sources transport) deadline filter p =
      .ok (.nodeOnly filter) (answered (sources transport) .highest none p) := by
    rw [divide, bind_of_ok (ask_highest p), hnone]
    rfl
  rw [attempt_eq, bind_of_ok hdivide]
  rfl

theorem blame_first (e : Error) : blame 1 e = e := by cases e <;> rfl

/-- A query with an empty store takes one round, whose one request decides it. -/
theorem run_of_empty (transport : Http.Transport σ) (deadline : Nat) (filter : LogFilter) (url : String) (wire : σ) :
    let posted := (transport url ((Rpc.Question.logs filter).request 1) wire).within Rpc.Client.defaultLimit
    ∃ outcome : Outcome (Live σ),
      (∀ limit, run (sources transport) deadline filter 0 ⟨.empty, .make url, wire⟩ (limit + 1) = some outcome) ∧
      outcome.result = (posted.logs deadline).map (fun logs => ⟨logs, false⟩) ∧ outcome.state.wire = posted.state := by
  intro posted
  let start : Progress (Live σ) := ⟨⟨.empty, .make url, wire⟩, 0, [], 0⟩
  let opened := answered (sources transport) .version 0 start
  obtain ⟨q, hstore, hwire, hask⟩ : ∃ q : Progress (Live σ), q.state.store = .empty ∧ q.state.wire = posted.state ∧ _ :=
    @ask_logs σ transport deadline filter url wire (answered (sources transport) .highest none opened) rfl rfl
  have hattempt : attempt (sources transport) deadline filter opened = _ := attempt_of_empty rfl
  have hguarded (limit : Nat) : guarded (sources transport) deadline filter (limit + 1) start =
      rounds (sources transport) deadline filter (limit + 1) 1 0 opened := by
    rw [guarded, bind_of_ok (ask_version start)]
    rfl
  cases hlogs : posted.logs deadline with
  | ok logs =>
    rw [hlogs] at hask
    rw [bind_of_ok hask] at hattempt
    let closed := answered (sources transport) .version 0 q
    have hversion : ask (sources transport) deadline .version q = .ok 0 closed := by
      rw [ask_version, hstore]
      rfl
    refine ⟨⟨.ok ⟨logs, false⟩, closed.state, closed.now, closed.asked, closed.retries⟩, fun limit => ?_, rfl, hwire⟩
    rw [run, hguarded, rounds, bind_of_ok (within_of_ok hattempt), bind_of_ok (within_of_ok hversion), if_pos rfl]
    rfl
  | error e =>
    rw [hlogs] at hask
    rw [bind_of_error hask] at hattempt
    refine ⟨⟨.error e, q.state, q.now, q.asked, q.retries⟩, fun limit => ?_, rfl, hwire⟩
    rw [run, hguarded, rounds, bind_of_error (within_of_error hattempt), blame_first]

end Query

/-! ## The command -/

/-- The state tells which requests were sent. A post sends its own and no other, as no answer is followed to another
URL, or it fails and sends none. -/
def Http.Transport.Direct (transport : Http.Transport σ) (requests : σ → List (String × String)) : Prop :=
  ∀ url body wire,
    let posted := transport url body wire
    requests posted.state = requests wire ++ [(url, body)] ∨
      requests posted.state = requests wire ∧ posted.delivery = .failed

theorem Http.Transport.Direct.sent {transport : Http.Transport σ} {requests : σ → List (String × String)}
    (h : transport.Direct requests) (url body : String) (wire : σ) :
    let posted := transport url body wire
    ∃ sent, requests posted.state = requests wire ++ sent ∧
      (sent = [(url, body)] ∨ sent = [] ∧ posted.delivery = .failed) := by
  rcases h url body wire with hsent | ⟨hsame, hfailed⟩
  · exact ⟨_, hsent, .inl rfl⟩
  · exact ⟨[], by rw [hsame, List.append_nil], .inr ⟨rfl, hfailed⟩⟩

namespace Gateway

open CommandLine (Wanted)

variable {transport : Http.Transport σ} {settings : Settings} {key : String} {wanted : Wanted} {metrics : Bool}
  {wire : σ}

theorem report_ok {outcome : Query.Outcome (Live σ)} {fetched : Fetched} (h : outcome.result = .ok fetched) :
    ∃ stderr, report metrics outcome = ⟨0, logLines fetched.logs, stderr, outcome.state.wire⟩ := by
  rw [report, h]
  exact ⟨_, rfl⟩

theorem report_error {outcome : Query.Outcome (Live σ)} {e : Error} (h : outcome.result = .error e) :
    ∃ stderr, report metrics outcome = ⟨1, "", stderr, outcome.state.wire⟩ := by
  rw [report, h]
  exact ⟨_, rfl⟩

/-- What the command does once it has the URL of the key. -/
theorem perform_logs (transport : Http.Transport σ) (settings : Settings) (key : String) (wanted : Wanted)
    (metrics : Bool) (wire : σ) :
    perform transport settings (.logs key wanted metrics) wire =
      let url := (settings.cluster.route key.toUTF8).1
      if url = "" then failed "no full node available; set FULLNODE_URLS or --nodes" none wire
      else
        match filterOf wanted with
        | .error (raw, fault) => failed s!"invalid block hash {raw}" (some fault.message) wire
        | .ok filter =>
          match fetch transport url settings.timeoutMs.toNat filter wire with
          | some outcome => report metrics outcome
          | none => failed Error.reorgTimeout.message none wire := rfl

/-- Without a node or a filter the command fails before anything is sent. -/
theorem perform_of_refused
    (hrefused : (settings.cluster.route key.toUTF8).1 = "" ∨ ∃ fault, filterOf wanted = .error fault) :
    ∃ stderr, perform transport settings (.logs key wanted metrics) wire = ⟨1, "", stderr, wire⟩ := by
  rw [perform_logs]
  by_cases hurl : (settings.cluster.route key.toUTF8).1 = ""
  · exact ⟨_, if_pos hurl⟩
  · obtain ⟨fault, hfault⟩ := hrefused.resolve_left hurl
    simp only [if_neg hurl, hfault]
    exact ⟨_, rfl⟩

/-- With both of them the reply to the one request decides. -/
theorem perform_of_filter {filter : LogFilter} (hurl : (settings.cluster.route key.toUTF8).1 ≠ "")
    (hfilter : filterOf wanted = .ok filter) :
    let posted := transport (settings.cluster.route key.toUTF8).1 ((Rpc.Question.logs filter).request 1) wire
    let ended := perform transport settings (.logs key wanted metrics) wire
    ended.wire = posted.state ∧
      ((ended.code = 0 ∧ ∃ logs, posted.Brings settings.timeoutMs.toNat logs ∧ ended.stdout = logLines logs) ∨
        (ended.code = 1 ∧ ended.stdout = "" ∧ ∀ logs, ¬posted.Brings settings.timeoutMs.toNat logs)) := by
  intro posted ended
  obtain ⟨outcome, hrun, hresult, hwire⟩ := Query.run_of_empty transport settings.timeoutMs.toNat filter
    (settings.cluster.route key.toUTF8).1 wire
  have hfetch : fetch transport (settings.cluster.route key.toUTF8).1 settings.timeoutMs.toNat filter wire =
    some outcome := hrun 0
  have hwire : outcome.state.wire = posted.state := hwire.trans (Http.Posted.within_state _ posted)
  have hended : ended = report metrics outcome := by
    simp only [ended, perform_logs, if_neg hurl, hfilter, hfetch]
  have hbrings (logs : List Log) := @Http.Posted.logs_within_eq_ok_iff σ posted settings.timeoutMs.toNat logs
  cases hlogs : (posted.within Rpc.Client.defaultLimit).logs settings.timeoutMs.toNat with
  | ok logs =>
    rw [hlogs] at hresult
    obtain ⟨stderr, hreport⟩ := report_ok hresult
    rw [hended, hreport]
    exact ⟨hwire, .inl ⟨rfl, logs, (hbrings logs).1 hlogs, rfl⟩⟩
  | error e =>
    rw [hlogs] at hresult
    obtain ⟨stderr, hreport⟩ := report_error hresult
    rw [hended, hreport]
    refine ⟨hwire, .inr ⟨rfl, rfl, fun logs h => ?_⟩⟩
    cases hlogs.symm.trans ((hbrings logs).2 h)

theorem exists_filterOf (h : ¬∃ fault, filterOf wanted = .error fault) : ∃ filter, filterOf wanted = .ok filter := by
  cases hfilter : filterOf wanted with
  | ok filter => exact ⟨filter, rfl⟩
  | error fault => exact absurd ⟨fault, hfilter⟩ h

theorem route_of_no_urls (hnone : settings.nodeUrls = []) : (settings.cluster.route key.toUTF8).1 = "" := by
  have hserving : settings.cluster.Serving [] := by
    rw [Settings.cluster, hnone]
    exact Cluster.serving_ofUrls _ _ _ fun _ h => absurd h List.not_mem_nil
  exact hserving.route_nil _

/-- The command succeeds and prints one line for each log of the reply, in order, or it fails and prints nothing; it
succeeds exactly if there is a node, the arguments ask for something and the reply brings logs. It sends one request at
most, to the URL of the key and for what the arguments ask, and none exactly if there is no node, the arguments have a
text that spells no block hash, or the request cannot be sent. -/
theorem logs_all_or_nothing {transport : Http.Transport σ} {requests : σ → List (String × String)}
    (hdirect : transport.Direct requests) (settings : Settings) (key : String) (wanted : Wanted) (metrics : Bool)
    (wire : σ) :
    let url := (settings.cluster.route key.toUTF8).1
    let ended := perform transport settings (.logs key wanted metrics) wire
    let Brings (body : String) := (transport url body wire).Brings settings.timeoutMs.toNat
    ∃ sent, requests ended.wire = requests wire ++ sent ∧
      ((ended.code = 0 ∧ ∃ body logs lines, Asks wanted body ∧ sent = [(url, body)] ∧ Brings body logs ∧
          ended.stdout.toList = lines.flatMap (· ++ ['\n']) ∧ List.Forall₂ Prints logs lines) ∨
        (ended.code = 1 ∧ ended.stdout = "")) ∧
      (ended.code = 0 ↔ url ≠ "" ∧ ∃ body logs, Asks wanted body ∧ Brings body logs) ∧
      (sent = [] ∨ ∃ body, Asks wanted body ∧ sent = [(url, body)]) ∧
      (sent = [] ↔ (url = "" ∨ ∃ raw, wanted = .block raw ∧ ¬∃ ds, Hash.Spelled raw.toList ds) ∨
        ∃ body, Asks wanted body ∧ requests (transport url body wire).state = requests wire) ∧
      (settings.nodeUrls = [] → url = "") := by
  intro url ended Brings
  rw [← filterOf_eq_error_iff]
  by_cases hrefused : url = "" ∨ ∃ fault, filterOf wanted = .error fault
  · obtain ⟨stderr, hended⟩ : ∃ stderr, ended = ⟨1, "", stderr, wire⟩ := perform_of_refused hrefused
    rw [hended]
    refine ⟨[], (List.append_nil _).symm, .inr ⟨rfl, rfl⟩, iff_of_false Nat.one_ne_zero ?_, .inl rfl,
      iff_of_true rfl (.inl hrefused), route_of_no_urls⟩
    rintro ⟨hurl, body, logs, hasks, -⟩
    obtain ⟨fault, hfault⟩ := hrefused.resolve_left hurl
    obtain ⟨filter, hfilter⟩ := hasks.filterOf
    cases hfault.symm.trans hfilter
  · obtain ⟨hurl, hfault⟩ := not_or.1 hrefused
    obtain ⟨filter, hfilter⟩ := exists_filterOf hfault
    have hasks := Asks.of_filterOf hfilter
    let body := (Rpc.Question.logs filter).request 1
    obtain ⟨sent, hstate, hsent⟩ := hdirect.sent url body wire
    obtain ⟨hwire, hends⟩ : ended.wire = (transport url body wire).state ∧ _ := perform_of_filter hurl hfilter
    refine ⟨sent, by rw [hwire, hstate], ?_, ?_, ?_, ?_, route_of_no_urls⟩
    · rcases hends with ⟨hcode, logs, hbrings, hstdout⟩ | ⟨hcode, hstdout, -⟩
      · have hlines := toList_logLines logs
        rw [← hstdout] at hlines
        exact .inl ⟨hcode, body, logs, logs.map Wire.log, hasks, hsent.resolve_right fun h => hbrings.delivered h.2,
          hbrings, hlines, forall₂_prints logs⟩
      · exact .inr ⟨hcode, hstdout⟩
    · rcases hends with ⟨hcode, logs, hbrings, -⟩ | ⟨hcode, -, hnone⟩
      · exact iff_of_true hcode ⟨hurl, body, logs, hasks, hbrings⟩
      · refine iff_of_false (by rw [hcode]; decide) ?_
        rintro ⟨-, other, logs, hother, hbrings⟩
        obtain rfl : other = body := hasks.unique hother
        exact hnone logs hbrings
    · rcases hsent with hsent | ⟨hsent, -⟩
      · exact .inr ⟨body, hasks, hsent⟩
      · exact .inl hsent
    · constructor
      · rintro rfl
        exact .inr ⟨body, hasks, by rw [hstate, List.append_nil]⟩
      · rintro (h | ⟨other, hother, hsame⟩)
        · exact absurd h hrefused
        · obtain rfl : other = body := hasks.unique hother
          exact List.append_right_eq_self.1 (hstate.symm.trans hsame)

/-- A reply with these logs as it may be written. -/
def replyWith (logs : List Log) : List Char :=
  Json.Write.object [("result", Wire.logs logs), ("error", Json.Write.null)]

theorem isResponse_replyWith (logs : List Log) : Rpc.IsResponse Wire.IsLogs (some logs) none (replyWith logs) :=
  Rpc.isResponse_written (Wire.isLogs_logs logs) rfl

theorem readLogs_replyWith (logs : List Log) :
    Rpc.readLogs (.reply 200 (some (Json.utf8 (replyWith logs)))) = .ok logs := by
  have hrun := ((isResponse_replyWith logs).reads fun _ _ => Wire.IsLogs.reads).run .none .none
  simp only [Json.Gap.none, List.nil_append, List.append_nil] at hrun
  have hresponse : Rpc.readResponse Wire.readLogs (Json.utf8 (replyWith logs)) = .ok (some logs) := by
    rw [Rpc.readResponse, hrun]
    rfl
  generalize Json.utf8 (replyWith logs) = bytes at hresponse
  rw [Rpc.readLogs, Rpc.body_of_not_error (by decide)]
  change (Rpc.readResponse Wire.readLogs _ >>= fun result => pure (result.getD [])) = _
  rw [hresponse]
  rfl

/-- A node that replies with these logs after so many milliseconds, and the requests that were sent to it. -/
def replying (delay : Nat) (logs : List Log) : Http.Transport (List (String × String)) := fun url body sent =>
  ⟨delay, .reply 200 (some (Json.utf8 (replyWith logs))), sent ++ [(url, body)]⟩

theorem replying_brings {delay timeoutMs : Nat} (hawaited : delay < 30000) (htimely : delay ≤ timeoutMs)
    (logs : List Log) (url body : String) (sent : List (String × String)) :
    (replying delay logs url body sent).Brings timeoutMs logs :=
  ⟨hawaited, htimely, readLogs_replyWith logs⟩

/-- Two logs are asked for by a range, or by a hash in upper case without a mark, and printed. A reply that takes longer
than the client waits is none, whatever the deadline, and without a node nothing is sent. -/
theorem logs_all_or_nothing_two :
    let later : Log := { Wire.bareLog with topics := [Vector.replicate 32 7], logIndex := 1 }
    let logs := [later, Wire.bareLog]
    let settings : Settings := ⟨["http://node:8545"], 60000, false, 0⟩
    let ranged := perform (replying 5 logs) settings (.logs "key" (.range (some 1) (some 255)) false) []
    let raw := "ABCDEF00000000000000000000000000000000000000000000000000000000FF"
    let hashed := perform (replying 5 logs) settings (.logs "key" (.block raw) false) []
    let slow := perform (replying 45000 logs) settings (.logs "key" (.range none none) false) []
    let nowhere := perform (replying 5 logs) { settings with nodeUrls := [] } (.logs "key" (.range none none) false) []
    (ranged.code = 0 ∧ ranged.stdout.toList = Wire.log later ++ '\n' :: Wire.log Wire.bareLog ++ ['\n'] ∧
      ranged.wire = [("http://node:8545", "\x7b\"jsonrpc\":\"2.0\",\"id\":1,\"method\":\"eth_getLogs\",\"params\":" ++
        "[\x7b\"fromBlock\":\"0x1\",\"toBlock\":\"0xff\"\x7d]\x7d")]) ∧
    hashed.wire = [("http://node:8545", "\x7b\"jsonrpc\":\"2.0\",\"id\":1,\"method\":\"eth_getLogs\",\"params\":" ++
        "[\x7b\"blockHash\":\"0xabcdef00000000000000000000000000000000000000000000000000000000ff\"\x7d]\x7d")] ∧
    (slow.code = 1 ∧ slow.stdout = "") ∧ nowhere.wire = [] := by
  intro later logs settings ranged raw hashed slow nowhere
  have hdirect (delay : Nat) : (replying delay logs).Direct id := fun _ _ _ => .inl rfl
  have hserving : settings.cluster.Serving ["http://node:8545"] := Cluster.serving_ofUrls _ _ _ (by decide)
  have hurl : (settings.cluster.route "key".toUTF8).1 = "http://node:8545" :=
    List.mem_singleton.1 (List.mem_of_find?_eq_some (hserving.firstOf_route (List.cons_ne_nil _ _) _))
  have hfetched {wanted : Wanted} {body : String} (hasks : Asks wanted body) :
      let ended := perform (replying 5 logs) settings (.logs "key" wanted false) []
      ended.code = 0 ∧ ended.stdout.toList = Wire.log later ++ '\n' :: Wire.log Wire.bareLog ++ ['\n'] ∧
        ended.wire = [("http://node:8545", body)] := by
    obtain ⟨sent, hsent, hends, hcode, -⟩ := logs_all_or_nothing (hdirect 5) settings "key" wanted false []
    have hbrings := replying_brings (by decide : 5 < 30000) (by decide : 5 ≤ settings.timeoutMs.toNat) logs
      (settings.cluster.route "key".toUTF8).1 body []
    have hcode := hcode.2 ⟨by rw [hurl]; decide, body, logs, hasks, hbrings⟩
    rcases hends with ⟨-, body', logs', lines, hasks', rfl, hbrings', hstdout, hlines⟩ | ⟨hfails, -⟩
    · obtain rfl : body' = body := hasks.unique hasks'
      obtain rfl : logs' = logs := Except.ok.inj (hbrings'.read.symm.trans hbrings.read)
      rw [hurl] at hsent
      refine ⟨hcode, ?_, hsent⟩
      rw [hstdout, eq_map_of_prints hlines]
      simp [logs]
    · cases hcode.symm.trans hfails
  have hspelled : Hash.Spelled raw.toList (10 :: 11 :: 12 :: 13 :: 14 :: 15 :: List.replicate 56 0 ++ [15, 15]) :=
    ⟨[], raw.toList, rfl, by simp, by decide +kernel, by decide⟩
  refine ⟨?_, ?_, ?_, ?_⟩
  · obtain ⟨hcode, hstdout, hwire⟩ := hfetched (.between 1 255)
    refine ⟨hcode, hstdout, hwire.trans ?_⟩
    decide +kernel
  · obtain ⟨-, -, hwire⟩ := hfetched (.block hspelled)
    refine hwire.trans ?_
    decide +kernel
  · obtain ⟨sent, -, hends, hcode, -⟩ := logs_all_or_nothing (hdirect 45000) settings "key" (.range none none) false []
    rcases hends with ⟨-, body, _, _, -, -, hbrings, -⟩ | hfails
    · have hawaited : 45000 < 30000 := hbrings.awaited
      exact absurd hawaited (by decide)
    · exact hfails
  · obtain ⟨sent, hsent, -, -, -, hnone, hnowhere⟩ :=
      logs_all_or_nothing (hdirect 5) { settings with nodeUrls := [] } "key" (.range none none) false []
    rw [hnone.2 (.inl (.inl (hnowhere rfl)))] at hsent
    exact hsent

end Gateway

end LogGateway
