/-
What the client makes of a reply. A status that tells of an error settles the matter; otherwise the body does, if it is
the object of a response, however its parts are ordered and spaced and whatever else stands among them: its error if it
has one, else its result. A body that breaks off inside the object or goes on behind it is refused.
-/
import LogGateway.Rpc.Client
import LogGateway.Proofs.Json.Closing
import LogGateway.Proofs.Json.Integers
import LogGateway.Proofs.Wire.RoundTrip

namespace LogGateway

open LogGateway.Json

/-! ## Texts of objects -/

section

variable {F : Type}

/-- The text is an object with fields of these names. -/
def IsObjectOf (name : F → String) (Text : F → List Char → Prop) (MayLack : F → Prop) (cs : List Char) : Prop :=
  ∃ (opening : Gap) (members : List Member), cs = objectChars opening members ∧
    Record.MembersOf name Text MayLack members

theorem IsObjectOf.head {name : F → String} {Text : F → List Char → Prop} {MayLack : F → Prop} {cs : List Char}
    (h : IsObjectOf name Text MayLack cs) : (utf8 cs).head? = some 0x7b := by
  obtain ⟨opening, members, rfl, -⟩ := h
  rfl

theorem IsObjectOf.reads [DecidableEq F] {R : Record F} {Text : F → List Char → Prop} {MayLack : F → Prop}
    {cs : List Char} {fields : R.Fields} (h : IsObjectOf R.name Text MayLack cs) (hname : Function.Injective R.name)
    (hread : ∀ f cs, Text f cs → Reads (R.read f) cs (fields f))
    (habsent : ∀ f, MayLack f → R.absent f = some (fields f)) : Reads R.reader cs fields := by
  obtain ⟨opening, members, rfl, hmembers⟩ := h
  exact (hmembers.presents hread habsent).reads hname opening

/-- An object as the writer writes it, with a member for each field. -/
theorem isObjectOf_written {name : F → String} (hname : Function.Injective name) {fs : List F} (hall : ∀ f, f ∈ fs)
    (hnodup : fs.Nodup) {Text : F → List Char → Prop} (MayLack : F → Prop) {texts : F → List Char}
    (htext : ∀ f, Text f (texts f)) :
    IsObjectOf name Text MayLack (Write.object (fs.map fun f => (name f, texts f))) := by
  refine ⟨.none, _, ?_, Record.membersOf_written hname hall hnodup MayLack htext⟩
  rw [object_eq, List.map_map]
  rfl

end

/-- The text spells this string between quotes. -/
def Quotes (s : String) (cs : List Char) : Prop := ∃ body, Spells body s.toList ∧ cs = '"' :: body ++ ['"']

/-- The text is `null` or stands for a value. -/
def OrNull {α : Type} (Is : α → List Char → Prop) : Option α → List Char → Prop
  | none, cs => cs = Write.null
  | some a, cs => Is a cs

theorem OrNull.reads {α β : Type} {Is : α → List Char → Prop} {reader : Reader β} {value : α → β}
    (h : ∀ a cs, Is a cs → Reads reader cs (value a) ∧ (utf8 cs).head? ≠ some 0x6e) {a : Option α} {cs : List Char}
    (ha : OrNull Is a cs) : Reads (optional reader) cs (a.map value) := by
  cases a with
  | none =>
    obtain rfl : cs = Write.null := ha
    exact .null reader
  | some a =>
    obtain ⟨hread, hfirst⟩ := h a cs ha
    exact hread.present hfirst

namespace Wire

/-! ## Results -/

/-- The text is an object that holds the log. -/
def IsLog (l : Log) (cs : List Char) : Prop :=
  ∃ (opening : Gap) (members : List Member), cs = objectChars opening members ∧ Holds l members

/-- The text is a list of such objects, with gaps between them. -/
def IsLogs (ls : List Log) (cs : List Char) : Prop :=
  ∃ (opening : Gap) (items : List (Item × Log)), cs = listChars opening (items.map Prod.fst) ∧
    items.map Prod.snd = ls ∧ ∀ i ∈ items, IsLog i.2 i.1.text

/-- The text is an object that holds the block summary. -/
def IsSummary (b : BlockSummary) : List Char → Prop :=
  IsObjectOf SummaryField.name (fun f cs => cs = f.chars b) fun _ => False

theorem IsLogs.reads {ls : List Log} {cs : List Char} (h : IsLogs ls cs) :
    Reads readLogs cs ls ∧ (utf8 cs).head? ≠ some 0x6e := by
  obtain ⟨opening, items, rfl, rfl, hitems⟩ := h
  refine ⟨.items (fun i hi => ?_) opening, by simp [listChars]⟩
  obtain ⟨opening, members, htext, hholds⟩ := hitems i hi
  rw [htext]
  exact hholds.reads opening

theorem IsSummary.reads {b : BlockSummary} {cs : List Char} (h : IsSummary b cs) :
    Reads readSummary cs b ∧ (utf8 cs).head? ≠ some 0x6e := by
  have hrecord : Reads summaryRecord.reader cs fun f => SummaryField.of b f := by
    refine IsObjectOf.reads h SummaryField.name_injective ?_ fun _ hfalse => hfalse.elim
    rintro f _ rfl
    exact f.reads b
  refine ⟨hrecord.map summaryOfFields, ?_⟩
  rw [IsObjectOf.head h]
  decide

theorem holds_written (l : Log) : Holds l (logRecord.fields.map fun f => .compact f.name (f.chars l)) := by
  have hfields : logRecord.fields.Nodup := by decide
  exact Record.membersOf_written LogField.name_injective logRecord.all_mem hfields _ fun f => rfl

/-- Logs as they are written are such a text. -/
theorem isLogs_logs (ls : List Log) : IsLogs ls (logs ls) := by
  refine ⟨.none, ls.map fun l => (.compact (log l), l), ?_, by simp [Function.comp_def], fun i hi => ?_⟩
  · simp [logs, list_eq, Function.comp_def]
  · obtain ⟨l, -, rfl⟩ := List.mem_map.mp hi
    refine ⟨.none, logRecord.fields.map fun f => .compact f.name (f.chars l), ?_, holds_written l⟩
    rw [log_eq, object_eq, List.map_map]
    rfl

/-- A block summary as it is written is such a text. -/
theorem isSummary_summary (b : BlockSummary) : IsSummary b (summary b) := by
  have hfields : summaryRecord.fields.Nodup := by decide
  rw [summary_eq]
  exact isObjectOf_written SummaryField.name_injective summaryRecord.all_mem hfields _ fun _ => rfl

theorem LogField.local_read (f : LogField) : Local f.read := by
  cases f with
  | address | blockHash | transactionHash => exact local_fixedBytes _
  | topics => exact (local_fixedBytes 32).list
  | data => exact local_anyBytes
  | blockNumber | transactionIndex | logIndex => exact local_parsed _
  | removed => exact local_boolean

theorem SummaryField.local_read (f : SummaryField) : Local f.read := by
  cases f with
  | hash | parentHash => exact local_fixedBytes _
  | number => exact local_parsed _

theorem local_readLogs : Local readLogs := ((Record.local_reader LogField.local_read).map logOfFields).list

theorem local_readSummary : Local readSummary := (Record.local_reader SummaryField.local_read).map summaryOfFields

end Wire

namespace Rpc

/-! ## Responses -/

namespace ErrorField

def name : ErrorField → String
  | .code => "code"
  | .message => "message"

theorem name_injective : Function.Injective ErrorField.name := by
  intro f g h
  cases f <;> cases g <;> first | rfl | simp [ErrorField.name] at h

/-- A field of the error with this code and message. -/
def Text (code : Int64) (message : String) : ErrorField → List Char → Prop
  | .code, cs => cs = integerChars code.toInt
  | .message, cs => Quotes message cs

end ErrorField

/-- The text is an object that tells of an error with this code and message. -/
def IsError (error : Int64 × String) : List Char → Prop :=
  IsObjectOf ErrorField.name (ErrorField.Text error.1 error.2) fun _ => False

theorem IsError.reads {error : Int64 × String} {cs : List Char} (h : IsError error cs) :
    Reads readError cs (.rpc error.1 error.2) ∧ (utf8 cs).head? ≠ some 0x6e := by
  have hrecord : Reads errorRecord.reader cs fun
      | .code => error.1
      | .message => error.2 := by
    refine IsObjectOf.reads h ErrorField.name_injective (fun f cs hcs => ?_) fun _ hfalse => hfalse.elim
    cases f with
    | code =>
      obtain rfl : cs = _ := hcs
      exact .int64 error.1
    | message =>
      obtain ⟨body, hspells, rfl⟩ : Quotes error.2 cs := hcs
      have hstring := Reads.string hspells
      rwa [String.ofList_toList] at hstring
  refine ⟨hrecord.map _, ?_⟩
  rw [IsObjectOf.head h]
  decide

namespace ResponseField

def name : ResponseField → String
  | .result => "result"
  | .error => "error"

theorem name_injective : Function.Injective ResponseField.name := by
  intro f g h
  cases f <;> cases g <;> first | rfl | simp [ResponseField.name] at h

variable {α : Type} (IsResult : α → List Char → Prop) (result : Option α) (error : Option (Int64 × String))

/-- A field of the response with this result and this error. -/
def Text : ResponseField → List Char → Prop
  | .result, cs => OrNull IsResult result cs
  | .error, cs => OrNull IsError error cs

/-- A field may be left out that would be `null`. -/
def MayLack : ResponseField → Prop
  | .result => result = none
  | .error => error = none

end ResponseField

/-- The text is the object of a response with this result, if any, and this error, if any. -/
def IsResponse {α : Type} (IsResult : α → List Char → Prop) (result : Option α) (error : Option (Int64 × String)) :
    List Char → Prop :=
  IsObjectOf ResponseField.name (ResponseField.Text IsResult result error) (ResponseField.MayLack result error)

section

variable {α : Type} {reader : Reader α} {IsResult : α → List Char → Prop} {result : Option α}
  {error : Option (Int64 × String)} {cs : List Char}

theorem IsResponse.reads (h : IsResponse IsResult result error cs)
    (hresult : ∀ a cs, IsResult a cs → Reads reader cs a ∧ (utf8 cs).head? ≠ some 0x6e) :
    Reads (responseRecord reader).reader cs fun
      | .result => result
      | .error => error.map fun e => .rpc e.1 e.2 := by
  refine IsObjectOf.reads h ResponseField.name_injective (fun f cs hcs => ?_) fun f hf => ?_
  · cases f with
    | result =>
      have hread : Reads (optional reader) cs (result.map id) := OrNull.reads hresult hcs
      rwa [Option.map_id] at hread
    | error =>
      have herror : OrNull IsError error cs := hcs
      exact herror.reads fun _ _ he => he.reads
  · cases f with
    | result =>
      obtain rfl : result = none := hf
      rfl
    | error =>
      obtain rfl : error = none := hf
      rfl

theorem closes_response (h : Local reader) : Closes (responseRecord reader).reader := by
  refine Record.closes_reader fun f => ?_
  cases f with
  | result => exact h.optional
  | error =>
    refine ((Record.local_reader fun f => ?_).map _).optional
    cases f with
    | code => exact local_int64
    | message => exact local_string

end

/-! ## Replies -/

/-- The answer that a response gives: its error if it has one, else what its result says. -/
def answer {β : Type} (error : Option (Int64 × String)) (value : β) : Except Error β :=
  match error with
  | some (code, message) => .error (.rpc code message)
  | none => .ok value

/-- What a reader of replies makes of this status and of bodies that begin with this text: blanks around it do not
matter, and nothing is made of a body that breaks off before its end or that goes on behind it. -/
structure Settles {β : Type} (read : Http.Delivery → Except Error β) (status : Nat) (text : List Char)
    (outcome : Except Error β) : Prop where
  whole : ∀ before after : Gap, read (.reply status (some (utf8 (before.chars ++ text ++ after.chars)))) = outcome
  cut : ∀ (before : Gap) (part more : List UInt8), part ++ more = utf8 (before.chars ++ text) → more ≠ [] →
    ∃ fault, read (.reply status (some part)) = .error (.json fault)
  followed : ∀ (before : Gap) (more : List UInt8), (∃ b ∈ more, isBlank b = false) →
    read (.reply status (some (utf8 (before.chars ++ text) ++ more))) = .error (.json .malformed)

section

variable {α β : Type} {reader : Reader α} {IsResult : α → List Char → Prop} {result : Option α}
  {error : Option (Int64 × String)} {text : List Char} {status : Nat}

theorem body_of_not_error (hstatus : ¬(400 ≤ status ∧ status < 600)) (bytes : List UInt8) :
    Http.Delivery.body (.reply status (some bytes)) = .ok bytes := by
  simp only [Http.Delivery.body, if_neg hstatus]

/-- A reader of replies settles what it does by reading a response and passing on its result. -/
theorem settles_response (h : IsResponse IsResult result error text)
    (hresult : ∀ a cs, IsResult a cs → Reads reader cs a ∧ (utf8 cs).head? ≠ some 0x6e) (hlocal : Local reader)
    {read : Http.Delivery → Except Error β} (pass : Option α → β)
    (hread : ∀ bytes, read (.reply status (some bytes)) = (readResponse reader bytes).map pass) :
    Settles read status text (answer error (pass result)) := by
  have hreads := h.reads hresult
  have hcloses := closes_response hlocal
  have hwhole (before : Gap) :
      ∃ fields, (responseRecord reader).reader (utf8 (before.chars ++ text)) = .ok fields [] := by
    have hread := hreads.reads before [] rfl
    rw [List.append_nil, ← utf8_append] at hread
    exact ⟨_, hread⟩
  refine ⟨fun before after => ?_, fun before part more hpart hmore => ?_, fun before more hmore => ?_⟩
  · rw [hread, readResponse, hreads.run before after]
    cases error with
    | none => rfl
    | some error => rfl
  · obtain ⟨fields, hfields⟩ := hwhole before
    rw [← hpart] at hfields
    obtain ⟨fault, hfault⟩ := hcloses.cut hmore hfields
    refine ⟨fault, ?_⟩
    rw [hread, readResponse, hfault]
    rfl
  · obtain ⟨fields, hfields⟩ := hwhole before
    rw [hread, readResponse, hcloses.followed hmore hfields]
    rfl

end

/-- A status from 400 to 599 is an error whatever the body. With any other status the body counts: an error in it is
passed on even beside a result; without one the result is passed on, no logs and no block standing for a missing one;
and a body that is cut short or goes on is refused. The results that are read include all that can be written. -/
theorem replies_read :
    (∀ status body, 400 ≤ status ∧ status < 600 →
      readLogs (.reply status body) = .error (.http (some status)) ∧
      readBlock (.reply status body) = .error (.http (some status))) ∧
    (∀ status, ¬(400 ≤ status ∧ status < 600) →
      (∀ logs error text, IsResponse Wire.IsLogs logs error text →
        Settles readLogs status text (answer error (logs.getD []))) ∧
      (∀ block error text, IsResponse Wire.IsSummary block error text →
        Settles readBlock status text (answer error block))) ∧
    (∀ logs, Wire.IsLogs logs (Wire.logs logs)) ∧ (∀ block, Wire.IsSummary block (Wire.summary block)) := by
  refine ⟨fun status body hstatus => ?_,
    fun status hstatus => ⟨fun logs error text h => ?_, fun block error text h => ?_⟩,
    Wire.isLogs_logs, Wire.isSummary_summary⟩
  · have hbody : Http.Delivery.body (.reply status body) = .error (.http (some status)) := by
      simp only [Http.Delivery.body, if_pos hstatus]
    simp only [readLogs, readBlock, hbody]
    exact ⟨rfl, rfl⟩
  · refine settles_response h (fun _ _ => Wire.IsLogs.reads) Wire.local_readLogs (fun logs => logs.getD [])
      fun bytes => ?_
    rw [readLogs, body_of_not_error hstatus]
    change (readResponse Wire.readLogs bytes >>= fun logs => pure (logs.getD [])) = _
    cases readResponse Wire.readLogs bytes <;> rfl
  · refine settles_response h (fun _ _ => Wire.IsSummary.reads) Wire.local_readSummary id fun bytes => ?_
    rw [readBlock, body_of_not_error hstatus]
    change readResponse Wire.readSummary bytes = _
    cases readResponse Wire.readSummary bytes <;> rfl

/-- An error as it would be written. -/
def errorChars (error : Int64 × String) : List Char :=
  Write.object [("code", integerChars error.1.toInt), ("message", Write.text error.2.toList)]

theorem isError_errorChars (error : Int64 × String) : IsError error (errorChars error) := by
  have hobject : IsError error (Write.object (errorRecord.fields.map fun f => (f.name, match f with
      | .code => integerChars error.1.toInt
      | .message => Write.text error.2.toList))) := by
    refine isObjectOf_written ErrorField.name_injective errorRecord.all_mem (by decide) _ fun f => ?_
    cases f with
    | code => rfl
    | message => exact ⟨_, spells_escaped _, rfl⟩
  exact hobject

/-- A response as it would be written, its result before its error. -/
theorem isResponse_written {α : Type} {IsResult : α → List Char → Prop} {result : Option α}
    {error : Option (Int64 × String)} {resultText errorText : List Char} (hresult : OrNull IsResult result resultText)
    (herror : OrNull IsError error errorText) :
    IsResponse IsResult result error (Write.object [("result", resultText), ("error", errorText)]) := by
  have hobject : IsResponse IsResult result error
      (Write.object ([ResponseField.result, .error].map fun f => (f.name, match f with
        | .result => resultText
        | .error => errorText))) := by
    refine isObjectOf_written ResponseField.name_injective (by intro f; cases f <;> simp) (by decide) _ fun f => ?_
    cases f with
    | result => exact hresult
    | error => exact herror
  exact hobject

/-- A response with a list of one log and, behind it, an error. -/
def refusalBesideLogs : List Char :=
  Write.object [("result", Wire.logs [Wire.bareLog]), ("error", errorChars (-32005, "limit"))]

theorem isResponse_refusalBesideLogs :
    IsResponse Wire.IsLogs (some [Wire.bareLog]) (some (-32005, "limit")) refusalBesideLogs :=
  isResponse_written (Wire.isLogs_logs _) (isError_errorChars _)

theorem replies_read_refusal :
    readLogs (.reply 200 (some (utf8 refusalBesideLogs))) = .error (.rpc (-32005) "limit") := by
  obtain ⟨-, hread, -⟩ := replies_read
  have hsettles := (hread 200 (by decide)).1 _ _ _ isResponse_refusalBesideLogs
  simpa [Gap.none, answer] using hsettles.whole .none .none

/-- Statuses from 600 on are no errors. -/
theorem not_all_high_statuses_fail :
    ¬∀ status body, 400 ≤ status → readLogs (.reply status body) = .error (.http (some status)) := by
  intro hfail
  have hread : readLogs (.reply 600 (some (utf8 ['\x7b', '\x7d']))) = .ok [] := rfl
  rw [hfail 600 _ (by decide)] at hread
  cases hread

end Rpc

end LogGateway
