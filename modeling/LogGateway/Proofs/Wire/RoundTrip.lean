/-
Logs and block summaries read back as they were written. A log is also read from every other object that holds the
texts of its fields: in any order, among members of any other names, and without the mark of removal when it is not
removed.
-/
import LogGateway.Proofs.Json.Objects
import LogGateway.Proofs.Wire.Values

namespace LogGateway.Wire

open LogGateway.Json

/-! ## Fields and their texts -/

namespace LogField

theorem name_injective : Function.Injective LogField.name := by
  intro f g h
  cases f <;> cases g <;> first | rfl | simp [LogField.name] at h

/-- A log's field. -/
def of (l : Log) : (f : LogField) → f.Value
  | .address => l.address
  | .topics => l.topics
  | .data => l.data
  | .blockHash => l.blockHash
  | .blockNumber => l.blockNumber
  | .transactionHash => l.transactionHash
  | .transactionIndex => l.transactionIndex
  | .logIndex => l.logIndex
  | .removed => l.removed

/-- How a log's field is written. -/
def chars (l : Log) : LogField → List Char
  | .address => fixed l.address
  | .topics => Write.list (l.topics.map fixed)
  | .data => bytes l.data
  | .blockHash => fixed l.blockHash
  | .blockNumber => quantity l.blockNumber
  | .transactionHash => fixed l.transactionHash
  | .transactionIndex => quantity l.transactionIndex
  | .logIndex => quantity l.logIndex
  | .removed => Write.boolean l.removed

theorem reads (l : Log) (f : LogField) : Reads f.read (f.chars l) (f.of l) := by
  cases f with
  | address | blockHash | transactionHash => exact reads_fixed _
  | topics => exact .list fun _ _ => reads_fixed _
  | data => exact reads_bytes _
  | blockNumber | transactionIndex | logIndex => exact reads_quantity _
  | removed => exact .boolean _

end LogField

/-- The texts of the fields are those of the written log. -/
theorem log_eq (l : Log) : log l = Write.object (logRecord.fields.map fun f => (f.name, f.chars l)) := rfl

theorem reads_log (l : Log) : Reads readLog (log l) l := by
  have hfields : logRecord.fields.Nodup := by decide
  have hrecord := Record.reads_written LogField.name_injective hfields (LogField.reads l)
  rw [log_eq]
  exact hrecord.map logOfFields

namespace SummaryField

theorem name_injective : Function.Injective SummaryField.name := by
  intro f g h
  cases f <;> cases g <;> first | rfl | simp [SummaryField.name] at h

/-- A block summary's field. -/
def of (b : BlockSummary) : (f : SummaryField) → f.Value
  | .hash => b.hash
  | .number => b.number
  | .parentHash => b.parentHash

/-- How a block summary's field is written. -/
def chars (b : BlockSummary) : SummaryField → List Char
  | .hash => fixed b.hash
  | .number => quantity b.number
  | .parentHash => fixed b.parentHash

theorem reads (b : BlockSummary) (f : SummaryField) : Reads f.read (f.chars b) (f.of b) := by
  cases f with
  | hash | parentHash => exact reads_fixed _
  | number => exact reads_quantity _

end SummaryField

/-- The texts of the fields are those of the written summary. -/
theorem summary_eq (b : BlockSummary) :
    summary b = Write.object (summaryRecord.fields.map fun f => (f.name, f.chars b)) := rfl

theorem reads_summary (b : BlockSummary) : Reads readSummary (summary b) b := by
  have hfields : summaryRecord.fields.Nodup := by decide
  have hrecord := Record.reads_written SummaryField.name_injective hfields (SummaryField.reads b)
  rw [summary_eq]
  exact hrecord.map summaryOfFields

/-! ## Objects that hold them -/

/-- The members of an object that holds a log: each field at most once, as it is written, and none left out but the
mark of removal of a log that is not removed. Under other names any well-formed value may stand. -/
def Holds (l : Log) : List Member → Prop :=
  Record.MembersOf LogField.name (fun f cs => cs = f.chars l) fun f => f = .removed ∧ l.removed = false

theorem Holds.presents {l : Log} {members : List Member} (h : Holds l members) :
    logRecord.Presents (fun f => LogField.of l f) members := by
  refine Record.MembersOf.presents h ?_ ?_
  · rintro f _ rfl
    exact f.reads l
  · rintro f ⟨rfl, hremoved⟩
    exact congrArg some hremoved.symm

theorem Holds.reads {l : Log} {members : List Member} (h : Holds l members) (opening : Gap) :
    Reads readLog (objectChars opening members) l :=
  (h.presents.reads LogField.name_injective opening).map logOfFields

/-! ## Whole texts -/

theorem run_chars {α : Type} {reader : Reader α} {cs : List Char} {a : α} (h : Reads reader cs a) :
    reader.run (Utf8.encode (String.ofList cs)) = .ok a := by
  have hrun := h.run .none .none
  rwa [Gap.none, List.nil_append, List.append_nil, ← encode_ofList] at hrun

/-- Logs, lists of logs and block summaries are read back as they were written, and a log from every object that
holds it, with gaps wherever they may stand. -/
theorem reads_back :
    (∀ l, readLog.run (Utf8.encode (String.ofList (log l))) = .ok l) ∧
    (∀ ls, readLogs.run (Utf8.encode (String.ofList (logs ls))) = .ok ls) ∧
    (∀ b, readSummary.run (Utf8.encode (String.ofList (summary b))) = .ok b) ∧
    (∀ l members (before opening after : Gap), Holds l members →
      readLog.run (Utf8.encode (String.ofList (before.chars ++ objectChars opening members ++ after.chars)))
        = .ok l) := by
  refine ⟨fun l => run_chars (reads_log l), fun ls => run_chars (.list fun l _ => reads_log l),
    fun b => run_chars (reads_summary b), fun l members before opening after hmembers => ?_⟩
  rw [encode_ofList]
  exact (hmembers.reads opening).run before after

/-- A log without topics and data. -/
def bareLog : Log where
  address := Vector.replicate 20 0
  topics := []
  data := []
  blockHash := Vector.replicate 32 0
  blockNumber := 255
  transactionHash := Vector.replicate 32 0
  transactionIndex := 0
  logIndex := 0
  removed := false

/-- An object that holds it: its fields in the reverse order, without the mark of removal and behind a nested value of
another name. -/
def bareMembers : List Member :=
  .compact "extra" "[\x7b\"a\":[-1.5]\x7d]".toList ::
    [LogField.logIndex, .transactionIndex, .transactionHash, .blockNumber, .blockHash, .data, .topics, .address].map
      fun f => .compact f.name (f.chars bareLog)

theorem bareMembers_holds : Holds bareLog bareMembers := by
  refine ⟨fun m hm f hf => ?_, fun m hm hextra => ?_, fun f => ?_, fun f hf => ?_⟩
  · rcases List.mem_cons.mp hm with rfl | hm
    · cases f <;> exact absurd hf (by decide)
    · obtain ⟨g, -, rfl⟩ := List.mem_map.mp hm
      obtain rfl : f = g := LogField.name_injective hf
      rfl
  · rcases List.mem_cons.mp hm with rfl | hm
    · have hnumber : Written ['-', '1', '.', '5'] :=
        @Written.number ['-'] ['1'] ['.', '5'] [] (by decide) (.digits ⟨by decide, by simp⟩ (by decide))
          (.digits ⟨by decide, by simp⟩) .none
      have hkey : Body ['a'] := .plain ⟨by decide, by decide, by decide⟩ .nil
      exact .list (.lastItem .none .none (.object (.lastMember .none .none .none .none hkey
        (.list (.lastItem .none .none (.number hnumber))))))
    · obtain ⟨g, -, rfl⟩ := List.mem_map.mp hm
      exact absurd rfl (hextra g)
  · cases f <;> decide
  · cases f with
    | removed => exact ⟨rfl, rfl⟩
    | _ => exact absurd hf (by decide)

theorem reads_back_reordered : Holds bareLog bareMembers ∧
    readLog.run (Utf8.encode (String.ofList (objectChars .none bareMembers))) = .ok bareLog := by
  obtain ⟨-, -, -, hobjects⟩ := reads_back
  refine ⟨bareMembers_holds, ?_⟩
  simpa [Gap.none] using hobjects bareLog bareMembers .none .none .none bareMembers_holds

end LogGateway.Wire
