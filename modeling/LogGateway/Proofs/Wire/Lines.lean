/-
Logs as lines. Whatever bytes a log has, its text has no line end in it, as the writer escapes all control characters.
So what is printed for logs are the texts of the logs, one line for each, from which they are read back.
-/
import LogGateway.Gateway
import LogGateway.Proofs.Wire.Filters
import LogGateway.Proofs.Wire.RoundTrip
import Mathlib.Data.List.Forall2

namespace LogGateway

/-! ## Texts on one line -/

namespace Json.Write

theorem not_mem_escaped (c : Char) : '\n' ∉ escaped c := by
  by_cases hline : c = '\n'
  · subst hline
    decide
  · unfold escaped
    repeat' split
    all_goals simp [Ne.symm hline]

theorem not_mem_text (cs : List Char) : '\n' ∉ text cs := by
  have hbody : '\n' ∉ cs.flatMap escaped := by
    intro hin
    obtain ⟨c, -, hc⟩ := List.mem_flatMap.1 hin
    exact not_mem_escaped c hc
  simp [text, hbody]

theorem not_mem_commaSeparated {parts : List (List Char)} (h : ∀ part ∈ parts, '\n' ∉ part) :
    '\n' ∉ commaSeparated parts := by
  induction parts using commaSeparated.induct with
  | case1 => exact List.not_mem_nil
  | case2 part => exact h part (List.mem_singleton_self part)
  | case3 part parts hne ih =>
    obtain ⟨hpart, hparts⟩ := List.forall_mem_cons.1 h
    rw [commaSeparated.eq_3 _ _ hne]
    simp [hpart, ih hparts]

theorem not_mem_list {items : List (List Char)} (h : ∀ item ∈ items, '\n' ∉ item) : '\n' ∉ list items := by
  simp [list, not_mem_commaSeparated h]

theorem not_mem_object {members : List (String × List Char)} (h : ∀ m ∈ members, '\n' ∉ m.2) :
    '\n' ∉ object members := by
  unfold object
  simp only [List.cons_append, List.mem_cons, List.mem_append, List.not_mem_nil, or_false, not_or]
  refine ⟨by decide, not_mem_commaSeparated fun part hpart => ?_, by decide⟩
  obtain ⟨m, hm, rfl⟩ := List.mem_map.1 hpart
  have hkey := not_mem_text m.1.toList
  have hvalue := h m hm
  simp [member, hkey, hvalue]

theorem not_mem_boolean (value : Bool) : '\n' ∉ boolean value := by cases value <;> decide

end Json.Write

/-- What was written stands on one line. -/
theorem Json.Compact.unbroken {depth : Nat} {cs : List Char} (h : Json.Compact depth cs) : '\n' ∉ cs := by
  induction h with
  | null => decide
  | boolean _ value => exact Write.not_mem_boolean value
  | @nat _ n =>
    intro hin
    cases (digits_toDigits n).2 _ hin
  | text _ cs => exact Write.not_mem_text cs
  | list _ ih => exact Write.not_mem_list ih
  | object _ ih => exact Write.not_mem_object ih

namespace Wire

theorem compact_log (depth : Nat) (l : Log) : Json.Compact (depth + 2) (log l) := by
  refine .object ?_
  simp only [List.forall_mem_cons]
  exact ⟨.text _ _, compact_fixedList depth _, .text _ _, .text _ _, .text _ _, .text _ _, .text _ _, .text _ _,
    .boolean _ _, fun _ h => absurd h List.not_mem_nil⟩

end Wire

/-! ## One line for each log -/

namespace Gateway

/-- The line is the log as it travels: a sound JSON text that is read as that log. -/
structure Prints (log : Log) (line : List Char) : Prop where
  written : line = Wire.log log
  sound : Json.check (Json.utf8 line) = none
  readBack : Wire.readLog.run (Json.utf8 line) = .ok log
  unbroken : '\n' ∉ line

theorem prints_log (log : Log) : Prints log (Wire.log log) := by
  have hcompact : Json.Compact Json.depthLimit (Wire.log log) := Wire.compact_log 125 log
  refine ⟨rfl, hcompact.check_eq_none, ?_, hcompact.unbroken⟩
  rw [← Json.encode_ofList]
  exact Wire.run_chars (Wire.reads_log log)

theorem forall₂_prints (logs : List Log) : List.Forall₂ Prints logs (logs.map Wire.log) :=
  List.forall₂_map_right_iff.2 (List.forall₂_same.2 fun log _ => prints_log log)

theorem eq_map_of_prints {logs : List Log} {lines : List (List Char)} (h : List.Forall₂ Prints logs lines) :
    lines = logs.map Wire.log := by
  induction h with
  | nil => rfl
  | cons hline _ ih => rw [hline.written, ih, List.map_cons]

theorem toList_logLines (logs : List Log) :
    (logLines logs).toList = (logs.map Wire.log).flatMap (· ++ ['\n']) := by
  simp [logLines, String.toList_join, List.flatMap_map]

end Gateway

end LogGateway
