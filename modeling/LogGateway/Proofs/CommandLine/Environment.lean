/-
A command line without the options that configure the cluster, against the settings that the environment gives by
itself. Both read the same variables, with different readers; where both accept them they agree, but for a number of
virtual nodes of zero, which the settings replace by the default and the command line does not.
-/
import LogGateway.CommandLine
import LogGateway.Proofs.Settings
import Mathlib.Control.Monad.Basic

namespace LogGateway

/-! ## Values without blanks -/

namespace Text

theorem trim_of_not_blank {s : String} (h : ∀ c ∈ s.toList, isBlank c = false) : trim s = s := by
  rw [trim, (trimmed_of_not_blank h).trimChars_eq, String.ofList_toList]

end Text

namespace Number

theorem not_blank_of_digitValue {base d : Nat} {c : Char} (h : digitValue base c = some d) :
    Text.isBlank c = false := by
  have hnat {a b : Char} (hc : a ≤ c ∧ c ≤ b) : a.toNat ≤ c.toNat ∧ c.toNat ≤ b.toNat :=
    ⟨UInt32.le_iff_toNat_le.mp hc.1, UInt32.le_iff_toNat_le.mp hc.2⟩
  have hrange : (48 ≤ c.toNat ∧ c.toNat ≤ 57) ∨ (97 ≤ c.toNat ∧ c.toNat ≤ 102) ∨ (65 ≤ c.toNat ∧ c.toNat ≤ 70) := by
    by_cases hdigit : '0' ≤ c ∧ c ≤ '9'
    · exact .inl (hnat hdigit)
    by_cases hlower : 'a' ≤ c ∧ c ≤ 'f'
    · exact .inr (.inl (hnat hlower))
    by_cases hupper : 'A' ≤ c ∧ c ≤ 'F'
    · exact .inr (.inr (hnat hupper))
    · simp [digitValue, if_neg hdigit, if_neg hlower, if_neg hupper] at h
  simp [Text.isBlank]
  omega

theorem not_blank_of_readDigits {base value n : Nat} {cs : List Char} (h : readDigits base value cs = .ok n) :
    ∀ c ∈ cs, Text.isBlank c = false := by
  induction cs generalizing value with
  | nil => exact fun c hc => absurd hc List.not_mem_nil
  | cons c cs ih =>
    rw [readDigits] at h
    cases hc : digitValue base c with
    | none => simp [hc] at h
    | some d =>
      simp only [hc] at h
      split at h
      · exact List.forall_mem_cons.mpr ⟨not_blank_of_digitValue hc, ih h⟩
      · cases h

/-- A decimal number has no blanks around it. -/
theorem trim_of_decimal? {raw : String} {n : UInt64} (h : decimal? raw = some n) : Text.trim raw = raw := by
  have hok {cs : List Char} (hread : ((readDigits 10 0 cs).map Nat.toUInt64).toOption = some n) :
      ∀ c ∈ cs, Text.isBlank c = false := by
    cases hdigits : readDigits 10 0 cs with
    | ok value => exact not_blank_of_readDigits hdigits
    | error fault =>
      rw [hdigits] at hread
      cases hread
  refine Text.trim_of_not_blank ?_
  unfold decimal? readWord at h
  split at h
  · cases h
  · cases h
  · rename_i cs hsign
    rw [hsign]
    exact List.forall_mem_cons.mpr ⟨rfl, hok h⟩
  · exact hok h

end Number

namespace Settings

theorem parseNumber_of_decimal? {raw : String} {n : UInt64} (h : Number.decimal? raw = some n) :
    parseNumber raw = some n := by
  rw [parseNumber, Number.trim_of_decimal? h, h]

/-- A blank is the same in lower case. -/
theorem toLower_of_blank {c : Char} (h : Text.isBlank c = true) : c.toLower = c := by
  refine (Text.toLower_cases c).resolve_right ?_
  rintro ⟨hlow, hhigh, -⟩
  simp [Text.isBlank] at h
  omega

theorem trim_of_boolish? {raw : String} {b : Bool} (h : CommandLine.boolish? raw = some b) : Text.trim raw = raw := by
  have hword : raw.map Char.toLower ∈ ["y", "yes", "t", "true", "on", "1", "n", "no", "f", "false", "off", "0"] := by
    simp only [CommandLine.boolish?, List.contains_iff_mem] at h
    split at h
    · rename_i hyes
      exact List.mem_append_left ["n", "no", "f", "false", "off", "0"] hyes
    split at h
    · rename_i hno
      exact List.mem_append_right ["y", "yes", "t", "true", "on", "1"] hno
    · cases h
  have hplain : (["y", "yes", "t", "true", "on", "1", "n", "no", "f", "false", "off", "0"].all fun word =>
      word.toList.all fun c => !Text.isBlank c) = true := by decide
  refine Text.trim_of_not_blank fun c hc => ?_
  have hin : c.toLower ∈ (raw.map Char.toLower).toList := by
    rw [String.toList_map]
    exact List.mem_map_of_mem hc
  have hlower := List.all_eq_true.mp (List.all_eq_true.mp hplain _ hword) _ hin
  cases hblank : Text.isBlank c with
  | false => rfl
  | true =>
    rw [toLower_of_blank hblank, hblank] at hlower
    cases hlower

/-- A word that both accept as a flag is the same flag to both. -/
theorem parseFlag_of_boolish? {raw : String} {b flag : Bool} (hb : CommandLine.boolish? raw = some b)
    (hflag : parseFlag raw = some flag) : b = flag := by
  simp only [parseFlag, trim_of_boolish? hb, List.contains_iff_mem] at hflag
  simp only [CommandLine.boolish?] at hb
  generalize raw.map Char.toLower = word at hb hflag
  split at hflag
  · rename_i hyes
    cases hflag
    simp only [List.mem_cons, List.not_mem_nil, or_false] at hyes
    rcases hyes with rfl | rfl | rfl | rfl <;> simpa using hb.symm
  split at hflag
  · rename_i hno
    cases hflag
    simp only [List.mem_cons, List.not_mem_nil, or_false] at hno
    rcases hno with rfl | rfl | rfl | rfl <;> simpa using hb.symm
  · cases hflag

end Settings

namespace CommandLine

open Given (Stop)

/-! ## Options that are not given -/

/-- The options that configure the cluster and its queries. -/
def Switch.configuring : List Switch := [.nodes, .timeoutMs, .virtualNodes, .repartition]

/-- The word gives one of them. -/
def Configures (word : String) : Prop :=
  ∃ switch ∈ Switch.configuring, ∃ value, Word.ofString word = .long switch.long value

/-- None of them was given. -/
structure Given.Bare (given : Given) : Prop where
  nodes : given.nodes = none
  timeoutMs : given.timeoutMs = none
  virtualNodes : given.virtualNodes = none
  repartition : given.repartition = none

/-- None of them was given, and none waits for its value. -/
structure Scan.Bare (scan : Scan) : Prop where
  given : scan.given.Bare
  pending : ∀ switch, scan.pending = some switch → switch ∉ Switch.configuring

theorem of_bind_ok {α β : Type} {x : Except Stop α} {f : α → Except Stop β} {b : β} (h : (x >>= f) = .ok b) :
    ∃ a, x = .ok a ∧ f a = .ok b := by
  cases x with
  | error stop => cases h
  | ok a => exact ⟨a, rfl, h⟩

/-- Any other option leaves them as they are. -/
theorem Given.Bare.give {given given' : Given} {switch : Switch} {value : String} (h : given.Bare)
    (hswitch : switch ∉ Switch.configuring) (hgive : given.give switch value = .ok given') : given'.Bare := by
  have hkept {α : Type} {x : Except Stop α} {set : α → Given} (hset : ∀ a, (set a).Bare)
      (hx : (x >>= fun a => pure (set a)) = .ok given') : given'.Bare := by
    obtain ⟨a, -, hpure⟩ := of_bind_ok hx
    cases hpure
    exact hset a
  cases switch with
  | nodes | timeoutMs | virtualNodes | repartition => exact absurd (by decide) hswitch
  | version | help => cases hgive
  | verbose | key | samples | first | last | blockHash | metrics =>
    simp only [Given.give] at hgive
    refine hkept ?_ hgive
    exact fun _ => ⟨h.nodes, h.timeoutMs, h.virtualNodes, h.repartition⟩

theorem Given.Bare.take {given : Given} {switch : Switch} {attached : Option String} {scan : Scan} (h : given.Bare)
    (hswitch : switch ∉ Switch.configuring) (htake : Scan.take given switch attached = .ok scan) : scan.Bare := by
  have hgiven {value : String} (hmap : (given.give switch value).map (fun given => Scan.mk given none) = .ok scan) :
      scan.Bare := by
    cases hgive : given.give switch value with
    | error stop =>
      rw [hgive] at hmap
      cases hmap
    | ok given' =>
      rw [hgive] at hmap
      cases hmap
      exact ⟨h.give hswitch hgive, fun _ hnone => nomatch hnone⟩
  unfold Scan.take at htake
  split at htake
  · split at htake
    · exact hgiven htake
    · cases htake
      refine ⟨h, fun switch' hsome => ?_⟩
      obtain rfl := Option.some.inj hsome
      exact hswitch
  · split at htake
    · cases htake
    · exact hgiven htake

/-- None of them has a one-letter form. -/
theorem ofShort?_not_configuring {level : Option Command} {c : Char} {switch : Switch}
    (h : Switch.ofShort? level c = some switch) : switch ∉ Switch.configuring := by
  have hshort := List.find?_some h
  rw [decide_eq_true_eq] at hshort
  intro hmem
  have hnone : ∀ switch ∈ Switch.configuring, switch.short? = none := by decide
  rw [hnone switch hmem] at hshort
  cases hshort

theorem takeLetters_bare {level : Option Command} {letters : List Char} {given : Given} {scan : Scan} (h : given.Bare)
    (htake : takeLetters level given letters = .ok scan) : scan.Bare := by
  induction letters generalizing given with
  | nil =>
    cases htake
    exact ⟨h, fun _ hnone => nomatch hnone⟩
  | cons c cs ih =>
    unfold takeLetters at htake
    cases hswitch : Switch.ofShort? level c with
    | none =>
      rw [hswitch] at htake
      cases htake
    | some switch =>
      have hother := ofShort?_not_configuring hswitch
      simp only [hswitch] at htake
      split at htake
      · split at htake <;> exact h.take hother htake
      · cases hgive : given.give switch "" with
        | error stop =>
          rw [hgive] at htake
          cases htake
        | ok given' =>
          rw [hgive] at htake
          exact ih (h.give hother hgive) htake

theorem takeWord_bare {level : Option Command} {scan scan' : Scan} {word : String} (h : scan.Bare)
    (hword : ¬Configures word) (htake : takeWord level scan word = .ok scan') : scan'.Bare := by
  unfold takeWord at htake
  split at htake
  · rename_i switch _ hpending
    cases hgive : scan.given.give switch word with
    | error stop =>
      rw [hgive] at htake
      cases htake
    | ok given =>
      rw [hgive] at htake
      cases htake
      exact ⟨h.given.give (h.pending switch hpending) hgive, fun _ hnone => nomatch hnone⟩
  · rename_i name attached hlong _
    cases hswitch : Switch.ofLong? level name with
    | none =>
      rw [hswitch] at htake
      cases htake
    | some switch =>
      rw [hswitch] at htake
      have hname := List.find?_some hswitch
      rw [decide_eq_true_eq] at hname
      refine h.given.take (fun hmem => hword ⟨switch, hmem, attached, ?_⟩) htake
      rw [hlong, hname]
  · exact takeLetters_bare h.given htake
  · cases htake

/-- Over words that give none of them none is given. By induction on the words; those left after the command are among
them. -/
theorem takeWords_bare {level : Option Command} {words : List String} (hwords : ∀ word ∈ words, ¬Configures word)
    {scan : Scan} (h : scan.Bare) {given : Given} {command : Option (Command × List String)}
    (htake : takeWords level scan words = .ok (given, command)) :
    given.Bare ∧ ∀ c rest, command = some (c, rest) → ∀ word ∈ rest, ¬Configures word := by
  induction words generalizing scan with
  | nil =>
    unfold takeWords at htake
    split at htake
    · cases htake
      exact ⟨h.given, fun _ _ hnone => nomatch hnone⟩
    · cases htake
  | cons word words ih =>
    obtain ⟨hword, hwords⟩ := List.forall_mem_cons.mp hwords
    unfold takeWords at htake
    split at htake
    · cases htake
      refine ⟨h.given, fun c rest hsome => ?_⟩
      cases hsome
      exact hwords
    split at htake
    · cases htake
    split at htake
    · split at htake
      · cases htake
        exact ⟨h.given, fun _ _ hnone => nomatch hnone⟩
      · cases htake
    · split at htake
      · cases htake
      · rename_i scan' hstep
        exact ih hwords (takeWord_bare h hword hstep) htake

/-! ## Their variables -/

/-- An option that is not given has the value of its variable, if that is set. -/
theorem choose_none {α : Type} {env : Environment} {name : String} {read : String → Option α} {value : Option α}
    (h : choose env name read none none = .ok value) :
    (env.text? name = none ∧ value = none) ∨
      ∃ raw a, env.text? name = some raw ∧ read raw = some a ∧ value = some a := by
  unfold choose at h
  simp only [Option.isSome_none, Bool.and_self, Bool.false_eq_true, if_false, Option.or_none] at h
  unfold Environment.text?
  cases hraw : env name with
  | none =>
    rw [hraw] at h
    cases h
    exact .inl ⟨rfl, rfl⟩
  | some bytes =>
    simp only [hraw, Option.none_or] at h
    split at h
    · cases h
    · rename_i a hread
      cases h
      obtain ⟨raw, hdecode, hread⟩ := Option.bind_eq_some_iff.mp hread
      exact .inr ⟨raw, a, hdecode, hread, rfl⟩

/-- Where both readers of a variable agree the option changes nothing. -/
theorem getD_of_choose {α : Type} {env : Environment} {name : String} {read read' : String → Option α} {unset a : α}
    {value : Option α} (hchoose : choose env name read none none = .ok value)
    (hgiven : Settings.given? env name read' unset = some a)
    (hsame : ∀ raw b c, read raw = some b → read' raw = some c → b = c) : value.getD a = a := by
  obtain ⟨-, rfl⟩ | ⟨raw, b, hraw, hread, rfl⟩ := choose_none hchoose
  · rfl
  · rw [Settings.given?, hraw] at hgiven
    exact hsame raw b a hread hgiven

/-- The nodes of the variable are the same to both. -/
theorem nodes_of_choose {env : Environment} {value : Option (List String)}
    (h : choose env "FULLNODE_URLS" (fun raw => some (Text.splitAt ',' raw)) none none = .ok value) :
    Settings.nonBlank (value.getD []) = ((env.text? "FULLNODE_URLS").map Settings.parseUrls).getD [] := by
  obtain ⟨hunset, rfl⟩ | ⟨raw, pieces, hraw, hread, rfl⟩ := choose_none h
  · rw [hunset]
    rfl
  · cases hread
    rw [hraw]
    rfl

/-- The number of virtual nodes of the variable is the same to both unless it is zero. -/
theorem virtualNodes_of_choose {env : Environment} {value : Option UInt64}
    (h : choose env "HASH_RING_VIRTUAL_NODES" Number.decimal? none none = .ok value) :
    value.getD (Settings.virtualNodesOf env) =
      if (env.text? "HASH_RING_VIRTUAL_NODES").bind Number.decimal? = some 0 then 0
      else Settings.virtualNodesOf env := by
  obtain ⟨hunset, rfl⟩ | ⟨raw, n, hraw, hread, rfl⟩ := choose_none h
  · simp [hunset]
  · simp only [Settings.virtualNodesOf, hraw, Option.bind_some, hread, Settings.parseNumber_of_decimal? hread,
      Option.getD_some]
    by_cases hzero : n = 0
    · simp [hzero]
    · have hpos : 0 < n := UInt64.pos_iff_ne_zero.mpr hzero
      simp [hzero, hpos]

theorem bare_empty : Scan.Bare ⟨.empty, none⟩ := ⟨⟨rfl, rfl, rfl, rfl⟩, fun _ hnone => nomatch hnone⟩

/-- What the global options say when none that configures is given. -/
theorem globals_of_parse {env : Environment} {words : List String} {invocation : Invocation}
    (hwords : ∀ word ∈ words, ¬Configures word) (h : parse env words = .ok invocation) :
    ∃ outer inner : Given, outer.Bare ∧ inner.Bare ∧ globals env outer inner = .ok invocation.globals := by
  obtain ⟨⟨outer, command⟩, houter, hcommand⟩ := of_bind_ok h
  cases command with
  | none => cases hcommand
  | some command =>
    obtain ⟨command, rest⟩ := command
    obtain ⟨⟨inner, _⟩, hinner, hread⟩ := of_bind_ok hcommand
    obtain ⟨globals, hglobals, htask⟩ := of_bind_ok hread
    obtain ⟨task, -, hpure⟩ := of_bind_ok htask
    cases hpure
    obtain ⟨hbare, hrest⟩ := takeWords_bare hwords bare_empty houter
    obtain ⟨hbare', -⟩ := takeWords_bare (hrest command rest rfl) bare_empty hinner
    exact ⟨outer, inner, hbare, hbare', hglobals⟩

/-- On a line without options that configure, where the line and the environment are both accepted, the settings of the
environment stay as they are; only a number of virtual nodes of zero, for which they have the default, becomes zero. -/
theorem apply_of_environment {env : Environment} {words : List String} {invocation : Invocation} {settings : Settings}
    (hwords : ∀ word ∈ words, ¬Configures word) (hparse : parse env words = .ok invocation)
    (hsettings : Settings.ofEnvironment env = .ok settings) :
    invocation.globals.apply settings =
      if (env.text? "HASH_RING_VIRTUAL_NODES").bind Number.decimal? = some 0 then { settings with virtualNodes := 0 }
      else settings := by
  obtain ⟨outer, inner, houter, hinner, hglobals⟩ := globals_of_parse hwords hparse
  obtain ⟨hurls, htimeout, hflag, hvirtual⟩ := Settings.ofEnvironment_eq_ok_iff.mp hsettings
  obtain ⟨nodes, hnodes, hrest⟩ := of_bind_ok hglobals
  obtain ⟨timeoutMs, hms, hrest⟩ := of_bind_ok hrest
  obtain ⟨virtualNodes, hnumber, hrest⟩ := of_bind_ok hrest
  obtain ⟨repartition, hsticky, hpure⟩ := of_bind_ok hrest
  have hresult := (Except.ok.inj hpure).symm
  rw [houter.nodes, hinner.nodes] at hnodes
  rw [houter.timeoutMs, hinner.timeoutMs] at hms
  rw [houter.virtualNodes, hinner.virtualNodes] at hnumber
  rw [houter.repartition, hinner.repartition] at hsticky
  have hurlsSame := nodes_of_choose hnodes
  have hmsSame := getD_of_choose hms htimeout fun raw b c hb hc => by
    rw [Settings.parseNumber_of_decimal? hb] at hc
    exact Option.some.inj hc
  have hnumberSame := virtualNodes_of_choose hnumber
  have hstickySame := getD_of_choose hsticky hflag fun raw b c => Settings.parseFlag_of_boolish?
  rw [← hvirtual] at hnumberSame
  rw [← hurls] at hurlsSame
  have hsettingsSame : invocation.globals.apply settings =
      { settings with virtualNodes := virtualNodes.getD settings.virtualNodes } := by
    rw [hresult, Globals.apply]
    simp only [hurlsSame, hmsSame, hstickySame, ite_self]
  rw [hsettingsSame, hnumberSame]
  split <;> rfl

/-- Only these variables are set. -/
def texts (entries : List (String × String)) : Environment := fun name => (entries.lookup name).map Utf8.encode

theorem not_configures_members : ∀ word ∈ ["members"], ¬Configures word := by
  rintro word hword ⟨switch, -, value, hlong⟩
  obtain rfl := List.mem_singleton.mp hword
  have hplain : Word.ofString "members" = .plain := rfl
  rw [hplain] at hlong
  cases hlong

/-- One node with blanks behind it, and keys that stay where they are. -/
def stickyEnvironment : Environment := texts [("FULLNODE_URLS", "http://a, "), ("HASH_RING_REPARTITION", "YES")]

theorem apply_of_environment_sticky :
    parse stickyEnvironment ["members"] = .ok ⟨⟨["http://a", " "], none, none, some true, false⟩, .members⟩ ∧
    Globals.apply ⟨["http://a", " "], none, none, some true, false⟩ ⟨["http://a"], 60000, true, 160⟩
      = ⟨["http://a"], 60000, true, 160⟩ := by
  have hparse : parse stickyEnvironment ["members"]
      = .ok ⟨⟨["http://a", " "], none, none, some true, false⟩, .members⟩ := by decide +kernel
  have hsettings : Settings.ofEnvironment stickyEnvironment = .ok ⟨["http://a"], 60000, true, 160⟩ := by
    decide +kernel
  have hunset : (stickyEnvironment.text? "HASH_RING_VIRTUAL_NODES").bind Number.decimal? = none := rfl
  have happly := apply_of_environment not_configures_members hparse hsettings
  rw [hunset, if_neg (by simp)] at happly
  exact ⟨hparse, happly⟩

/-- No virtual nodes. -/
def zeroEnvironment : Environment := texts [("HASH_RING_VIRTUAL_NODES", "0")]

/-- Of zero virtual nodes the settings make the default, and the command line puts the zero back. -/
theorem zero_virtual_nodes_put_back :
    ¬∀ (env : Environment) (words : List String) (invocation : Invocation) (settings : Settings),
      (∀ word ∈ words, ¬Configures word) → parse env words = .ok invocation →
      Settings.ofEnvironment env = .ok settings → invocation.globals.apply settings = settings := by
  intro hsame
  have hparse : parse zeroEnvironment ["members"] = .ok ⟨⟨[], none, some 0, none, false⟩, .members⟩ := rfl
  have hsettings : Settings.ofEnvironment zeroEnvironment = .ok ⟨[], 60000, false, 160⟩ := rfl
  have hzero := congrArg Settings.virtualNodes (hsame _ _ _ _ not_configures_members hparse hsettings)
  exact absurd hzero (by decide)

end CommandLine

end LogGateway
