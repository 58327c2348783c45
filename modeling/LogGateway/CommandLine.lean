/-
The command line: global options, then a command with its own options, among which the global ones may
stand again. A global option that is not given falls back to its variable. Words that do not fit are
refused as a whole.
-/
import LogGateway.Settings

namespace LogGateway.CommandLine

/-! ## Options -/

inductive Command where
  | members
  | route
  | distribution
  | logs
  deriving DecidableEq, Repr

def Command.name : Command → String
  | .members => "members"
  | .route => "route"
  | .distribution => "distribution"
  | .logs => "logs"

/-- The command of that name. -/
def Command.ofName? (name : String) : Option Command :=
  [Command.members, .route, .distribution, .logs].find? fun c => c.name = name

inductive Switch where
  | nodes
  | timeoutMs
  | virtualNodes
  | repartition
  | verbose
  | version
  | help
  | key
  | samples
  | first
  | last
  | blockHash
  | metrics
  deriving DecidableEq, Repr

namespace Switch

def long : Switch → String
  | .nodes => "nodes"
  | .timeoutMs => "timeout-ms"
  | .virtualNodes => "virtual-nodes"
  | .repartition => "repartition"
  | .verbose => "verbose"
  | .version => "version"
  | .help => "help"
  | .key => "key"
  | .samples => "samples"
  | .first => "from"
  | .last => "to"
  | .blockHash => "block-hash"
  | .metrics => "metrics"

/-- The one-letter form, for those that have one. -/
def short? : Switch → Option Char
  | .verbose => some 'v'
  | .version => some 'V'
  | .help => some 'h'
  | .key => some 'k'
  | .samples => some 'n'
  | _ => none

/-- Whether a value follows. -/
def takesValue : Switch → Bool
  | .verbose => false
  | .version => false
  | .help => false
  | .metrics => false
  | _ => true

/-- Those that may stand before the command and after it. -/
def global : List Switch := [.nodes, .timeoutMs, .virtualNodes, .repartition, .verbose, .help]

/-- Those that may stand before the command, or after it if there is one. -/
def known : Option Command → List Switch
  | none => .version :: global
  | some .members => global
  | some .route => .key :: global
  | some .distribution => .samples :: global
  | some .logs => [.key, .first, .last, .blockHash, .metrics] ++ global

/-- The one with that long form. -/
def ofLong? (level : Option Command) (name : String) : Option Switch :=
  (known level).find? fun s => s.long = name

/-- The one with that one-letter form. -/
def ofShort? (level : Option Command) (c : Char) : Option Switch :=
  (known level).find? fun s => s.short? = some c

end Switch

/-! ## Values -/

/-- The words for yes and no, in any case and without blanks. -/
def boolish? (raw : String) : Option Bool :=
  let word := raw.map Char.toLower
  if ["y", "yes", "t", "true", "on", "1"].contains word then some true
  else if ["n", "no", "f", "false", "off", "0"].contains word then some false
  else none

/-- What was given before the command or after it. -/
structure Given where
  nodes : Option (List String)
  timeoutMs : Option UInt64
  virtualNodes : Option UInt64
  repartition : Option Bool
  verbose : Bool
  key : Option String
  samples : Option UInt64
  first : Option UInt64
  last : Option UInt64
  blockHash : Option String
  metrics : Bool
  deriving DecidableEq, Repr

namespace Given

def empty : Given := ⟨none, none, none, none, false, none, none, none, none, none, false⟩

/-- Why the words are not carried out. -/
inductive Stop where
  | misuse
  | version
  | help
  deriving DecidableEq, Repr

/-- A value given for the first time. -/
def fresh {α : Type} (old new : Option α) : Except Stop (Option α) :=
  match old, new with
  | none, some a => .ok (some a)
  | _, _ => .error .misuse

/-- A flag given for the first time. -/
def freshFlag (old : Bool) : Except Stop Bool := if old then .error .misuse else .ok true

/-- With one more option. Only the nodes may be given again, which adds to them. -/
def give (given : Given) (switch : Switch) (value : String) : Except Stop Given := do
  match switch with
  | .nodes =>
    return { given with nodes := some (given.nodes.getD [] ++ Text.splitAt ',' value) }
  | .timeoutMs =>
    return { given with timeoutMs := ← fresh given.timeoutMs (Number.decimal? value) }
  | .virtualNodes =>
    return { given with virtualNodes := ← fresh given.virtualNodes (Number.decimal? value) }
  | .repartition =>
    return { given with repartition := ← fresh given.repartition (boolish? value) }
  | .verbose => return { given with verbose := ← freshFlag given.verbose }
  | .version => throw .version
  | .help => throw .help
  | .key => return { given with key := ← fresh given.key (some value) }
  | .samples => return { given with samples := ← fresh given.samples (Number.decimal? value) }
  | .first => return { given with first := ← fresh given.first (Number.decimal? value) }
  | .last => return { given with last := ← fresh given.last (Number.decimal? value) }
  | .blockHash => return { given with blockHash := ← fresh given.blockHash (some value) }
  | .metrics => return { given with metrics := ← freshFlag given.metrics }

end Given

open Given (Stop)

/-! ## Words -/

/-- A word as far as it can be told from its first characters. -/
inductive Word where
  /-- Two dashes alone. -/
  | terminator
  /-- Two dashes and a name, with a value behind an equals sign or without. -/
  | long (name : String) (value : Option String)
  /-- One dash and letters. -/
  | short (letters : List Char)
  | plain
  deriving DecidableEq, Repr

def Word.ofString (s : String) : Word :=
  match s.toList with
  | ['-', '-'] => .terminator
  | '-' :: '-' :: rest =>
    match Text.cutOnce ['='] rest with
    | some (name, value) => .long (String.ofList name) (some (String.ofList value))
    | none => .long (String.ofList rest) none
  | ['-'] => .plain
  | '-' :: letters => .short letters
  | _ => .plain

/-- What was given so far, and the option whose value is the next word. -/
structure Scan where
  given : Given
  pending : Option Switch

/-- Takes an option, with the value attached to it if there is one. -/
def Scan.take (given : Given) (switch : Switch) (attached : Option String) : Except Stop Scan :=
  if switch.takesValue then
    match attached with
    | some value => (given.give switch value).map fun given => ⟨given, none⟩
    | none => .ok ⟨given, some switch⟩
  else
    match attached with
    | some _ => .error .misuse
    | none => (given.give switch "").map fun given => ⟨given, none⟩

/-- Takes the letters of a short word: flags, then at most one option with its value. -/
def takeLetters (level : Option Command) (given : Given) : List Char → Except Stop Scan
  | [] => .ok ⟨given, none⟩
  | c :: cs =>
    match Switch.ofShort? level c with
    | none => .error .misuse
    | some switch =>
      if switch.takesValue then
        match cs with
        | [] => Scan.take given switch none
        | '=' :: value => Scan.take given switch (some (String.ofList value))
        | value => Scan.take given switch (some (String.ofList value))
      else
        match given.give switch "" with
        | .error stop => .error stop
        | .ok given => takeLetters level given cs

/-- Takes one word that is no command. -/
def takeWord (level : Option Command) (scan : Scan) (word : String) : Except Stop Scan :=
  match Word.ofString word, scan.pending with
  | .plain, some switch => (scan.given.give switch word).map fun given => ⟨given, none⟩
  | .long name attached, none =>
    match Switch.ofLong? level name with
    | some switch => Scan.take scan.given switch attached
    | none => .error .misuse
  | .short letters, none => takeLetters level scan.given letters
  | _, _ => .error .misuse

/-- The command that a word names, where one may stand. A word that a value is wanted from names none. -/
def commandAt (level : Option Command) (scan : Scan) (word : String) : Option Command :=
  match level, scan.pending with
  | none, none => Command.ofName? word
  | _, _ => none

/-- Whether help on these words can be given: on the program, on a command, or on help. -/
def isHelpTopic : List String → Bool
  | [] => true
  | [word] => word = "help" || (Command.ofName? word).isSome
  | _ => false

/-- Takes the words before the command, or after it, to the end or to the command. -/
def takeWords (level : Option Command) (scan : Scan) :
    List String → Except Stop (Given × Option (Command × List String))
  | [] => if scan.pending.isNone then .ok (scan.given, none) else .error .misuse
  | word :: words =>
    match commandAt level scan word with
    | some command => .ok (scan.given, some (command, words))
    | none =>
      if level.isNone && scan.pending.isNone && word = "help" then
        .error (if isHelpTopic words then .help else .misuse)
      else if Word.ofString word = .terminator then
        if scan.pending.isNone && words.isEmpty then .ok (scan.given, none) else .error .misuse
      else
        match takeWord level scan word with
        | .error stop => .error stop
        | .ok scan => takeWords level scan words

/-! ## The whole line -/

/-- The value of an option: as given after the command, or before it, or by its variable, which must be
sound unless the option is given in both places. -/
def choose {α : Type} (env : Environment) (name : String) (read : String → Option α)
    (outer inner : Option α) : Except Stop (Option α) :=
  if outer.isSome && inner.isSome then .ok inner
  else
    match env name with
    | none => .ok (inner.or outer)
    | some raw =>
      match (Utf8.decode? raw).bind read with
      | none => .error .misuse
      | some value => .ok ((inner.or outer).or (some value))

/-- What the global options say. -/
structure Globals where
  nodes : List String
  timeoutMs : Option UInt64
  virtualNodes : Option UInt64
  repartition : Option Bool
  verbose : Bool
  deriving DecidableEq, Repr

/-- Which logs are asked for. -/
inductive Wanted where
  | block (hash : String)
  | range (first last : Option UInt64)
  deriving DecidableEq, Repr

/-- What is to be done. -/
inductive Task where
  | members
  | route (key : String)
  | distribution (samples : UInt64)
  | logs (key : String) (wanted : Wanted) (metrics : Bool)
  deriving DecidableEq, Repr

structure Invocation where
  globals : Globals
  task : Task
  deriving DecidableEq, Repr

/-- What the global options say before and after the command. -/
def globals (env : Environment) (outer inner : Given) : Except Stop Globals := do
  let nodes ← choose env "FULLNODE_URLS" (fun raw => some (Text.splitAt ',' raw)) outer.nodes
    inner.nodes
  let timeoutMs ← choose env "GET_LOGS_TIMEOUT_MS" Number.decimal? outer.timeoutMs inner.timeoutMs
  let virtualNodes ← choose env "HASH_RING_VIRTUAL_NODES" Number.decimal? outer.virtualNodes
    inner.virtualNodes
  let repartition ← choose env "HASH_RING_REPARTITION" boolish? outer.repartition inner.repartition
  return ⟨nodes.getD [], timeoutMs, virtualNodes, repartition, outer.verbose || inner.verbose⟩

def defaultSamples : UInt64 := 10000

/-- What a command with its options asks for. -/
def task (command : Command) (given : Given) : Except Stop Task :=
  match command with
  | .members => .ok .members
  | .route =>
    match given.key with
    | some key => .ok (.route key)
    | none => .error .misuse
  | .distribution => .ok (.distribution (given.samples.getD defaultSamples))
  | .logs =>
    match given.blockHash with
    | none => .ok (.logs (given.key.getD "") (.range given.first given.last) given.metrics)
    | some hash =>
      if given.first.isSome || given.last.isSome then .error .misuse
      else .ok (.logs (given.key.getD "") (.block hash) given.metrics)

/-- Reads the words of a command line. -/
def parse (env : Environment) (words : List String) : Except Stop Invocation := do
  let (outer, command) ← takeWords none ⟨.empty, none⟩ words
  match command with
  | none => throw .misuse
  | some (command, words) =>
    let (inner, _) ← takeWords (some command) ⟨.empty, none⟩ words
    return ⟨← globals env outer inner, ← task command inner⟩

/-- The settings with the options in place of what the environment gives. -/
def Globals.apply (globals : Globals) (settings : Settings) : Settings :=
  let nodes := Settings.nonBlank globals.nodes
  { nodeUrls := if nodes.isEmpty then settings.nodeUrls else nodes
    timeoutMs := globals.timeoutMs.getD settings.timeoutMs
    repartition := globals.repartition.getD settings.repartition
    virtualNodes := globals.virtualNodes.getD settings.virtualNodes }

end LogGateway.CommandLine
