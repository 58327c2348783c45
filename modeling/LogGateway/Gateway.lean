/-
Running a command line from start to end: reading the settings, building the cluster, and carrying out the
task. All that is seen of a run is its exit code and what it prints; the transport alone reaches outside.
-/
import LogGateway.CommandLine
import LogGateway.EnvFile
import LogGateway.Query
import LogGateway.Query.Live
import LogGateway.Report

namespace LogGateway.Gateway

open CommandLine (Globals Invocation Task Wanted)

/-- How a run ended. -/
structure Ended (σ : Type) where
  code : Nat
  stdout : String
  stderr : String
  wire : σ

variable {σ : Type}

/-- A run that printed this and nothing else. -/
def printed (text : String) (wire : σ) : Ended σ := ⟨0, text, "", wire⟩

/-- A run that failed with a message, and with a cause behind it if there is one. -/
def failed (message : String) (cause : Option String) (wire : σ) : Ended σ :=
  let tail :=
    match cause with
    | some cause => s!"\n\nCaused by:\n    {cause}\n"
    | none => "\n"
  ⟨1, "", s!"Error: {message}{tail}", wire⟩

/-- A run whose words were refused. -/
def misused (wire : σ) : Ended σ :=
  ⟨2, "", "error: the words do not fit; try --help\n", wire⟩

def version : String := "gateway 0.1.0\n"

/-- What `--help` prints. -/
def usage : String :=
  "\n".intercalate
    ["Full node routing and get-logs diagnostics",
     "",
     "Usage: gateway [OPTIONS] <COMMAND>",
     "",
     "Commands:",
     "  members       Print the names of all managed nodes",
     "  route         Print the node URL a request key routes to",
     "  distribution  Show how sample keys spread across nodes",
     "  logs          Fetch logs through the node a key routes to",
     "",
     "Options:",
     "  --nodes <URLS>           Full node URLs, comma separated",
     "  --timeout-ms <MS>        Get-logs deadline in milliseconds, retries included",
     "  --virtual-nodes <COUNT>  Points per node on the hash ring",
     "  --repartition <FLAG>     Keep each key on the node it was first routed to",
     "  -v, --verbose            Enable verbose logging",
     ""]

/-- The filter that is asked for, or the text that is no block hash and why. -/
def filterOf : Wanted → Except (String × HexFault) LogFilter
  | .block raw =>
    match Hash.read raw with
    | .ok hash => .ok ⟨.block hash, ⟨[], []⟩⟩
    | .error fault => .error (raw, fault)
  | .range first last => .ok ⟨.range (first.map .number) (last.map .number), ⟨[], []⟩⟩

/-- What is printed for logs, one line for each. -/
def logLines (logs : List Log) : String :=
  String.join (logs.map fun log => String.ofList (Wire.log log) ++ "\n")

/-- Fetches logs from the node at a URL. With an empty store a query takes one round. -/
def fetch (transport : Http.Transport σ) (url : String) (timeoutMs : Nat) (filter : LogFilter)
    (wire : σ) : Option (Query.Outcome (Live σ)) :=
  Query.run (Live.sources transport) timeoutMs filter 0 ⟨.empty, .make url, wire⟩ 1

/-- What is printed for a query that ended. -/
def report (metrics : Bool) (outcome : Query.Outcome (Live σ)) : Ended σ :=
  let counters := if metrics then (Metrics.zero.count outcome).text else ""
  let wire := outcome.state.wire
  let ended :=
    match outcome.result with
    | .ok fetched => printed (logLines fetched.logs) wire
    | .error e => failed e.message none wire
  { ended with stderr := counters ++ ended.stderr }

/-- Fetches logs through the node that a key is routed to. -/
def runLogs (transport : Http.Transport σ) (settings : Settings) (key : String) (wanted : Wanted)
    (metrics : Bool) (wire : σ) : Ended σ :=
  let (url, _) := settings.cluster.route key.toUTF8
  if url = "" then failed "no full node available; set FULLNODE_URLS or --nodes" none wire
  else
    match filterOf wanted with
    | .error (raw, fault) => failed s!"invalid block hash {raw}" (some fault.message) wire
    | .ok filter =>
      match fetch transport url settings.timeoutMs.toNat filter wire with
      | some outcome => report metrics outcome
      | none => failed Error.reorgTimeout.message none wire

/-- Carries out a task. -/
def perform (transport : Http.Transport σ) (settings : Settings) (task : Task) (wire : σ) : Ended σ :=
  match task with
  | .members => printed (", ".intercalate settings.cluster.names ++ "\n") wire
  | .route key => printed ((settings.cluster.route key.toUTF8).1 ++ "\n") wire
  | .distribution samples =>
    let (spread, _) := Spread.sample settings.cluster samples.toNat
    printed (spread.text samples.toNat) wire
  | .logs key wanted metrics => runLogs transport settings key wanted metrics wire

/-- Runs a command line in an environment. -/
def run (transport : Http.Transport σ) (env : Environment) (words : List String) (wire : σ) :
    Ended σ :=
  match CommandLine.parse env words with
  | .error .misuse => misused wire
  | .error .version => printed version wire
  | .error .help => printed usage wire
  | .ok invocation =>
    match Settings.ofEnvironment env with
    | .error fault =>
      failed "invalid gateway configuration" (some (Error.config fault).message) wire
    | .ok settings => perform transport (invocation.globals.apply settings) invocation.task wire

/-- How long a command line lets a query wait, in milliseconds. -/
def patience (env : Environment) (words : List String) : Nat :=
  match CommandLine.parse env words, Settings.ofEnvironment env with
  | .ok invocation, .ok settings => (invocation.globals.apply settings).timeoutMs.toNat
  | _, _ => 0

end LogGateway.Gateway
