/-
Scripted sources: a store and a node that play their answers from lists, one item for each call, the last
item again and again. What an item leaves open is answered from a log store and fixed lists of logs.
-/
import LogGateway.Query.Sources
import LogGateway.Store

namespace LogGateway

/-- A change to a store. -/
inductive Mutation where
  | persist (block : UInt64) (logs : List StoredLog)
  | reorg (first : UInt64)
  deriving DecidableEq, Repr

/-- The store after a change; a refused one leaves it. -/
def Store.apply (store : Store) : Mutation → Store
  | .persist block logs => (store.persist block logs).toOption.getD store
  | .reorg first => store.reorg first

/-- How one call plays out. -/
structure Cue (α : Type) where
  /-- Changes to the store made when the call comes in. -/
  changes : List Mutation
  delay : Nat
  failure : Option Error
  answer : Option α

/-- A call that takes no time and leaves its answer open. -/
def Cue.plain {α : Type} : Cue α := ⟨[], 0, none, none⟩

/-- The cues still to play. -/
abbrev Script (α : Type) := List (Cue α)

/-- The next cue and the script after it, whose last cue stays. -/
def Script.next {α : Type} : Script α → Cue α × Script α
  | [] => (.plain, [])
  | [last] => (last, [last])
  | cue :: rest => (cue, rest)

/-- The state of scripted sources. -/
structure Scene where
  store : Store
  /-- The logs that the store answers from, if not from its blocks. -/
  storedLogs : Option (List StoredLog)
  nodeLogs : List Log
  nodeBlocks : List (Hash × UInt64)
  versions : Script UInt64
  highests : Script (Option UInt64)
  storedCalls : Script (List StoredLog)
  blockCalls : Script (Option UInt64)
  logCalls : Script (List Log)

namespace Scene

/-- The number that bounds a range; an open or named end is `other`. -/
def bound (selector : Option BlockSelector) (other : UInt64) : UInt64 :=
  (selector.bind BlockSelector.number?).getD other

/-- Whether the node has a log in the blocks of a filter; criteria are not looked at. -/
def covers (selection : Selection) (log : Log) : Bool :=
  match selection with
  | .block hash => log.blockHash = hash
  | .range first last =>
    bound first 0 ≤ log.blockNumber && log.blockNumber ≤ bound last 0xffffffffffffffff

/-- The block of that hash and number. -/
def summary (hash : Hash) (number : UInt64) : BlockSummary := ⟨hash, number, Vector.replicate 32 0⟩

/-- Plays a cue; `answer` gives the answer that it leaves open. -/
def play {α : Type} (cue : Cue α) (scene : Scene) (answer : Store → α) :
    Nat × Except Error α × Scene :=
  let store := cue.changes.foldl Store.apply scene.store
  let outcome :=
    match cue.failure with
    | some e => .error e
    | none => .ok (cue.answer.getD (answer store))
  (cue.delay, outcome, { scene with store })

/-- The sources that play a scene. -/
def sources : Sources Scene := fun call scene =>
  match call with
  | .version =>
    let (cue, rest) := scene.versions.next
    let (delay, outcome, scene) := play cue { scene with versions := rest } (·.version)
    ⟨delay, outcome, scene⟩
  | .highest =>
    let (cue, rest) := scene.highests.next
    let (delay, outcome, scene) := play cue { scene with highests := rest } (·.highest?)
    ⟨delay, outcome, scene⟩
  | .stored filter =>
    let (cue, rest) := scene.storedCalls.next
    let answer (store : Store) :=
      match scene.storedLogs with
      | some logs => logs.filter filter.accept
      | none => store.query filter
    let (delay, outcome, scene) := play cue { scene with storedCalls := rest } answer
    ⟨delay, outcome, scene⟩
  | .block hash =>
    let (cue, rest) := scene.blockCalls.next
    let answer := (scene.nodeBlocks.find? fun (h, _) => h = hash).map Prod.snd
    let (delay, outcome, scene) := play cue { scene with blockCalls := rest } fun _ => answer
    ⟨delay, outcome.map (·.map (summary hash)), scene⟩
  | .logs filter =>
    let (cue, rest) := scene.logCalls.next
    let answer := scene.nodeLogs.filter (covers filter.selection)
    let (delay, outcome, scene) := play cue { scene with logCalls := rest } fun _ => answer
    ⟨delay, outcome, scene⟩

end Scene

end LogGateway
