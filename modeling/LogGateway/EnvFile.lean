/-
Environment files: lines that give a variable a value, with quotes, escapes, comments, and references to
other variables. A file is read up to its first bad line, and a variable that is already set to a text
keeps it.
-/
import LogGateway.Settings
import LogGateway.Text.CharClass

namespace LogGateway.EnvFile

/-! ## Values -/

/-- Where a value is read: inside or outside quotes, or inside a reference. `quoted` says whether double
quotes are open around it. -/
inductive Mode where
  | plain
  | single
  | double
  | escaped (quoted : Bool)
  /-- After `$`; the name so far, its last character first. -/
  | reference (quoted : Bool) (name : List Char)
  /-- After `$` and an opening brace. -/
  | braced (quoted : Bool) (name : List Char)
  /-- After a blank outside quotes, where only a comment may follow. -/
  | ended
  deriving DecidableEq, Repr

/-- The mode outside references and escapes. -/
def Mode.base (quoted : Bool) : Mode := if quoted then .double else .plain

/-- What an escape stands for. -/
def unescaped? (c : Char) : Option Char :=
  if c = '\\' || c = '\'' || c = '"' || c = '$' || c = ' ' then some c
  else if c = 'n' then some '\n'
  else none

/-- The characters of the variable whose name is given last character first. -/
def resolve (lookup : String → String) (name : List Char) : List Char :=
  (lookup (String.ofList name.reverse)).toList

/-- Reads a value. `done` holds what was read, the last character first. A character that ends a
reference stands for itself, whatever it is. -/
def readValue (lookup : String → String) : Mode → List Char → List Char → Option (List Char)
  | .plain, done, [] => some done.reverse
  | .ended, done, [] => some done.reverse
  | .escaped false, done, [] => some done.reverse
  | .reference false name, done, [] => some (done.reverse ++ resolve lookup name)
  | _, _, [] => none
  | .ended, done, c :: cs =>
    if c = ' ' || c = '\t' then readValue lookup .ended done cs
    else if c = '#' then some done.reverse
    else none
  | .escaped quoted, done, c :: cs =>
    match unescaped? c with
    | some e => readValue lookup (.base quoted) (e :: done) cs
    | none => none
  | .single, done, c :: cs =>
    if c = '\'' then readValue lookup .plain done cs else readValue lookup .single (c :: done) cs
  | .reference quoted name, done, c :: cs =>
    if Text.isAlphanumeric c then readValue lookup (.reference quoted (c :: name)) done cs
    else if c = '\x7b' ∧ name = [] then readValue lookup (.braced quoted []) done cs
    else
      let done := (resolve lookup name).reverse ++ done
      if c = '$' then readValue lookup (.reference quoted []) done cs
      else readValue lookup (.base quoted) (c :: done) cs
  | .braced quoted name, done, c :: cs =>
    if c = '\x7d' then
      readValue lookup (.base quoted) ((resolve lookup name).reverse ++ done) cs
    else readValue lookup (.braced quoted (c :: name)) done cs
  | .double, done, c :: cs =>
    if c = '$' then readValue lookup (.reference true []) done cs
    else if c = '"' then readValue lookup .plain done cs
    else if c = '\\' then readValue lookup (.escaped true) done cs
    else readValue lookup .double (c :: done) cs
  | .plain, done, c :: cs =>
    if c = '$' then readValue lookup (.reference false []) done cs
    else if c = '\'' then readValue lookup .single done cs
    else if c = '"' then readValue lookup .double done cs
    else if c = '\\' then readValue lookup (.escaped false) done cs
    else if c = ' ' || c = '\t' then readValue lookup .ended done cs
    else readValue lookup .plain (c :: done) cs

/-! ## Lines -/

/-- What a line says. -/
inductive Line where
  | nothing
  | assignment (key value : String)
  | bad
  deriving DecidableEq, Repr

/-- A key and what follows it. -/
def readKey (cs : List Char) : Option (List Char × List Char) :=
  let isPart (c : Char) : Bool := c.isAlphanum || c = '_' || c = '.'
  match cs with
  | [] => none
  | c :: _ =>
    if c.isAlpha || c = '_' then some (cs.takeWhile isPart, cs.dropWhile isPart) else none

/-- A key and what follows its equals sign. The word `export` may stand before the key. -/
def readAssigned (cs : List Char) : Option (List Char × List Char) :=
  match readKey cs with
  | none => none
  | some (key, rest) =>
    match Text.trimStart rest with
    | '=' :: value => some (key, value)
    | rest =>
      if key = "export".toList then
        match readKey rest with
        | none => none
        | some (key, rest) =>
          match Text.trimStart rest with
          | '=' :: value => some (key, value)
          | _ => none
      else none

/-- Whether nothing or a comment is left. -/
def isVoid (cs : List Char) : Bool := cs.head?.all (· = '#')

/-- Reads a line. -/
def readLine (lookup : String → String) (line : List Char) : Line :=
  let cs := Text.trimChars line
  if isVoid cs then .nothing
  else
    match readAssigned cs with
    | none => .bad
    | some (key, rest) =>
      let value := Text.trimStart rest
      if isVoid value then .assignment (String.ofList key) ""
      else
        match readValue lookup .plain [] value with
        | some chars => .assignment (String.ofList key) (String.ofList chars)
        | none => .bad

/-! ## Files -/

/-- An environment with a variable set. -/
def setVariable (env : Environment) (key value : String) : Environment := fun name =>
  if name = key then some (Utf8.encode value) else env name

/-- What follows `name=` in an entry `key=value` of the environment. A name with an equals sign in it reaches
into the value. -/
def entryAfter? (env : Environment) (name : String) : Option (List UInt8) :=
  match Text.cutOnce ['='] name.toList with
  | none => env name
  | some (key, start) =>
    let start := Utf8.encode (String.ofList (start ++ ['=']))
    match env (String.ofList key) with
    | none => none
    | some value => if start.isPrefixOf value then some (value.drop start.length) else none

/-- What a reference stands for: what the environment has for it, or else the last value that the file
gave. -/
def referenced (env : Environment) (given : List (String × String)) (name : String) : String :=
  ((entryAfter? env name).bind Utf8.decode?).getD ((given.lookup name).getD "")

/-- The environment after these lines. A line that is no UTF-8 is a bad one. -/
def loadLines (env : Environment) (given : List (String × String)) : List (List UInt8) → Environment
  | [] => env
  | line :: lines =>
    match (Utf8.decode? line).map fun text => readLine (referenced env given) text.toList with
    | none => env
    | some .bad => env
    | some .nothing => loadLines env given lines
    | some (.assignment key value) =>
      let env := if (env.text? key).isSome then env else setVariable env key value
      loadLines env ((key, value) :: given) lines

/-- The environment after a file. -/
def load (env : Environment) (bytes : List UInt8) : Environment :=
  loadLines env [] (Text.pieces 0x0a bytes)

end LogGateway.EnvFile
