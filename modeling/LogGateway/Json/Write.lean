/-
Writing compact JSON texts: no blanks, members in the order given. Each writer takes the written forms of
its parts.
-/
namespace LogGateway.Json.Write

/-- Written parts with commas between them. -/
def commaSeparated : List (List Char) → List Char
  | [] => []
  | [part] => part
  | part :: parts => part ++ ',' :: commaSeparated parts

/-- A character inside a text. -/
def escaped (c : Char) : List Char :=
  if c = '"' then ['\\', '"']
  else if c = '\\' then ['\\', '\\']
  else if c = '\x08' then ['\\', 'b']
  else if c = '\x0c' then ['\\', 'f']
  else if c = '\n' then ['\\', 'n']
  else if c = '\r' then ['\\', 'r']
  else if c = '\t' then ['\\', 't']
  else if c.toNat < 0x20 then
    ['\\', 'u', '0', '0', Nat.digitChar (c.toNat / 16), Nat.digitChar (c.toNat % 16)]
  else [c]

/-- A text in quotes. -/
def text (chars : List Char) : List Char := '"' :: chars.flatMap escaped ++ ['"']

/-- A list. -/
def list (items : List (List Char)) : List Char := '[' :: commaSeparated items ++ [']']

/-- A member of an object. -/
def member (key : String) (value : List Char) : List Char := text key.toList ++ ':' :: value

/-- An object. -/
def object (members : List (String × List Char)) : List Char :=
  '\x7b' :: commaSeparated (members.map fun (key, value) => member key value) ++ ['\x7d']

/-- A truth value. -/
def boolean (value : Bool) : List Char := if value then "true".toList else "false".toList

/-- A natural number in decimal. -/
def nat (n : Nat) : List Char := Nat.toDigits 10 n

/-- The missing value. -/
def null : List Char := "null".toList

/-- A value that may be missing. -/
def optional (value : Option (List Char)) : List Char := value.getD null

end LogGateway.Json.Write
