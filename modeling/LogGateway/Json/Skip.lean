/-
Skipping a value that nobody asked for. The value is followed byte by byte by an automaton that keeps
the brackets still open, so nesting may be of any depth. Texts are looked at only for escapes and control
characters and numbers only for their form.
-/
import LogGateway.Json.Text

namespace LogGateway.Json

/-- An open bracket. -/
inductive Bracket where
  | list
  | object
  deriving DecidableEq, Repr

/-- What the automaton expects next. -/
inductive Expecting where
  /-- A value. -/
  | value
  /-- A value or the end of a list just opened. -/
  | firstItem
  /-- A key or the end of an object just opened. -/
  | firstKey
  /-- A key after a comma. -/
  | key
  /-- The colon after a key. -/
  | colon
  /-- The rest of a text; a key is followed by a colon. -/
  | text (isKey : Bool)
  /-- The letter of an escape. -/
  | escape (isKey : Bool)
  /-- This many more digits of a `\u` escape; `good` says that those before were digits. -/
  | escapeDigits (isKey : Bool) (left : Nat) (good : Bool)
  /-- The rest of a fixed word. -/
  | word (rest : List UInt8)
  /-- The first digit of a number. -/
  | firstDigit
  /-- The rest of a number that began with zero. -/
  | afterZero
  /-- More digits of a number. -/
  | whole
  /-- The first digit of a fraction. -/
  | firstPlace
  /-- More digits of a fraction. -/
  | fraction
  /-- The sign or first digit of an exponent. -/
  | exponentSign
  /-- The first digit of an exponent. -/
  | firstExponentDigit
  /-- More digits of an exponent. -/
  | exponent
  /-- What may follow a value: a comma or the end of the innermost bracket. -/
  | after
  deriving DecidableEq, Repr

namespace Expecting

/-- The fault when the text ends here. A number cut off after its sign, point or exponent mark counts as
badly written. -/
def atEnd : Expecting → Fault
  | .firstDigit => .malformed
  | .firstPlace => .malformed
  | .exponentSign => .malformed
  | .firstExponentDigit => .malformed
  | _ => .truncated

/-- Whether the value is complete before this byte, or before the end of the text. -/
def complete (state : Expecting) (upcoming : Option UInt8) : Bool :=
  match state with
  | .after => true
  | .afterZero => !upcoming.any fun b => isDigit b || b = 0x2e || b = 0x65 || b = 0x45
  | .whole => !upcoming.any fun b => isDigit b || b = 0x2e || b = 0x65 || b = 0x45
  | .fraction => !upcoming.any fun b => isDigit b || b = 0x65 || b = 0x45
  | .exponent => !upcoming.any isDigit
  | _ => false

end Expecting

/-- The first byte of a value. -/
def startValue (b : UInt8) (opened : List Bracket) : Except Fault (Expecting × List Bracket) :=
  if b = 0x22 then .ok (.text false, opened)
  else if b = 0x5b then .ok (.firstItem, .list :: opened)
  else if b = 0x7b then .ok (.firstKey, .object :: opened)
  else if b = 0x6e then .ok (.word [0x75, 0x6c, 0x6c], opened)
  else if b = 0x74 then .ok (.word [0x72, 0x75, 0x65], opened)
  else if b = 0x66 then .ok (.word [0x61, 0x6c, 0x73, 0x65], opened)
  else if b = 0x2d then .ok (.firstDigit, opened)
  else if b = 0x30 then .ok (.afterZero, opened)
  else if isDigit b then .ok (.whole, opened)
  else .error .malformed

/-- A byte after a complete value inside the innermost bracket. -/
def afterValue (b : UInt8) : List Bracket → Except Fault (Expecting × List Bracket)
  | [] => .error .malformed
  | .list :: outer =>
    if isBlank b then .ok (.after, .list :: outer)
    else if b = 0x2c then .ok (.value, .list :: outer)
    else if b = 0x5d then .ok (.after, outer)
    else .error .malformed
  | .object :: outer =>
    if isBlank b then .ok (.after, .object :: outer)
    else if b = 0x2c then .ok (.key, .object :: outer)
    else if b = 0x7d then .ok (.after, outer)
    else .error .malformed

/-- The state after one more byte. -/
def step (state : Expecting) (b : UInt8) (opened : List Bracket) :
    Except Fault (Expecting × List Bracket) :=
  match state with
  | .value => if isBlank b then .ok (.value, opened) else startValue b opened
  | .firstItem =>
    if isBlank b then .ok (.firstItem, opened)
    else if b = 0x5d then .ok (.after, opened.tail)
    else startValue b opened
  | .firstKey =>
    if isBlank b then .ok (.firstKey, opened)
    else if b = 0x7d then .ok (.after, opened.tail)
    else if b = 0x22 then .ok (.text true, opened)
    else .error .malformed
  | .key =>
    if isBlank b then .ok (.key, opened)
    else if b = 0x22 then .ok (.text true, opened)
    else .error .malformed
  | .colon =>
    if isBlank b then .ok (.colon, opened)
    else if b = 0x3a then .ok (.value, opened)
    else .error .malformed
  | .text isKey =>
    if b = 0x22 then .ok (if isKey then .colon else .after, opened)
    else if b = 0x5c then .ok (.escape isKey, opened)
    else if b < 0x20 then .error .malformed
    else .ok (.text isKey, opened)
  | .escape isKey =>
    if b = 0x75 then .ok (.escapeDigits isKey 4 true, opened)
    else if (simpleEscape? b).isSome then .ok (.text isKey, opened)
    else .error .malformed
  | .escapeDigits isKey left good =>
    let good := good && (hexDigit? b).isSome
    if left ≤ 1 then
      if good then .ok (.text isKey, opened) else .error .malformed
    else .ok (.escapeDigits isKey (left - 1) good, opened)
  | .word [] => .error .malformed
  | .word [w] => if b = w then .ok (.after, opened) else .error .malformed
  | .word (w :: ws) => if b = w then .ok (.word ws, opened) else .error .malformed
  | .firstDigit =>
    if b = 0x30 then .ok (.afterZero, opened)
    else if isDigit b then .ok (.whole, opened)
    else .error .malformed
  | .firstPlace => if isDigit b then .ok (.fraction, opened) else .error .malformed
  | .exponentSign =>
    if b = 0x2b || b = 0x2d then .ok (.firstExponentDigit, opened)
    else if isDigit b then .ok (.exponent, opened)
    else .error .malformed
  | .firstExponentDigit => if isDigit b then .ok (.exponent, opened) else .error .malformed
  | .afterZero =>
    if isDigit b then .error .malformed
    else if b = 0x2e then .ok (.firstPlace, opened)
    else if b = 0x65 || b = 0x45 then .ok (.exponentSign, opened)
    else afterValue b opened
  | .whole =>
    if isDigit b then .ok (.whole, opened)
    else if b = 0x2e then .ok (.firstPlace, opened)
    else if b = 0x65 || b = 0x45 then .ok (.exponentSign, opened)
    else afterValue b opened
  | .fraction =>
    if isDigit b then .ok (.fraction, opened)
    else if b = 0x65 || b = 0x45 then .ok (.exponentSign, opened)
    else afterValue b opened
  | .exponent => if isDigit b then .ok (.exponent, opened) else afterValue b opened
  | .after => afterValue b opened

/-- Follows a value to its end, which is not passed: outside all brackets a number ends before the first
byte that does not belong to it. -/
def skipFrom (state : Expecting) (opened : List Bracket) :
    List UInt8 → EStateM.Result Fault (List UInt8) Unit
  | [] => if opened.isEmpty && state.complete none then .ok () [] else .error state.atEnd []
  | b :: rest =>
    if opened.isEmpty && state.complete (some b) then .ok () (b :: rest)
    else
      match step state b opened with
      | .ok (state, opened) => skipFrom state opened rest
      | .error fault => .error fault rest

/-- Skips one value. -/
def skip : Reader Unit := skipFrom .value []

end LogGateway.Json
