/-
Taking texts apart. Blanks are removed from both ends of a text; they are the characters with the Unicode property
White_Space. A text is cut into pieces at every separator, or once at the first occurrence of a mark.
-/
namespace LogGateway.Text

/-! ## Blanks -/

/-- Characters with the property White_Space. -/
def isBlank (c : Char) : Bool :=
  let n := c.toNat
  (9 ≤ n && n ≤ 13) || n = 0x20 || n = 0x85 || n = 0xa0 || n = 0x1680
    || (0x2000 ≤ n && n ≤ 0x200a) || n = 0x2028 || n = 0x2029 || n = 0x202f || n = 0x205f
    || n = 0x3000

/-- Without the longest ending whose characters all satisfy `p`. -/
def dropEndWhile (p : Char → Bool) : List Char → List Char
  | [] => []
  | c :: cs =>
    match dropEndWhile p cs with
    | [] => if p c then [] else [c]
    | kept => c :: kept

/-- Without blanks at the start. -/
def trimStart (cs : List Char) : List Char := cs.dropWhile isBlank

/-- Without blanks at the end. -/
def trimEnd (cs : List Char) : List Char := dropEndWhile isBlank cs

/-- Without blanks at either end. -/
def trimChars (cs : List Char) : List Char := trimEnd (trimStart cs)

/-- Without blanks at either end. -/
def trim (s : String) : String := String.ofList (trimChars s.toList)

/-! ## Pieces -/

/-- The pieces between separators; a list without one is its only piece. -/
def pieces {α : Type} [DecidableEq α] (separator : α) : List α → List (List α)
  | [] => [[]]
  | c :: cs =>
    match pieces separator cs with
    | [] => [[c]]
    | p :: ps => if c = separator then [] :: p :: ps else (c :: p) :: ps

/-- What stands before and after the first occurrence of `mark`, if there is one. -/
def cutOnce (mark : List Char) : List Char → Option (List Char × List Char)
  | [] => if mark = [] then some ([], []) else none
  | c :: cs =>
    if mark.isPrefixOf (c :: cs) then some ([], (c :: cs).drop mark.length)
    else (cutOnce mark cs).map fun (before, after) => (c :: before, after)

/-- The pieces of a text between separators. -/
def splitAt (separator : Char) (s : String) : List String :=
  (pieces separator s.toList).map String.ofList

end LogGateway.Text
