/-
The grammar of JSON texts, over characters and apart from any reader: what may stand between their parts, how texts
are spelled, how numbers are written, and which values, items and members are well formed, to any depth. What a
writer spells, with its escapes, is a spelling of the same characters, and what it makes of well-formed parts is well
formed.
-/
import LogGateway.Json.Write
import LogGateway.Number.Digits

namespace LogGateway.Json

/-! ## Between the parts -/

/-- Spaces, line ends and tabs, as many as there may be. -/
structure Gap where
  chars : List Char
  blank : ∀ c ∈ chars, c = ' ' ∨ c = '\n' ∨ c = '\r' ∨ c = '\t'

/-- No space at all. -/
def Gap.none : Gap := ⟨[], fun _ h => nomatch h⟩

/-! ## Texts -/

/-- Four hexadecimal digits of either case, and the number that they write. -/
inductive Quad : List Char → Nat → Prop
  | digits {a b c d : Char} {w x y z : Nat} (ha : Number.digitValue 16 a = some w)
      (hb : Number.digitValue 16 b = some x) (hc : Number.digitValue 16 c = some y)
      (hd : Number.digitValue 16 d = some z) : Quad [a, b, c, d] (((w * 16 + x) * 16 + y) * 16 + z)

/-- The escapes of one letter, and what they stand for. -/
def shortEscapes : List (Char × Char) :=
  [('"', '"'), ('\\', '\\'), ('/', '/'), ('b', '\x08'), ('f', '\x0c'), ('n', '\n'), ('r', '\r'), ('t', '\t')]

/-- A character that stands for itself in a text. -/
structure Plain (c : Char) : Prop where
  printable : 0x20 ≤ c.toNat
  ne_quote : c ≠ '"'
  ne_backslash : c ≠ '\\'

/-- What may stand between quotes, whether or not its numbered escapes pair up to characters. -/
inductive Body : List Char → Prop
  | nil : Body []
  | plain {c : Char} {body : List Char} (hc : Plain c) (hrest : Body body) : Body (c :: body)
  | short {e c : Char} {body : List Char} (he : (e, c) ∈ shortEscapes) (hrest : Body body) : Body ('\\' :: e :: body)
  | numbered {quad body : List Char} {n : Nat} (hquad : Quad quad n) (hrest : Body body) :
      Body ('\\' :: 'u' :: quad ++ body)

/-- What stands between quotes and the characters that it spells. A numbered escape is a character of its own or one
of two halves, the high one before the low one. -/
inductive Spells : List Char → List Char → Prop
  | nil : Spells [] []
  | plain {c : Char} {body cs : List Char} (hc : Plain c) (hrest : Spells body cs) : Spells (c :: body) (c :: cs)
  | short {e c : Char} {body cs : List Char} (he : (e, c) ∈ shortEscapes) (hrest : Spells body cs) :
      Spells ('\\' :: e :: body) (c :: cs)
  | whole {quad body cs : List Char} {n : Nat} (hquad : Quad quad n) (hn : n < 0xd800 ∨ 0xdfff < n)
      (hrest : Spells body cs) : Spells ('\\' :: 'u' :: quad ++ body) (Char.ofNat n :: cs)
  | halves {quad quad' body cs : List Char} {high low : Nat} (hquad : Quad quad high) (hquad' : Quad quad' low)
      (hhigh : 0xd800 ≤ high ∧ high ≤ 0xdbff) (hlow : 0xdc00 ≤ low ∧ low ≤ 0xdfff)
      (hrest : Spells body cs) :
      Spells ('\\' :: 'u' :: quad ++ '\\' :: 'u' :: quad' ++ body)
        (Char.ofNat (0x10000 + (high - 0xd800) * 0x400 + (low - 0xdc00)) :: cs)

/-- A digit that was written is read as its value. -/
theorem digitValue_digitChar {base d : Nat} (hbase : base ≤ 16) (hd : d < base) :
    Number.digitValue base (Nat.digitChar d) = some d := by
  have hall : ∀ base < 17, ∀ d < base, Number.digitValue base (Nat.digitChar d) = some d := by decide
  exact hall base (Nat.lt_succ_of_le hbase) d hd

/-- The writer spells what it is given, with control characters and quotes escaped. -/
theorem spells_escaped (cs : List Char) : Spells (cs.flatMap Write.escaped) cs := by
  induction cs with
  | nil => exact .nil
  | cons c cs ih =>
    rw [List.flatMap_cons]
    unfold Write.escaped
    by_cases hshort : c = '"' ∨ c = '\\' ∨ c = '\x08' ∨ c = '\x0c' ∨ c = '\n' ∨ c = '\r' ∨ c = '\t'
    · rcases hshort with rfl | rfl | rfl | rfl | rfl | rfl | rfl <;> exact .short (by decide) ih
    · simp only [not_or] at hshort
      obtain ⟨hquote, hbackslash, h8, hc, hn, hr, ht⟩ := hshort
      rw [if_neg hquote, if_neg hbackslash, if_neg h8, if_neg hc, if_neg hn, if_neg hr, if_neg ht]
      by_cases hcontrol : c.toNat < 0x20
      · rw [if_pos hcontrol]
        have hquad : Quad ['0', '0', Nat.digitChar (c.toNat / 16), Nat.digitChar (c.toNat % 16)] c.toNat := by
          have hvalue : ((0 * 16 + 0) * 16 + c.toNat / 16) * 16 + c.toNat % 16 = c.toNat := by omega
          have hzero : Number.digitValue 16 '0' = some 0 := by decide
          have hhigh := digitValue_digitChar (d := c.toNat / 16) (Nat.le_refl 16) (by omega)
          have hlow := digitValue_digitChar (d := c.toNat % 16) (Nat.le_refl 16) (by omega)
          have hdigits := Quad.digits hzero hzero hhigh hlow
          rwa [hvalue] at hdigits
        have hspelled := Spells.whole hquad (.inl (by omega)) ih
        rwa [Char.ofNat_toNat] at hspelled
      · rw [if_neg hcontrol]
        exact .plain ⟨Nat.le_of_not_lt hcontrol, hquote, hbackslash⟩ ih

/-! ## Numbers -/

/-- One digit or more. -/
def Digits (cs : List Char) : Prop := cs ≠ [] ∧ ∀ c ∈ cs, c.isDigit = true

/-- The part of a number before its point, without a sign: zero, or digits that do not begin with zero. -/
inductive Whole : List Char → Prop
  | zero : Whole ['0']
  | digits {c : Char} {cs : List Char} (h : Digits (c :: cs)) (hc : c ≠ '0') : Whole (c :: cs)

/-- The part of a number from its point on, if it has one. -/
inductive Fraction : List Char → Prop
  | none : Fraction []
  | digits {cs : List Char} (h : Digits cs) : Fraction ('.' :: cs)

/-- The exponent of a number, if it has one. -/
inductive Exponent : List Char → Prop
  | none : Exponent []
  | digits {mark : Char} {sign cs : List Char} (hmark : mark ∈ ['e', 'E']) (hsign : sign ∈ [[], ['+'], ['-']])
      (h : Digits cs) : Exponent (mark :: sign ++ cs)

/-- A number, of any size and with any number of places. -/
inductive Written : List Char → Prop
  | number {sign whole fraction exponent : List Char} (hsign : sign ∈ [[], ['-']]) (hwhole : Whole whole)
      (hfraction : Fraction fraction) (hexponent : Exponent exponent) :
      Written (sign ++ whole ++ fraction ++ exponent)

/-! ## Values -/

/-- An item of a list as it is written, with gaps around it. -/
structure Item where
  text : List Char
  before : Gap
  after : Gap

def Item.chars (i : Item) : List Char := i.before.chars ++ i.text ++ i.after.chars

/-- An item as the writer writes it. -/
def Item.compact (text : List Char) : Item := ⟨text, .none, .none⟩

/-- A list of these items. The first gap matters when there are none. -/
def listChars (opening : Gap) (items : List Item) : List Char :=
  '[' :: opening.chars ++ Write.commaSeparated (items.map Item.chars) ++ [']']

theorem list_eq (parts : List (List Char)) : Write.list parts = listChars .none (parts.map .compact) := by
  have hitem : Item.chars ∘ Item.compact = id := by
    funext part
    simp [Item.chars, Item.compact, Gap.none]
  rw [listChars, List.map_map, hitem, List.map_id]
  rfl

/-- A member of an object: its key, as spelled between the quotes, and its value, with gaps around them. -/
def memberChars (before afterKey beforeValue after : Gap) (key value : List Char) : List Char :=
  before.chars ++ '"' :: key ++ '"' :: afterKey.chars ++ ':' :: beforeValue.chars ++ value ++ after.chars

/-- A member as it is written, and the name that its key spells. -/
structure Member where
  name : String
  key : List Char
  spells : Spells key name.toList
  value : List Char
  before : Gap
  afterKey : Gap
  beforeValue : Gap
  after : Gap

def Member.chars (m : Member) : List Char := memberChars m.before m.afterKey m.beforeValue m.after m.key m.value

/-- A member as the writer writes it. -/
def Member.compact (name : String) (value : List Char) : Member where
  name
  key := name.toList.flatMap Write.escaped
  spells := spells_escaped name.toList
  value
  before := .none
  afterKey := .none
  beforeValue := .none
  after := .none

/-- An object with these members. The first gap matters when there are none. -/
def objectChars (opening : Gap) (members : List Member) : List Char :=
  '\x7b' :: opening.chars ++ Write.commaSeparated (members.map Member.chars) ++ ['\x7d']

theorem object_eq (members : List (String × List Char)) :
    Write.object members = objectChars .none (members.map fun m => .compact m.1 m.2) := by
  have hmember : Member.chars ∘ (fun m : String × List Char => .compact m.1 m.2)
      = fun m => Write.member m.1 m.2 := by
    funext m
    simp [Member.chars, memberChars, Member.compact, Write.member, Write.text, Gap.none]
  rw [objectChars, List.map_map, hmember]
  simp [Write.object, Gap.none]

/-- What a text is to be: one value, the items between the brackets of a list, or the members between those of an
object. -/
inductive Form where
  | value
  | items
  | members

/-- Well-formed texts. -/
inductive WellFormed : Form → List Char → Prop
  | nullWord : WellFormed .value "null".toList
  | trueWord : WellFormed .value "true".toList
  | falseWord : WellFormed .value "false".toList
  | number {cs : List Char} (h : Written cs) : WellFormed .value cs
  | text {body : List Char} (h : Body body) : WellFormed .value ('"' :: body ++ ['"'])
  | emptyList (gap : Gap) : WellFormed .value ('[' :: gap.chars ++ [']'])
  | list {cs : List Char} (h : WellFormed .items cs) : WellFormed .value ('[' :: cs ++ [']'])
  | emptyObject (gap : Gap) : WellFormed .value ('\x7b' :: gap.chars ++ ['\x7d'])
  | object {cs : List Char} (h : WellFormed .members cs) : WellFormed .value ('\x7b' :: cs ++ ['\x7d'])
  | lastItem (before after : Gap) {cs : List Char} (h : WellFormed .value cs) :
      WellFormed .items (before.chars ++ cs ++ after.chars)
  | item (before after : Gap) {cs more : List Char} (h : WellFormed .value cs) (hmore : WellFormed .items more) :
      WellFormed .items (before.chars ++ cs ++ after.chars ++ ',' :: more)
  | lastMember (before afterKey beforeValue after : Gap) {key cs : List Char} (hkey : Body key)
      (h : WellFormed .value cs) : WellFormed .members (memberChars before afterKey beforeValue after key cs)
  | member (before afterKey beforeValue after : Gap) {key cs more : List Char} (hkey : Body key)
      (h : WellFormed .value cs) (hmore : WellFormed .members more) :
      WellFormed .members (memberChars before afterKey beforeValue after key cs ++ ',' :: more)

/-! ## What a writer writes -/

/-- What spells characters may stand between quotes. -/
theorem Spells.body {body cs : List Char} (h : Spells body cs) : Body body := by
  induction h with
  | nil => exact .nil
  | plain hc _ ih => exact .plain hc ih
  | short he _ ih => exact .short he ih
  | whole hquad _ _ ih => exact .numbered hquad ih
  | @halves quad quad' body cs high low hquad hquad' _ _ _ ih =>
    have hlow : Body ('\\' :: 'u' :: quad' ++ body) := .numbered hquad' ih
    simpa using Body.numbered hquad hlow

theorem wellFormed_text (cs : List Char) : WellFormed .value (Write.text cs) := .text (spells_escaped cs).body

/-- Parts with commas between them make up whatever the last part does and one more part keeps. -/
theorem commaSeparated_of {IsPart IsWhole : List Char → Prop} (hlast : ∀ part, IsPart part → IsWhole part)
    (hmore : ∀ part more, IsPart part → IsWhole more → IsWhole (part ++ ',' :: more)) {part : List Char}
    {parts : List (List Char)} (h : ∀ p ∈ part :: parts, IsPart p) : IsWhole (Write.commaSeparated (part :: parts)) := by
  induction parts generalizing part with
  | nil => exact hlast part (h part (List.mem_cons_self ..))
  | cons next parts ih =>
    obtain ⟨hpart, hparts⟩ := List.forall_mem_cons.mp h
    exact hmore part _ hpart (ih hparts)

theorem wellFormed_list {parts : List (List Char)} (h : ∀ part ∈ parts, WellFormed .value part) :
    WellFormed .value (Write.list parts) := by
  cases parts with
  | nil => exact .emptyList .none
  | cons part parts =>
    refine .list (commaSeparated_of (fun part hpart => ?_) (fun part more hpart hmore => ?_) h)
    · simpa [Gap.none] using WellFormed.lastItem .none .none hpart
    · simpa [Gap.none] using WellFormed.item .none .none hpart hmore

theorem wellFormed_object {entries : List (String × List Char)} (h : ∀ e ∈ entries, WellFormed .value e.2) :
    WellFormed .value (Write.object entries) := by
  cases entries with
  | nil => exact .emptyObject .none
  | cons entry entries =>
    have hmembers : ∀ part ∈ (entry :: entries).map fun e => Write.member e.1 e.2,
        ∃ e : String × List Char, WellFormed .value e.2 ∧ part = Write.member e.1 e.2 := by
      intro part hpart
      obtain ⟨e, he, rfl⟩ := List.mem_map.mp hpart
      exact ⟨e, h e he, rfl⟩
    refine .object (commaSeparated_of ?_ ?_ hmembers)
    · rintro _ ⟨e, he, rfl⟩
      simpa [memberChars, Gap.none, Write.member, Write.text] using
        WellFormed.lastMember .none .none .none .none (spells_escaped e.1.toList).body he
    · rintro _ more ⟨e, he, rfl⟩ hmore
      simpa [memberChars, Gap.none, Write.member, Write.text] using
        WellFormed.member .none .none .none .none (spells_escaped e.1.toList).body he hmore

/-- The first digit of a number is no zero unless the number is. By induction on the number without its last digit. -/
theorem toDigits_opens {base : Nat} (hbase : 1 < base) (n : Nat) :
    ∃ c cs, Nat.toDigits base n = c :: cs ∧ (0 < n → c ≠ '0') := by
  induction n using Nat.strongRecOn with
  | _ n ih =>
    by_cases hsmall : n < base
    · exact ⟨Nat.digitChar n, [], Nat.toDigits_of_lt_base hsmall, fun hpos hzero =>
        Nat.ne_of_gt hpos (Nat.digitChar_eq_zero.mp hzero)⟩
    · have hle : base ≤ n := Nat.le_of_not_lt hsmall
      have hfirst : 0 < n / base := Nat.div_pos hle (by omega)
      obtain ⟨c, cs, hdigits, hzero⟩ := ih (n / base) (Nat.div_lt_self (by omega) hbase)
      refine ⟨c, cs ++ [Nat.digitChar (n % base)], ?_, fun _ => hzero hfirst⟩
      rw [Nat.toDigits_of_base_le hbase hle, hdigits]
      rfl

theorem digits_toDigits (n : Nat) : Digits (Nat.toDigits 10 n) :=
  ⟨Nat.toDigits_ne_nil, fun _ hc => Nat.isDigit_of_mem_toDigits (by decide) (by decide) hc⟩

theorem whole_toDigits (n : Nat) : Whole (Nat.toDigits 10 n) := by
  obtain ⟨c, cs, hdigits, hzero⟩ := toDigits_opens (by decide : 1 < 10) n
  have hall := digits_toDigits n
  cases n with
  | zero => exact .zero
  | succ n =>
    rw [hdigits] at hall ⊢
    exact .digits hall (hzero (Nat.succ_pos n))

theorem wellFormed_nat (n : Nat) : WellFormed .value (Write.nat n) := by
  have hnumber : Written ([] ++ Nat.toDigits 10 n ++ [] ++ []) :=
    .number (by decide) (whole_toDigits n) .none .none
  simpa [Write.nat] using WellFormed.number hnumber

end LogGateway.Json
