/-
Readers are local: one that leaves something of a text has looked at no more than it took, so it does the same when
the text goes on. What a reader makes of a text cut short is thereby settled by the whole text, as long as it stops
before the cut.
-/
import LogGateway.Json.Record
import LogGateway.Proofs.Json.Reading

namespace LogGateway.Json

/-! ## Results -/

section

variable {α β : Type}

/-- What is left of the text. -/
def left : EStateM.Result Fault (List UInt8) α → List UInt8
  | .ok _ rest => rest
  | .error _ rest => rest

/-- The same result with more text behind what is left. -/
def extend (more : List UInt8) : EStateM.Result Fault (List UInt8) α → EStateM.Result Fault (List UInt8) α
  | .ok a rest => .ok a (rest ++ more)
  | .error fault rest => .error fault (rest ++ more)

@[simp] theorem left_ok (a : α) (rest : List UInt8) : left (.ok a rest) = rest := rfl

@[simp] theorem left_error (fault : Fault) (rest : List UInt8) :
    left (.error fault rest : EStateM.Result _ _ α) = rest := rfl

@[simp] theorem extend_ok (more : List UInt8) (a : α) (rest : List UInt8) :
    extend more (.ok a rest) = .ok a (rest ++ more) := rfl

@[simp] theorem extend_error (more : List UInt8) (fault : Fault) (rest : List UInt8) :
    extend more (.error fault rest : EStateM.Result _ _ α) = .error fault (rest ++ more) := rfl

/-! ## Local readers -/

/-- The reader never gives text back, and where it leaves some it does the same however the text goes on. -/
structure Local (reader : Reader α) : Prop where
  shrinks : ∀ bytes, (left (reader bytes)).length ≤ bytes.length
  goesOn : ∀ bytes more, left (reader bytes) ≠ [] → reader (bytes ++ more) = extend more (reader bytes)

namespace Local

variable {reader : Reader α}

theorem left_nil (h : Local reader) : left (reader []) = [] :=
  List.length_eq_zero_iff.mp (Nat.le_zero.mp (h.shrinks []))

theorem length_ok (h : Local reader) {bytes rest : List UInt8} {a : α} (hread : reader bytes = .ok a rest) :
    rest.length ≤ bytes.length := by
  have hlength := h.shrinks bytes
  rwa [hread] at hlength

theorem goesOn_ok (h : Local reader) {bytes rest : List UInt8} {a : α} {b : UInt8}
    (hread : reader bytes = .ok a (b :: rest)) (more : List UInt8) :
    reader (bytes ++ more) = .ok a (b :: rest ++ more) := by
  have hmore := h.goesOn bytes more
  rw [hread] at hmore
  exact hmore (List.cons_ne_nil b rest)

theorem pure (a : α) : Local (Pure.pure a : Reader α) := ⟨fun _ => Nat.le_refl _, fun _ _ _ => rfl⟩

theorem throw (fault : Fault) : Local (throw fault : Reader α) := ⟨fun _ => Nat.le_refl _, fun _ _ _ => rfl⟩

theorem mismatch (cause : Mismatch) : Local (mismatch cause : Reader α) := throw _

theorem bind {next : α → Reader β} (h : Local reader) (hnext : ∀ a, Local (next a)) : Local (reader >>= next) := by
  refine ⟨fun bytes => ?_, fun bytes more hleft => ?_⟩
  · have hfirst := h.shrinks bytes
    cases hread : reader bytes with
    | error fault rest =>
      rw [hread] at hfirst
      rw [bind_of_error hread]
      exact hfirst
    | ok a rest =>
      rw [hread] at hfirst
      rw [bind_of_ok hread]
      exact Nat.le_trans ((hnext a).shrinks rest) hfirst
  · cases hread : reader bytes with
    | error fault rest =>
      have hmore := h.goesOn bytes more
      rw [bind_of_error hread] at hleft ⊢
      rw [hread] at hmore
      exact bind_of_error (hmore hleft)
    | ok a rest =>
      have hmore := h.goesOn bytes more
      rw [bind_of_ok hread] at hleft ⊢
      have hrest : rest ≠ [] := by
        rintro rfl
        exact hleft (hnext a).left_nil
      rw [hread] at hmore
      rw [bind_of_ok (hmore hrest)]
      exact (hnext a).goesOn rest more hleft

/-- What follows a local reader sees no longer texts. -/
theorem bind_congr (h : Local reader) {next next' : α → Reader β} {bytes : List UInt8}
    (hnext : ∀ a rest, rest.length ≤ bytes.length → next a rest = next' a rest) :
    (reader >>= next) bytes = (reader >>= next') bytes := by
  cases hread : reader bytes with
  | error fault rest => rw [bind_of_error hread, bind_of_error hread]
  | ok a rest =>
    rw [bind_of_ok hread, bind_of_ok hread]
    exact hnext a rest (h.length_ok hread)

theorem bindOption {reader : Reader (Option α)} {next : Option α → Reader β} (h : Local reader)
    (hnone : Local (next none)) (hsome : ∀ a, Local (next (some a))) : Local (reader >>= next) := by
  refine h.bind fun a => ?_
  cases a with
  | none => exact hnone
  | some a => exact hsome a

theorem map (f : α → β) (h : Local reader) : Local (f <$> reader) := h.bind fun a => pure (f a)

/-- A reader that goes on as a local one from some place of the text, and from the same place as the text goes on. -/
theorem resumes (h : ∀ bytes, ∃ rest, ∃ next : Reader α, Local next ∧ rest.length ≤ bytes.length ∧
    reader bytes = next rest ∧ (rest ≠ [] → ∀ more, reader (bytes ++ more) = next (rest ++ more))) : Local reader := by
  refine ⟨fun bytes => ?_, fun bytes more hleft => ?_⟩
  · obtain ⟨rest, next, hnext, hlength, hread, -⟩ := h bytes
    rw [hread]
    exact Nat.le_trans (hnext.shrinks rest) hlength
  · obtain ⟨rest, next, hnext, -, hread, hmore⟩ := h bytes
    rw [hread] at hleft ⊢
    have hrest : rest ≠ [] := by
      rintro rfl
      exact hleft hnext.left_nil
    rw [hmore hrest]
    exact hnext.goesOn rest more hleft

theorem ite {c : Prop} [Decidable c] {yes no : Reader α} (hyes : Local yes) (hno : Local no) :
    Local (if c then yes else no) := by
  split
  · exact hyes
  · exact hno

/-- A look at the text is local when some text looks the same as it goes on. -/
theorem look {next : List UInt8 → Reader α} (hnext : ∀ bytes, Local (next bytes))
    (hsame : ∀ b rest more, next (b :: rest ++ more) = next (b :: rest)) : Local (get >>= next) := by
  have hread (bytes : List UInt8) : (get >>= next : Reader α) bytes = next bytes bytes := rfl
  refine ⟨fun bytes => (hnext bytes).shrinks bytes, fun bytes more hleft => ?_⟩
  rw [hread] at hleft ⊢
  rw [hread]
  cases bytes with
  | nil => exact absurd (hnext []).left_nil hleft
  | cons b rest =>
    rw [hsame]
    exact (hnext _).goesOn _ more hleft

/-- A loop bounded by the length of the text is local when any bound above that length does as well. -/
theorem bounded (loop : Nat → Reader α) (hloop : ∀ bound, Local (loop bound))
    (hbound : ∀ bytes bound, bytes.length < bound → loop bound bytes = loop (bytes.length + 1) bytes) :
    Local (get >>= fun bytes => loop (bytes.length + 1)) := by
  have hread (bytes : List UInt8) :
      (get >>= fun bytes => loop (bytes.length + 1) : Reader α) bytes = loop (bytes.length + 1) bytes := rfl
  refine ⟨fun bytes => (hloop _).shrinks bytes, fun bytes more hleft => ?_⟩
  have hlonger : bytes.length < (bytes ++ more).length + 1 := by
    rw [List.length_append]
    omega
  have hmore := (hloop ((bytes ++ more).length + 1)).goesOn bytes more
  rw [hread] at hleft ⊢
  rw [hbound bytes _ hlonger] at hmore
  exact hmore hleft

/-- What stands in for a failed reader goes on where that one stopped. -/
theorem tryCatch {handler : Fault → Reader α} (h : Local reader) (hhandler : ∀ fault, Local (handler fault)) :
    Local (tryCatch reader handler) := by
  have hok {bytes : List UInt8} {a : α} {rest : List UInt8} (hread : reader bytes = .ok a rest) :
      (MonadExcept.tryCatch reader handler : Reader α) bytes = .ok a rest := by
    change EStateM.tryCatch reader handler bytes = .ok a rest
    delta EStateM.tryCatch
    simp only [hread]
  have herror {bytes : List UInt8} {fault : Fault} {rest : List UInt8} (hread : reader bytes = .error fault rest) :
      (MonadExcept.tryCatch reader handler : Reader α) bytes = handler fault rest := by
    change EStateM.tryCatch reader handler bytes = handler fault rest
    delta EStateM.tryCatch
    simp only [hread]
    rfl
  refine ⟨fun bytes => ?_, fun bytes more hleft => ?_⟩
  · have hfirst := h.shrinks bytes
    cases hread : reader bytes with
    | ok a rest => rwa [hok hread, ← hread]
    | error fault rest =>
      rw [hread] at hfirst
      rw [herror hread]
      exact Nat.le_trans ((hhandler fault).shrinks rest) hfirst
  · have hmore := h.goesOn bytes more
    cases hread : reader bytes with
    | ok a rest =>
      rw [hok hread] at hleft ⊢
      rw [hread] at hmore
      exact hok (hmore hleft)
    | error fault rest =>
      rw [herror hread] at hleft ⊢
      have hrest : rest ≠ [] := by
        rintro rfl
        exact hleft (hhandler fault).left_nil
      rw [hread] at hmore
      rw [herror (hmore hrest)]
      exact (hhandler fault).goesOn rest more hleft

end Local

end

/-! ## Steps -/

section

variable {p : UInt8 → Bool} {bytes : List UInt8}

theorem length_dropWhile_le (p : UInt8 → Bool) (bytes : List UInt8) : (bytes.dropWhile p).length ≤ bytes.length :=
  (List.dropWhile_sublist p).length_le

theorem dropWhile_append_of_stops (h : bytes.dropWhile p ≠ []) (more : List UInt8) :
    (bytes ++ more).dropWhile p = bytes.dropWhile p ++ more := by
  rw [List.dropWhile_append, if_neg (by simpa using h)]

theorem takeWhile_append_of_stops (h : bytes.dropWhile p ≠ []) (more : List UInt8) :
    (bytes ++ more).takeWhile p = bytes.takeWhile p := by
  have hparts := congrArg List.length (List.takeWhile_append_dropWhile (p := p) (l := bytes))
  have hpos := List.length_pos_iff.mpr h
  rw [List.length_append] at hparts
  rw [List.takeWhile_append, if_neg (by omega)]

end

theorem local_peek : Local peek := by
  refine ⟨fun bytes => length_dropWhile_le .., fun bytes more hleft => ?_⟩
  have hmore := dropWhile_append_of_stops (p := isBlank) hleft more
  cases hrest : bytes.dropWhile isBlank with
  | nil => exact absurd hrest hleft
  | cons b rest => simp only [peek, hmore, hrest, List.cons_append, List.head?_cons, extend_ok]

/-- A byte that is peeked at stands first in what is left. -/
theorem peek_some {bytes rest : List UInt8} {b : UInt8} (h : peek bytes = .ok (some b) rest) :
    ∃ tail, rest = b :: tail ∧ tail.length < bytes.length := by
  have hlength := local_peek.length_ok h
  obtain ⟨hhead, rfl⟩ : (bytes.dropWhile isBlank).head? = some b ∧ bytes.dropWhile isBlank = rest := by
    simpa [peek] using h
  obtain ⟨tail, htail⟩ := List.head?_eq_some_iff.mp hhead
  rw [htail, List.length_cons] at hlength
  exact ⟨tail, htail, hlength⟩

theorem local_advance : Local advance := by
  refine ⟨fun bytes => by simp [advance], fun bytes more hleft => ?_⟩
  cases bytes with
  | nil => exact absurd rfl hleft
  | cons b rest => rfl

theorem local_next : Local next := by
  refine ⟨fun bytes => by simp [next], fun bytes more hleft => ?_⟩
  cases bytes with
  | nil => exact absurd rfl hleft
  | cons b rest => rfl

theorem local_digits : Local digits := by
  refine ⟨fun bytes => length_dropWhile_le .., fun bytes more hleft => ?_⟩
  simp only [digits, takeWhile_append_of_stops hleft, dropWhile_append_of_stops hleft, extend_ok]

theorem local_word (w : List UInt8) : Local (word w) := by
  induction w with
  | nil => exact .pure ()
  | cons b w ih =>
    exact local_next.bindOption (.throw _) fun b => .ite ih (.throw _)

/-! ## Texts and numbers -/

/-- How a text goes on: it is cut short, or some bytes of it are taken, whatever stands behind them, and then it is at
its end, is refused or goes on. -/
inductive Turn (done : List UInt8) : List UInt8 → Prop
  | short {bytes : List UInt8} (h : contents done bytes = .error .truncated []) : Turn done bytes
  | ends (taken : List UInt8) {rest result : List UInt8} (h : ∀ rest, contents done (taken ++ rest) = .ok result rest) :
      Turn done (taken ++ rest)
  | refused (taken : List UInt8) {rest : List UInt8}
      (h : ∀ rest, contents done (taken ++ rest) = .error .malformed rest) : Turn done (taken ++ rest)
  | more (taken : List UInt8) {rest done' : List UInt8} (pos : 0 < taken.length)
      (h : ∀ rest, contents done (taken ++ rest) = contents done' rest) : Turn done (taken ++ rest)

/-- Behind the first half of a character its other half has to stand. -/
theorem turn_half {h₁ h₂ h₃ h₄ : UInt8} {high : Nat} (hunit : unit16? h₁ h₂ h₃ h₄ = some high)
    (hhigh : 0xd800 ≤ high ∧ high ≤ 0xdbff) (done rest : List UInt8) :
    Turn done (0x5c :: 0x75 :: h₁ :: h₂ :: h₃ :: h₄ :: rest) := by
  have hnotLow : ¬(0xdc00 ≤ high ∧ high ≤ 0xdfff) := by omega
  have hnotWhole : ¬(high < 0xd800 ∨ 0xdbff < high) := by omega
  rcases rest with _ | ⟨mark, rest⟩
  · exact .short (by simp [contents, hunit, hnotLow, hnotWhole])
  by_cases hmark : mark = 0x5c
  case neg =>
    exact .refused [0x5c, 0x75, h₁, h₂, h₃, h₄, mark] fun rest => by simp [contents, hunit, hnotLow, hnotWhole, hmark]
  subst hmark
  rcases rest with _ | ⟨letter, rest⟩
  · exact .short (by simp [contents, hunit, hnotLow, hnotWhole])
  by_cases hletter : letter = 0x75
  case neg =>
    exact .refused [0x5c, 0x75, h₁, h₂, h₃, h₄, 0x5c, letter]
      fun rest => by simp [contents, hunit, hnotLow, hnotWhole, hletter]
  subst hletter
  rcases rest with _ | ⟨l₁, _ | ⟨l₂, _ | ⟨l₃, _ | ⟨l₄, rest⟩⟩⟩⟩
  iterate 4 exact .short (by simp [contents, hunit, hnotLow, hnotWhole])
  cases hunit' : unit16? l₁ l₂ l₃ l₄ with
  | none =>
    exact .refused [0x5c, 0x75, h₁, h₂, h₃, h₄, 0x5c, 0x75, l₁, l₂, l₃, l₄]
      fun rest => by simp [contents, hunit, hnotLow, hnotWhole, hunit']
  | some low =>
    by_cases hlow : 0xdc00 ≤ low ∧ low ≤ 0xdfff
    · exact .more [0x5c, 0x75, h₁, h₂, h₃, h₄, 0x5c, 0x75, l₁, l₂, l₃, l₄] (Nat.succ_pos _)
        (contents_halves hunit hunit' hhigh hlow done)
    · exact .refused [0x5c, 0x75, h₁, h₂, h₃, h₄, 0x5c, 0x75, l₁, l₂, l₃, l₄]
        fun rest => by simp [contents, hunit, hnotLow, hnotWhole, hunit', hlow]

/-- An escape of a character by its number. -/
theorem turn_numbered (done rest : List UInt8) : Turn done (0x5c :: 0x75 :: rest) := by
  rcases rest with _ | ⟨h₁, _ | ⟨h₂, _ | ⟨h₃, _ | ⟨h₄, rest⟩⟩⟩⟩
  iterate 4 exact .short (by simp [contents])
  cases hunit : unit16? h₁ h₂ h₃ h₄ with
  | none => exact .refused [0x5c, 0x75, h₁, h₂, h₃, h₄] fun rest => by simp [contents, hunit]
  | some n =>
    by_cases hlow : 0xdc00 ≤ n ∧ n ≤ 0xdfff
    · exact .refused [0x5c, 0x75, h₁, h₂, h₃, h₄] fun rest => by simp [contents, hunit, hlow]
    by_cases hhigh : 0xd800 ≤ n ∧ n ≤ 0xdbff
    · exact turn_half hunit hhigh done rest
    · exact .more [0x5c, 0x75, h₁, h₂, h₃, h₄] (Nat.succ_pos _) (contents_whole hunit (by omega) done)

theorem turn_escape (done rest : List UInt8) : Turn done (0x5c :: rest) := by
  cases rest with
  | nil => exact .short (by simp [contents])
  | cons e rest =>
    by_cases hletter : e = 0x75
    · subst hletter
      exact turn_numbered done rest
    cases hshort : simpleEscape? e with
    | none => exact .refused [0x5c, e] fun rest => by rw [contents.eq_def]; simp [hletter, hshort]
    | some c => exact .more [0x5c, e] (Nat.succ_pos _) (contents_short hshort done)

theorem turn (done bytes : List UInt8) : Turn done bytes := by
  cases bytes with
  | nil => exact .short (by simp [contents])
  | cons b rest =>
    by_cases hquote : b = 0x22
    · subst hquote
      exact .ends [0x22] (contents_quote done)
    by_cases hescape : b = 0x5c
    · subst hescape
      exact turn_escape done rest
    by_cases hcontrol : b < 0x20
    · exact .refused [b] fun rest => by rw [contents.eq_def]; simp [hquote, hescape, hcontrol]
    · exact .more [b] (Nat.succ_pos _) (contents_cons ⟨hquote, hescape, hcontrol⟩ done)

/-- By induction on the length of the text, one turn at a time. -/
theorem local_contents (done : List UInt8) : Local (contents done) := by
  have hturns (n : Nat) : ∀ (done bytes : List UInt8), bytes.length < n →
      (left (contents done bytes)).length ≤ bytes.length ∧
        ∀ more, left (contents done bytes) ≠ [] →
          contents done (bytes ++ more) = extend more (contents done bytes) := by
    induction n with
    | zero => exact fun _ _ hlength => absurd hlength (Nat.not_lt_zero _)
    | succ n ih =>
      intro done bytes hlength
      cases turn done bytes with
      | short h =>
        rw [h]
        exact ⟨Nat.zero_le _, fun _ hleft => absurd rfl hleft⟩
      | ends taken h | refused taken h =>
        rw [h]
        refine ⟨by simp, fun more _ => ?_⟩
        rw [List.append_assoc, h]
        rfl
      | @more taken rest done' pos h =>
        rw [List.length_append] at hlength ⊢
        obtain ⟨hshrinks, hgoesOn⟩ := ih done' rest (by omega)
        rw [h]
        refine ⟨Nat.le_trans hshrinks (Nat.le_add_left ..), fun more hleft => ?_⟩
        rw [List.append_assoc, h]
        exact hgoesOn more hleft
  exact ⟨fun bytes => (hturns _ done bytes (Nat.lt_succ_self _)).1,
    fun bytes more => (hturns _ done bytes (Nat.lt_succ_self _)).2 more⟩

theorem local_text : Local text := by
  refine (local_contents []).bind fun bytes => ?_
  cases Utf8.decode? bytes with
  | none => exact .throw _
  | some s => exact .pure s

theorem local_real (negative : Bool) (significand : Nat) (exponent : Int) :
    Local (real negative significand exponent) := by
  unfold real
  cases scaled 4 significand.toUInt64.toFloat exponent with
  | none => exact .throw _
  | some x => exact .pure _

theorem length_absorbExponent (value : Nat) (ds : List UInt8) : (absorbExponent value ds).2.length ≤ ds.length := by
  induction ds generalizing value with
  | nil => exact Nat.le_refl _
  | cons d ds ih =>
    rw [absorbExponent]
    split
    · exact Nat.le_succ_of_le (ih _)
    · exact Nat.le_refl _

/-- Where digits are left over more digits change nothing. -/
theorem absorbExponent_append {value : Nat} {ds : List UInt8} (h : (absorbExponent value ds).2 ≠ [])
    (more : List UInt8) :
    absorbExponent value (ds ++ more) = ((absorbExponent value ds).1, (absorbExponent value ds).2 ++ more) := by
  induction ds generalizing value with
  | nil => exact absurd rfl h
  | cons d ds ih =>
    by_cases hd : value * 10 + digitOf d < 0x80000000
    · simp only [List.cons_append, absorbExponent, if_pos hd] at h ⊢
      exact ih h
    · simp only [List.cons_append, absorbExponent, if_neg hd]

/-- Digits that are left over stay left over, with what follows behind them, whether or not more digits follow. -/
theorem overflow_append {value : Nat} {d b : UInt8} {bytes beyond : List UInt8}
    (h : absorbExponent 0 (d :: bytes.takeWhile isDigit) = (value, b :: beyond)) (more : List UInt8) :
    ∃ beyond', absorbExponent 0 (d :: (bytes ++ more).takeWhile isDigit) = (value, b :: beyond') ∧
      beyond' ++ (bytes ++ more).dropWhile isDigit = beyond ++ bytes.dropWhile isDigit ++ more := by
  by_cases hstops : bytes.dropWhile isDigit = []
  · have hall := List.takeWhile_append_dropWhile (p := isDigit) (l := bytes)
    rw [hstops, List.append_nil] at hall
    have hdigits := List.takeWhile_append_dropWhile (p := isDigit) (l := more)
    rw [hall] at h
    have hleft : (absorbExponent 0 (d :: bytes)).2 ≠ [] := by simp [h]
    have happend := absorbExponent_append hleft (more.takeWhile isDigit)
    rw [h] at happend
    refine ⟨beyond ++ more.takeWhile isDigit, ?_, ?_⟩
    · rw [List.takeWhile_append, if_pos (by rw [hall])]
      exact happend
    · rw [List.dropWhile_append, if_pos (by simp [hstops]), hstops, List.append_nil, List.append_assoc, hdigits]
  · refine ⟨beyond, ?_, ?_⟩
    · rw [takeWhile_append_of_stops hstops, h]
    · rw [dropWhile_append_of_stops hstops, List.append_assoc]

theorem local_exponentPart (negative : Bool) (significand : Nat) (start : Int) :
    Local (exponentPart negative significand start) := by
  refine local_advance.bind fun _ => .look (fun bytes => ?_) fun _ _ _ => rfl
  extract_lets sign following
  have hfollowing (c : Unit) : Local (following c) := by
    refine local_next.bindOption (.throw _) fun d => ?_
    refine .ite (.resumes fun bytes => ?_) (.throw _)
    have hdrop := length_dropWhile_le isDigit bytes
    have hover := length_absorbExponent 0 (d :: bytes.takeWhile isDigit)
    cases hvalue : absorbExponent 0 (d :: bytes.takeWhile isDigit) with | mk value beyond =>
    rw [hvalue] at hover
    cases beyond with
    | nil =>
      refine ⟨bytes.dropWhile isDigit, _,
        local_real negative significand (if sign = some 0x2d then start - value else start + value), hdrop, ?_,
        fun hrest more => ?_⟩
      · rw [bind_of_ok (get_ok bytes), hvalue]
        rfl
      · rw [bind_of_ok (get_ok _), takeWhile_append_of_stops hrest, dropWhile_append_of_stops hrest, hvalue]
        rfl
    | cons b beyond =>
      by_cases hrange : significand ≠ 0 ∧ sign ≠ some 0x2d
      · refine ⟨beyond ++ bytes.dropWhile isDigit, _, .throw .malformed, ?_, ?_, fun _ more => ?_⟩
        · have hlength := congrArg List.length (List.takeWhile_append_dropWhile (p := isDigit) (l := bytes))
          simp only [List.length_append, List.length_cons] at hlength hover ⊢
          omega
        · rw [bind_of_ok (get_ok bytes), hvalue]
          simp only [if_pos hrange]
          rfl
        · obtain ⟨beyond', hvalue', hrest⟩ := overflow_append hvalue more
          rw [bind_of_ok (get_ok _), hvalue', ← hrest]
          simp only [if_pos hrange]
          rfl
      · refine ⟨bytes.dropWhile isDigit, _, .pure (.real (.ofFloat (if negative then -0.0 else 0.0))), hdrop, ?_,
          fun hrest more => ?_⟩
        · rw [bind_of_ok (get_ok bytes), hvalue]
          simp only [if_neg hrange]
          rfl
        · rw [bind_of_ok (get_ok _), takeWhile_append_of_stops hrest, dropWhile_append_of_stops hrest, hvalue]
          simp only [if_neg hrange]
          rfl
  exact .ite (local_advance.bind hfollowing) (hfollowing ())

theorem local_afterDigits (negative : Bool) (significand : Nat) (exponent : Int) :
    Local (afterDigits negative significand exponent) := by
  refine .look (fun bytes => ?_) fun _ _ _ => rfl
  exact .ite (local_exponentPart ..) (local_real ..)

theorem local_fractionPart (negative : Bool) (significand : Nat) (exponent : Int) :
    Local (fractionPart negative significand exponent) := by
  refine local_advance.bind fun _ => local_digits.bind fun places => ?_
  extract_lets following
  have hfollowing (c : Unit) : Local (following c) := local_afterDigits ..
  refine .ite (.look (fun bytes => ?_) fun _ _ _ => rfl) (hfollowing ())
  exact (Local.throw _).bind hfollowing

theorem local_wholeOrReal (negative : Bool) (value : Nat) : Local (wholeOrReal negative value) :=
  .ite (.pure _) (.ite (.pure _) (.pure _))

theorem local_numeral (negative : Bool) : Local (numeral negative) := by
  refine local_next.bindOption (.throw _) fun d => ?_
  refine .ite (.throw _) ?_
  extract_lets ending integer
  have hending (more : List UInt8) : Local (ending more) := by
    refine .look (fun bytes => ?_) fun _ _ _ => rfl
    exact .ite (local_fractionPart ..) (.ite (local_exponentPart ..) (.ite (local_wholeOrReal ..) (local_real ..)))
  have hinteger (c : Unit) : Local (integer c) :=
    .ite ((Local.pure []).bind hending) (local_digits.bind hending)
  refine .ite (.look (fun bytes => ?_) fun _ _ _ => rfl) (hinteger ())
  exact .ite ((Local.throw _).bind hinteger) (hinteger ())

theorem local_signedNumeral : Local signedNumeral := by
  refine .look (fun bytes => ?_) fun _ _ _ => rfl
  exact .ite (local_advance.bind fun _ => local_numeral true) (local_numeral false)

/-! ## Values -/

theorem local_refuse {α : Type} (wanted : String) : Local (refuse wanted : Reader α) := by
  refine local_peek.bindOption (.throw _) fun b => ?_
  have hword (w : List UInt8) (cause : Mismatch) : Local (do advance; word w; mismatch cause : Reader α) :=
    local_advance.bind fun _ => (local_word w).bind fun _ => .mismatch cause
  refine .ite (hword _ _) (.ite (hword _ _) (.ite (hword _ _) (.ite ?_ (.ite ?_ ?_))))
  · exact local_signedNumeral.bind fun n => .mismatch _
  · exact local_advance.bind fun _ => local_text.bind fun s => .mismatch _
  · exact .ite (.mismatch _) (.ite (.mismatch _) (.throw _))

theorem local_string : Local string :=
  local_peek.bindOption (.throw _) fun _ => .ite (local_advance.bind fun _ => local_text) (local_refuse _)

theorem local_parsed {α : Type} (read : String → Except Mismatch α) : Local (parsed read) := by
  refine local_string.bind fun s => ?_
  cases read s with
  | ok a => exact .pure a
  | error cause => exact .mismatch cause

theorem local_boolean : Local boolean := by
  refine local_peek.bindOption (.throw _) fun b => ?_
  have hword (w : List UInt8) (value : Bool) : Local (do advance; word w; pure value : Reader Bool) :=
    local_advance.bind fun _ => (local_word w).bind fun _ => .pure value
  exact .ite (hword _ _) (.ite (hword _ _) (local_refuse _))

theorem local_integer (wanted : String) (low high : Int) : Local (integer wanted low high) := by
  refine local_peek.bindOption (.throw _) fun b => ?_
  refine .ite (local_signedNumeral.bind fun n => ?_) (local_refuse _)
  cases n with
  | whole n => exact .ite (.pure n) (.mismatch _)
  | real x => exact .mismatch _

theorem local_byte : Local byte := (local_integer ..).bind fun _ => .pure _

theorem local_int64 : Local int64 := (local_integer ..).bind fun _ => .pure _

theorem Local.optional {α : Type} {reader : Reader α} (h : Local reader) : Local (optional reader) := by
  refine local_peek.bind fun b => ?_
  split
  · exact local_advance.bind fun _ => (local_word _).bind fun _ => .pure none
  · exact h.map some

/-! ## Lists -/

section

variable {α : Type} {item : Reader α}

theorem Local.nextItem (h : Local item) (isFirst : Bool) : Local (nextItem isFirst item) := by
  refine local_peek.bindOption (.throw _) fun b => ?_
  refine .ite (.pure none) (.ite (h.map some) (.ite ?_ (.throw _)))
  exact local_advance.bind fun _ => local_peek.bindOption (.throw _) fun b => .ite (.throw _) (h.map some)

theorem local_closeList : Local closeList :=
  local_peek.bindOption (.throw _) fun _ => .ite local_advance (.throw _)

theorem local_exactBytes (wanted : String) (count : Nat) (done : List UInt8) :
    Local (exactBytes wanted count done) := by
  induction count generalizing done with
  | zero => exact .pure _
  | succ count ih =>
    exact (local_byte.nextItem _).bindOption (.mismatch _) fun b => ih _

/-- An item behind a comma takes more than itself. -/
theorem length_nextItem (h : Local item) {bytes rest : List UInt8} {a : α}
    (hread : nextItem false item bytes = .ok (some a) rest) : rest.length < bytes.length := by
  rw [Json.nextItem] at hread
  obtain ⟨b, mid, hpeek, hread⟩ := of_bind_ok hread
  cases b with
  | none => cases hread
  | some b =>
    obtain ⟨tail, rfl, hlength⟩ := peek_some hpeek
    simp only [Bool.false_eq_true, if_false] at hread
    split at hread
    · cases hread
    split at hread
    · rw [bind_of_ok (advance_cons ..)] at hread
      have hmore := Local.length_ok (local_peek.bindOption (.throw _) fun b => .ite (.throw _) (h.map some)) hread
      exact Nat.lt_of_le_of_lt hmore hlength
    · cases hread

theorem Local.items (h : Local item) (bound : Nat) (isFirst : Bool) (done : List α) :
    Local (items item bound isFirst done) := by
  induction bound generalizing isFirst done with
  | zero => exact .throw _
  | succ bound ih =>
    exact (h.nextItem isFirst).bindOption (.pure _) fun a => ih false _

/-- A bound that is not below the length of the text is never reached, whatever it is. -/
theorem items_bound (h : Local item) {bytes : List UInt8} {bound bound' : Nat} (hlength : bytes.length ≤ bound)
    (hle : bound ≤ bound') (done : List α) :
    items item bound' false done bytes = items item bound false done bytes := by
  induction bound generalizing bytes bound' done with
  | zero =>
    obtain rfl := List.length_eq_zero_iff.mp (Nat.le_zero.mp hlength)
    cases bound' with
    | zero => rfl
    | succ bound' => rfl
  | succ bound ih =>
    obtain ⟨bound', rfl⟩ := Nat.exists_eq_add_one.mpr (Nat.lt_of_lt_of_le (Nat.succ_pos bound) hle)
    rw [Json.items, Json.items]
    cases hitem : Json.nextItem false item bytes with
    | error fault rest => rw [bind_of_error hitem, bind_of_error hitem]
    | ok a rest =>
      rw [bind_of_ok hitem, bind_of_ok hitem]
      cases a with
      | none => rfl
      | some a =>
        have hrest := length_nextItem h hitem
        exact ih (by omega) (Nat.le_of_succ_le_succ hle) (a :: done)

theorem Local.allItems (h : Local item) : Local (allItems item) := by
  refine .bounded (fun bound => Json.items item bound true []) (fun bound => h.items bound true [])
    fun bytes bound hlength => ?_
  obtain ⟨bound, rfl⟩ := Nat.exists_eq_add_one.mpr (Nat.zero_lt_of_lt hlength)
  refine (h.nextItem true).bind_congr fun a rest hrest => ?_
  cases a with
  | none => rfl
  | some a => exact items_bound h hrest (Nat.le_of_lt_succ hlength) [a]

theorem Local.list (h : Local item) : Local (list item) := by
  refine local_peek.bindOption (.throw _) fun b => ?_
  refine .ite ?_ (local_refuse _)
  exact local_advance.bind fun _ => h.allItems.bind fun as => local_closeList.bind fun _ => .pure as

theorem Local.textOr (h : Local item) (wanted : String) (ofText : String → Except Mismatch α) :
    Local (textOr wanted ofText item) := by
  refine local_peek.bindOption (.throw _) fun b => ?_
  refine .ite (local_parsed _) (.ite ?_ (local_refuse _))
  exact local_advance.bind fun _ => h.bind fun a => local_closeList.bind fun _ => .pure a

theorem local_fixedBytes (n : Nat) : Local (fixedBytes n) := by
  refine .textOr ?_ _ _
  refine (local_exactBytes ..).bind fun bytes => ?_
  refine (Local.tryCatch (local_byte.nextItem _) fun _ => .pure none).bind fun extra => ?_
  extract_lets ending
  have hending (c : Unit) : Local (ending c) := by
    simp only [ending]
    cases Bytes.ofLength? n bytes with
    | none => exact .mismatch _
    | some fixed => exact .pure fixed
  exact .ite ((Local.mismatch _).bind hending) (hending ())

theorem local_anyBytes : Local anyBytes := .textOr local_byte.allItems _ _

end

/-! ## Skipping -/

theorem local_skipFrom (state : Expecting) (opened : List Bracket) : Local (skipFrom state opened) := by
  refine ⟨fun bytes => ?_, fun bytes more hleft => ?_⟩
  · induction bytes generalizing state opened with
    | nil =>
      rw [skipFrom]
      split <;> exact Nat.le_refl _
    | cons b rest ih =>
      rw [skipFrom]
      split
      · exact Nat.le_refl _
      · split
        · exact Nat.le_succ_of_le (ih _ _)
        · exact Nat.le_succ _
  · induction bytes generalizing state opened with
    | nil =>
      rw [skipFrom] at hleft
      split at hleft <;> exact absurd rfl hleft
    | cons b rest ih =>
      rw [skipFrom] at hleft
      rw [List.cons_append, skipFrom, skipFrom]
      split
      · rfl
      · rename_i hgoes
        rw [if_neg hgoes] at hleft
        cases hstep : step state b opened with
        | ok next =>
          simp only [hstep] at hleft ⊢
          exact ih _ _ hleft
        | error fault => rfl

theorem local_skip : Local skip := local_skipFrom .value []

end LogGateway.Json
