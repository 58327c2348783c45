/-
Trimming and cutting texts. Blanks around a text make no difference once it is trimmed. A text is cut at the first mark
in it, or into the one list of pieces that have no separator and give the text when they are joined by it. Lower case
neither makes nor takes blanks.
-/
import LogGateway.Text.Pieces

namespace LogGateway.Text

/-! ## Trimming -/

theorem dropEndWhile_append {p : Char → Bool} (cs : List Char) {after : List Char} (h : ∀ c ∈ after, p c = true) :
    dropEndWhile p (cs ++ after) = dropEndWhile p cs := by
  induction cs with
  | nil =>
    induction after with
    | nil => rfl
    | cons c after ih =>
      obtain ⟨hc, hafter⟩ := List.forall_mem_cons.mp h
      have hnone : dropEndWhile p after = [] := ih hafter
      simp [dropEndWhile, hnone, hc]
  | cons c cs ih => rw [List.cons_append, dropEndWhile, dropEndWhile, ih]

/-- A run that satisfies the predicate is dropped from the end, and what is left does not end in it. -/
theorem dropEndWhile_spec (p : Char → Bool) (cs : List Char) :
    (∃ run, cs = dropEndWhile p cs ++ run ∧ ∀ c ∈ run, p c = true) ∧
      ∀ c ∈ (dropEndWhile p cs).getLast?, p c = false := by
  induction cs with
  | nil => exact ⟨⟨[], rfl, List.forall_mem_nil _⟩, fun c hc => nomatch hc⟩
  | cons c cs ih =>
    obtain ⟨⟨run, hrun, hall⟩, hlast⟩ := ih
    rw [dropEndWhile]
    cases hkept : dropEndWhile p cs with
    | nil =>
      rw [hkept] at hrun
      cases hc : p c with
      | true => exact ⟨⟨c :: run, by simpa using hrun, List.forall_mem_cons.mpr ⟨hc, hall⟩⟩, fun d hd => nomatch hd⟩
      | false => exact ⟨⟨run, by simpa using hrun, hall⟩, by simpa using hc⟩
    | cons d ds =>
      rw [hkept] at hrun hlast
      exact ⟨⟨run, by simpa using hrun, hall⟩, by simpa using hlast⟩

theorem dropEndWhile_eq_self {p : Char → Bool} {cs : List Char} (h : ∀ c ∈ cs.getLast?, p c = false) :
    dropEndWhile p cs = cs := by
  obtain ⟨⟨run, hrun, hall⟩, -⟩ := dropEndWhile_spec p cs
  cases hlast : run.getLast? with
  | none =>
    rw [List.getLast?_eq_none_iff.mp hlast, List.append_nil] at hrun
    exact hrun.symm
  | some c =>
    have hc : p c = false := h c (by rw [hrun, List.getLast?_append, hlast]; rfl)
    rw [hall c (List.mem_of_getLast? hlast)] at hc
    cases hc

/-- A text that neither begins nor ends with a blank. -/
structure Trimmed (cs : List Char) : Prop where
  first : ∀ c ∈ cs.head?, isBlank c = false
  last : ∀ c ∈ cs.getLast?, isBlank c = false

/-- What is trimmed already is left as it is. -/
theorem Trimmed.trimChars_eq {cs : List Char} (h : Trimmed cs) : trimChars cs = cs := by
  have hstart : cs.dropWhile isBlank = cs := by
    cases cs with
    | nil => rfl
    | cons c cs => exact List.dropWhile_cons_of_neg (by simp [h.first c rfl])
  rw [trimChars, trimStart, trimEnd, hstart, dropEndWhile_eq_self h.last]

/-- Trimming takes blanks from either side, and all of them. -/
theorem trimChars_spec (cs : List Char) :
    Trimmed (trimChars cs) ∧ ∃ before after : List Char, cs = before ++ trimChars cs ++ after ∧
      (∀ c ∈ before, isBlank c = true) ∧ ∀ c ∈ after, isBlank c = true := by
  obtain ⟨⟨after, hafter, hall⟩, hlast⟩ := dropEndWhile_spec isBlank (cs.dropWhile isBlank)
  refine ⟨⟨fun c hc => ?_, hlast⟩, cs.takeWhile isBlank, after, ?_, List.all_eq_true.mp List.all_takeWhile, hall⟩
  · -- it begins as the text without the blanks at its start does
    have hhead := List.head?_dropWhile_not isBlank cs
    have hfirst : (cs.dropWhile isBlank).head? = some c := by
      rw [hafter, List.head?_append]
      exact Option.or_eq_some_iff.mpr (.inl hc)
    rw [hfirst] at hhead
    simpa using hhead
  · have hsplit := List.takeWhile_append_dropWhile (p := isBlank) (l := cs)
    rw [hafter] at hsplit
    rw [List.append_assoc]
    exact hsplit.symm

theorem trimChars_idem (cs : List Char) : trimChars (trimChars cs) = trimChars cs := (trimChars_spec cs).1.trimChars_eq

theorem trimChars_infix (cs : List Char) : trimChars cs <:+: cs := by
  obtain ⟨-, before, after, hsplit, -⟩ := trimChars_spec cs
  exact ⟨before, after, hsplit.symm⟩

/-- Where there are no blanks there is nothing to trim. -/
theorem trimmed_of_not_blank {cs : List Char} (h : ∀ c ∈ cs, isBlank c = false) : Trimmed cs :=
  ⟨fun c hc => h c (List.mem_of_mem_head? hc), fun c hc => h c (List.mem_of_mem_getLast? hc)⟩

theorem Trimmed.append {cs ds : List Char} (h : Trimmed cs) (h' : ∀ d ∈ ds, isBlank d = false) : Trimmed (cs ++ ds) := by
  constructor
  · intro c hc
    rw [List.head?_append, Option.mem_def, Option.or_eq_some_iff] at hc
    rcases hc with hc | ⟨-, hc⟩
    · exact h.first c hc
    · exact h' c (List.mem_of_mem_head? hc)
  · intro c hc
    rw [List.getLast?_append, Option.mem_def, Option.or_eq_some_iff] at hc
    rcases hc with hc | ⟨-, hc⟩
    · exact h' c (List.mem_of_mem_getLast? hc)
    · exact h.last c hc

/-- Blanks on either side are trimmed with the rest. -/
theorem trimChars_surrounded {before after : List Char} (hbefore : ∀ c ∈ before, isBlank c = true) (cs : List Char)
    (hafter : ∀ c ∈ after, isBlank c = true) : trimChars (before ++ cs ++ after) = trimChars cs := by
  have hend (cs : List Char) : dropEndWhile isBlank (cs ++ after) = dropEndWhile isBlank cs :=
    dropEndWhile_append cs hafter
  rw [trimChars, trimStart, trimEnd, trimChars, trimStart, trimEnd, List.append_assoc,
    List.dropWhile_append_of_pos hbefore, List.dropWhile_append]
  split
  · rename_i hall
    have hnone : after.dropWhile isBlank = [] := by
      have hsame : (after ++ []).dropWhile isBlank = [].dropWhile isBlank := List.dropWhile_append_of_pos hafter
      simpa using hsame
    rw [List.isEmpty_iff.mp hall, hnone]
  · exact hend _

/-! ## Letter case -/

/-- Lower case moves the ASCII capitals and nothing else. -/
theorem toLower_cases (c : Char) :
    c.toLower = c ∨ 65 ≤ c.toNat ∧ c.toNat ≤ 90 ∧ c.toLower.toNat = c.toNat + 32 := by
  delta Char.toLower
  split
  · rename_i hcapital
    right
    have hlow : 65 ≤ c.val.toNat := UInt32.le_iff_toNat_le.mp hcapital.1
    have hhigh : c.val.toNat ≤ 90 := UInt32.le_iff_toNat_le.mp hcapital.2
    refine ⟨hlow, hhigh, ?_⟩
    show (c.val + ('a'.val - 'A'.val)).toNat = c.val.toNat + 32
    rw [UInt32.toNat_add, show ('a'.val - 'A'.val).toNat = 32 by decide]
    omega
  · exact .inl rfl

theorem toLower_toLower (c : Char) : c.toLower.toLower = c.toLower := by
  rcases toLower_cases c with h | ⟨hlow, -, h⟩
  · rw [h, h]
  · rcases toLower_cases c.toLower with h' | ⟨-, hhigh, -⟩
    · exact h'
    · omega

/-- A character before the capitals is had in lower case from itself alone. -/
theorem toLower_eq_iff {c d : Char} (hd : d.toNat < 65) : c.toLower = d ↔ c = d := by
  rcases toLower_cases c with h | ⟨hlow, -, h⟩
  · rw [h]
  · constructor
    · rintro rfl
      omega
    · rintro rfl
      omega

theorem isBlank_toLower (c : Char) : isBlank c.toLower = isBlank c := by
  rcases toLower_cases c with h | ⟨hlow, hhigh, h⟩
  · rw [h]
  · rw [Bool.eq_iff_iff]
    simp only [isBlank, h]
    simp
    omega

/-! ## Cutting once -/

section

variable {mark before after cs : List Char}

theorem not_infix_dropLast (hmark : mark ≠ []) : ¬ mark <:+: mark.dropLast := by
  intro h
  have hle := h.length_le
  have hpos := List.length_pos_iff.mpr hmark
  rw [List.length_dropLast] at hle
  omega

/-- A mark does not begin in a text that has not its first character. -/
theorem not_infix_of_not_mem {m : Char} (hm : m ∉ before) : ¬ m :: mark <:+: before ++ (m :: mark).dropLast := by
  induction before with
  | nil => exact not_infix_dropLast (List.cons_ne_nil m mark)
  | cons c before ih =>
    rw [List.mem_cons, not_or] at hm
    intro h
    rcases List.infix_cons_iff.mp h with hbegins | hinfix
    · exact hm.1 (List.cons_prefix_cons.mp hbegins).1
    · exact ih hm.2 hinfix

/-- A text is cut where the mark is, if the mark does not begin before. -/
theorem cutOnce_append (hmark : mark ≠ []) (hfirst : ¬ mark <:+: before ++ mark.dropLast) (after : List Char) :
    cutOnce mark (before ++ (mark ++ after)) = some (before, after) := by
  induction before with
  | nil =>
    cases mark with
    | nil => exact absurd rfl hmark
    | cons m mark => simp [cutOnce]
  | cons c before ih =>
    have hrest := ih fun h => hfirst (List.infix_cons h)
    -- a mark that begins here has ended before the last character of the one that follows
    have hhere : ¬ mark <+: c :: (before ++ (mark ++ after)) := by
      intro h
      have hends : c :: (before ++ mark.dropLast) <+: c :: (before ++ (mark ++ after)) := by
        simpa using (List.dropLast_prefix mark).trans (List.prefix_append mark after)
      refine hfirst (List.prefix_of_prefix_length_le h hends ?_).isInfix
      simp
      omega
    rw [List.cons_append, cutOnce, if_neg (by simpa using hhere), hrest]
    rfl

/-- What a text is cut into gives the text, and the mark does not begin before. -/
theorem cutOnce_spec (hmark : mark ≠ []) (h : cutOnce mark cs = some (before, after)) :
    cs = before ++ (mark ++ after) ∧ ¬ mark <:+: before ++ mark.dropLast := by
  induction cs generalizing before with
  | nil => simp [cutOnce, hmark] at h
  | cons c cs ih =>
    rw [cutOnce] at h
    split at h
    · rename_i hhere
      cases h
      obtain ⟨rest, hrest⟩ := List.isPrefixOf_iff_prefix.mp hhere
      exact ⟨by simp [← hrest], not_infix_dropLast hmark⟩
    · rename_i hhere
      rw [List.isPrefixOf_iff_prefix] at hhere
      cases hcut : cutOnce mark cs with
      | none => simp [hcut] at h
      | some parts =>
        obtain ⟨before', after'⟩ := parts
        simp only [hcut, Option.map_some, Option.some.injEq, Prod.mk.injEq] at h
        obtain ⟨rfl, rfl⟩ := h
        obtain ⟨rfl, hfirst⟩ := ih hcut
        refine ⟨rfl, fun hinfix => ?_⟩
        rcases List.infix_cons_iff.mp hinfix with hbegins | hinfix
        · refine hhere (hbegins.trans ?_)
          simpa using (List.dropLast_prefix mark).trans (List.prefix_append mark after')
        · exact hfirst hinfix

/-- A text without the mark is not cut, and no other is left whole. -/
theorem cutOnce_eq_none_iff (hmark : mark ≠ []) : cutOnce mark cs = none ↔ ¬ mark <:+: cs := by
  constructor
  · rintro h ⟨before, after, rfl⟩
    induction before with
    | nil =>
      cases mark with
      | nil => exact hmark rfl
      | cons m mark => simp [cutOnce] at h
    | cons c before ih =>
      simp only [List.cons_append] at h
      rw [cutOnce] at h
      split at h
      · cases h
      · exact ih (by simpa using h)
  · intro h
    cases hcut : cutOnce mark cs with
    | none => rfl
    | some parts =>
      obtain ⟨rfl, -⟩ := cutOnce_spec hmark hcut
      exact absurd ⟨parts.1, parts.2, by simp⟩ h

end

/-! ## Pieces -/

section

variable {α : Type} {separator : α}

theorem intercalate_cons {p q : List α} (ps : List (List α)) :
    [separator].intercalate (p :: q :: ps) = p ++ separator :: [separator].intercalate (q :: ps) := by
  rw [List.intercalate_cons_cons, List.append_assoc]
  rfl

variable [DecidableEq α]

theorem pieces_ne_nil (separator : α) (cs : List α) : pieces separator cs ≠ [] := by
  cases cs with
  | nil => simp [pieces]
  | cons c cs =>
    rw [pieces]
    split
    · simp
    · split <;> simp

theorem pieces_cons_separator (separator : α) (cs : List α) :
    pieces separator (separator :: cs) = [] :: pieces separator cs := by
  obtain ⟨p, ps, hps⟩ := List.exists_cons_of_ne_nil (pieces_ne_nil separator cs)
  simp [pieces, hps]

theorem pieces_cons_of_ne {c : α} (hc : c ≠ separator) {cs p : List α} {ps : List (List α)}
    (h : pieces separator cs = p :: ps) : pieces separator (c :: cs) = (c :: p) :: ps := by
  simp [pieces, h, hc]

/-- Joined by the separator the pieces give the text, and none of them has it. -/
theorem pieces_spec (separator : α) (cs : List α) :
    [separator].intercalate (pieces separator cs) = cs ∧ ∀ p ∈ pieces separator cs, separator ∉ p := by
  induction cs with
  | nil => simp [pieces]
  | cons c cs ih =>
    obtain ⟨hjoin, hnone⟩ := ih
    obtain ⟨p, ps, hps⟩ := List.exists_cons_of_ne_nil (pieces_ne_nil separator cs)
    rw [hps] at hjoin hnone
    by_cases hc : c = separator
    · subst hc
      rw [pieces_cons_separator, hps, intercalate_cons, hjoin]
      exact ⟨rfl, List.forall_mem_cons.mpr ⟨List.not_mem_nil, hnone⟩⟩
    · obtain ⟨hp, hrest⟩ := List.forall_mem_cons.mp hnone
      rw [pieces_cons_of_ne hc hps]
      refine ⟨?_, List.forall_mem_cons.mpr ⟨?_, hrest⟩⟩
      · rw [← hjoin]
        cases ps with
        | nil => rfl
        | cons q ps => rw [intercalate_cons, intercalate_cons, List.cons_append]
      · simp [hp, Ne.symm hc]

theorem pieces_append_of_not_mem {p cs q : List α} {ps : List (List α)} (hp : separator ∉ p)
    (h : pieces separator cs = q :: ps) : pieces separator (p ++ cs) = (p ++ q) :: ps := by
  induction p with
  | nil => exact h
  | cons c p ih =>
    rw [List.mem_cons, not_or] at hp
    exact pieces_cons_of_ne (Ne.symm hp.1) (ih hp.2)

/-- Where a separator is found first there is only one way to cut a list at it. -/
theorem append_separator_inj {p p' cs cs' : List α} (hp : separator ∉ p) (hp' : separator ∉ p')
    (h : p ++ separator :: cs = p' ++ separator :: cs') : p = p' ∧ cs = cs' := by
  have hpieces := congrArg (pieces separator) h
  rw [pieces_append_of_not_mem hp (pieces_cons_separator ..), pieces_append_of_not_mem hp' (pieces_cons_separator ..),
    List.append_nil, List.append_nil] at hpieces
  obtain ⟨rfl, -⟩ := List.cons.inj hpieces
  exact ⟨rfl, (List.cons.inj (List.append_cancel_left h)).2⟩

/-- Pieces that were joined are cut apart again. -/
theorem pieces_intercalate {p : List α} {ps : List (List α)} (h : ∀ q ∈ p :: ps, separator ∉ q) :
    pieces separator ([separator].intercalate (p :: ps)) = p :: ps := by
  induction ps generalizing p with
  | nil =>
    obtain ⟨hp, -⟩ := List.forall_mem_cons.mp h
    have hpieces : pieces separator (p ++ []) = [p ++ []] := pieces_append_of_not_mem hp rfl
    simpa using hpieces
  | cons q ps ih =>
    obtain ⟨hp, hps⟩ := List.forall_mem_cons.mp h
    have hmore : pieces separator (separator :: [separator].intercalate (q :: ps)) = [] :: q :: ps := by
      rw [pieces_cons_separator, ih hps]
    rw [intercalate_cons, pieces_append_of_not_mem hp hmore, List.append_nil]

end

/-- The pieces of a text have no separator, and give the text when they are joined by it. -/
theorem splitAt_spec (separator : Char) (s : String) :
    (String.singleton separator).intercalate (splitAt separator s) = s ∧
      ∀ piece ∈ splitAt separator s, separator ∉ piece.toList := by
  obtain ⟨hjoin, hnone⟩ := pieces_spec separator s.toList
  have hlists : (splitAt separator s).map String.toList = pieces separator s.toList := by
    simp [splitAt, Function.comp_def]
  refine ⟨String.toList_injective ?_, fun piece hpiece => hnone _ (hlists ▸ List.mem_map_of_mem hpiece)⟩
  rw [String.toList_intercalate, hlists, String.toList_singleton, hjoin]

/-- Texts without the separator that were joined by it are cut apart again. -/
theorem splitAt_intercalate {separator : Char} {piece : String} {rest : List String}
    (h : ∀ p ∈ piece :: rest, separator ∉ p.toList) :
    splitAt separator ((String.singleton separator).intercalate (piece :: rest)) = piece :: rest := by
  have hlists : ∀ p ∈ piece.toList :: rest.map String.toList, separator ∉ p := by
    rw [← List.map_cons]
    exact List.forall_mem_map.mpr h
  rw [splitAt, String.toList_intercalate, String.toList_singleton, List.map_cons, pieces_intercalate hlists,
    ← List.map_cons, List.map_map]
  simp [Function.comp_def]

end LogGateway.Text
