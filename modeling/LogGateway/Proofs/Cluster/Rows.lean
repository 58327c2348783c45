/-
The rows of the distribution report as they are printed. Each says how many keys a URL got, or how many got nowhere, and
with a URL what share of them that is, in digits, with a point. Main statement: a row says one URL and one number only,
whatever signs the URL has, as there is no percent sign before the one that the share ends with.
-/
import LogGateway.Gateway
import LogGateway.Proofs.Ring.Labels
import LogGateway.Proofs.Text.Pieces

namespace LogGateway.Spread

/-- A number in decimal with blanks before it, up to eight characters. -/
def padded (n : Nat) : List Char :=
  List.replicate (8 - (Nat.toDigits 10 n).length) ' ' ++ Nat.toDigits 10 n

/-- The row tells what a URL got, or what nobody got. -/
inductive Says : Option String × Nat → List Char → Prop
  | got {url : String} {held : Nat} {share : List Char} (hshare : ∀ c ∈ share, c.isDigit = true ∨ c ∈ [' ', '.', '-']) :
      Says (some url, held) (padded held ++ ' ' :: share ++ "%  ".toList ++ url.toList)
  | lost {held : Nat} : Says (none, held) (padded held ++ "          (no node available)".toList)

/-- What the rows say. -/
def entries (rows : List (String × Nat)) (unrouted : Nat) : List (Option String × Nat) :=
  rows.map (fun (url, held) => (some url, held)) ++ if unrouted = 0 then [] else [(none, unrouted)]

/-! ## Reading a row -/

theorem not_mem_padded {c : Char} (hdigit : c.isDigit = false) (hblank : c ≠ ' ') (n : Nat) : c ∉ padded n := by
  intro hc
  rcases List.mem_append.1 hc with hc | hc
  · exact hblank (List.eq_of_mem_replicate hc)
  · rw [Nat.isDigit_of_mem_toDigits (by decide) (by decide) hc] at hdigit
    cases hdigit

theorem blank_not_mem_toDigits (n : Nat) : ' ' ∉ Nat.toDigits 10 n := by
  intro hblank
  have hdigit : ' '.isDigit = true := Nat.isDigit_of_mem_toDigits (by decide) (by decide) hblank
  exact absurd hdigit (by decide)

/-- Behind the blanks in front of it a number begins with a digit. -/
theorem dropWhile_padded (n : Nat) (rest : List Char) :
    (padded n ++ rest).dropWhile (· = ' ') = Nat.toDigits 10 n ++ rest := by
  have hblanks : ∀ c ∈ List.replicate (8 - (Nat.toDigits 10 n).length) ' ', decide (c = ' ') = true := fun c hc =>
    decide_eq_true (List.eq_of_mem_replicate hc)
  have hnone := blank_not_mem_toDigits n
  rw [padded, List.append_assoc, List.dropWhile_append_of_pos hblanks]
  cases hdigits : Nat.toDigits 10 n with
  | nil => exact absurd hdigits Nat.toDigits_ne_nil
  | cons d ds =>
    rw [hdigits, List.mem_cons, not_or] at hnone
    rw [List.cons_append, List.dropWhile_cons_of_neg (by simpa using Ne.symm hnone.1)]

/-- The number ends at the first blank behind it. -/
theorem padded_inj {n n' : Nat} {rest rest' : List Char} (h : padded n ++ ' ' :: rest = padded n' ++ ' ' :: rest') :
    n = n' ∧ rest = rest' := by
  have hdigits := congrArg (List.dropWhile (· = ' ')) h
  rw [dropWhile_padded, dropWhile_padded] at hdigits
  obtain ⟨hn, hrest⟩ :=
    Text.append_separator_inj (blank_not_mem_toDigits n) (blank_not_mem_toDigits n') hdigits
  exact ⟨Placement.toDigits_inj.1 hn, hrest⟩

theorem not_mem_share {c : Char} {share : List Char} (hshare : ∀ c ∈ share, c.isDigit = true ∨ c ∈ [' ', '.', '-'])
    (hdigit : c.isDigit = false) (hc : c ∉ [' ', '.', '-']) : c ∉ share := by
  intro hmem
  rcases hshare c hmem with h | h
  · rw [hdigit] at h
    cases h
  · exact hc h

/-- The rows of URLs have a percent sign. -/
theorem Says.percent_mem_iff {said : Option String × Nat} {line : List Char} (h : Says said line) :
    '%' ∈ line ↔ said.1.isSome = true := by
  cases h with
  | got => simp
  | lost => simp [not_mem_padded]

/-- A row says one thing. -/
theorem Says.unique {said said' : Option String × Nat} {line : List Char} (h : Says said line) (h' : Says said' line) :
    said = said' := by
  have hkind := h.percent_mem_iff.symm.trans h'.percent_mem_iff
  -- The percent sign of a share is the first in its row.
  have hfirst {held : Nat} {share : List Char} (hshare : ∀ c ∈ share, c.isDigit = true ∨ c ∈ [' ', '.', '-']) :
      '%' ∉ padded held ++ ' ' :: share := by
    simp [not_mem_padded, not_mem_share hshare]
  cases h with
  | @got url held share hshare =>
    generalize hline : padded held ++ ' ' :: share ++ "%  ".toList ++ url.toList = line at h'
    cases h' with
    | @got url' held' share' hshare' =>
      have hcut : padded held ++ ' ' :: share ++ '%' :: ' ' :: ' ' :: url.toList =
          padded held' ++ ' ' :: share' ++ '%' :: ' ' :: ' ' :: url'.toList := by simpa using hline
      obtain ⟨hbefore, hafter⟩ := Text.append_separator_inj (hfirst hshare) (hfirst hshare') hcut
      obtain ⟨rfl, -⟩ := padded_inj hbefore
      simp only [List.cons.injEq, true_and, String.toList_inj] at hafter
      rw [hafter]
    | lost => cases hkind.1 rfl
  | @lost held =>
    generalize hline : padded held ++ "          (no node available)".toList = line at h'
    cases h' with
    | got => cases hkind.2 rfl
    | @lost held' =>
      obtain ⟨rfl, -⟩ := padded_inj hline
      rfl

/-- A row breaks off only where its URL does. -/
theorem Says.unbroken {said : Option String × Nat} {line : List Char} (h : Says said line)
    (hurl : ∀ url ∈ said.1, '\n' ∉ url.toList) : '\n' ∉ line := by
  cases h with
  | got hshare => simp [not_mem_padded, not_mem_share hshare, hurl _ rfl]
  | lost => simp [not_mem_padded]

section

variable {entries : List (Option String × Nat)} {lines : List (List Char)}

theorem exists_of_mem_says (h : List.Forall₂ Says entries lines) {line : List Char} (hline : line ∈ lines) :
    ∃ said ∈ entries, Says said line := by
  induction h with
  | nil => cases hline
  | @cons said first entries lines hfirst _ ih =>
    rcases List.mem_cons.1 hline with rfl | hline
    · exact ⟨said, List.mem_cons_self .., hfirst⟩
    · obtain ⟨other, hother, hsays⟩ := ih hline
      exact ⟨other, List.mem_cons_of_mem _ hother, hsays⟩

/-- Different things are said by different rows. -/
theorem nodup_of_says (h : List.Forall₂ Says entries lines) (hentries : entries.Nodup) : lines.Nodup := by
  induction h with
  | nil => exact .nil
  | cons hfirst hrest ih =>
    obtain ⟨hnew, hentries⟩ := List.nodup_cons.1 hentries
    refine List.nodup_cons.2 ⟨fun hline => ?_, ih hentries⟩
    obtain ⟨said, hsaid, hsays⟩ := exists_of_mem_says hrest hline
    exact hnew (hfirst.unique hsays ▸ hsaid)

end

theorem nodup_entries {rows : List (String × Nat)} (hordered : (rows.map Prod.fst).Pairwise (· < ·)) (unrouted : Nat) :
    (entries rows unrouted).Nodup := by
  have hurls : (rows.map Prod.fst).Nodup := hordered.imp fun hlt => String.ne_of_lt hlt
  have hnodes : ((rows.map Prod.fst).map some).Nodup := hurls.map fun _ _ => Option.some.inj
  refine .of_map Prod.fst ?_
  rw [List.map_map] at hnodes
  rw [entries, List.map_append, List.map_map]
  refine hnodes.append (by split <;> simp) ?_
  split <;> simp

theorem mem_entries {rows : List (String × Nat)} {unrouted : Nat} {said : Option String × Nat}
    (h : said ∈ entries rows unrouted) {url : String} (hurl : url ∈ said.1) : url ∈ rows.map Prod.fst := by
  rcases List.mem_append.1 h with h | h
  · obtain ⟨row, hrow, rfl⟩ := List.mem_map.1 h
    obtain rfl : row.1 = url := Option.some.inj hurl
    exact List.mem_map_of_mem hrow
  · split at h
    · cases h
    · obtain rfl := List.mem_singleton.1 h
      cases hurl

/-! ## Printing -/

theorem padLeft_toString (n : Nat) : (padLeft 8 (toString n)).toList = padded n := by
  rw [padLeft, String.toList_append, String.toList_ofList, Nat.toString_eq_repr, ← String.length_toList,
    Nat.toList_repr, padded]

/-- The parts of a number with two places: perhaps a sign, the whole, a point, perhaps a zero, and the rest. -/
theorem toList_twoPlaces (x : Number.Binary64) :
    ∃ sign zero whole places, (∀ c ∈ sign, c = '-') ∧ (∀ c ∈ zero, c = '0') ∧
      x.twoPlaces.toList = sign ++ Nat.toDigits 10 whole ++ '.' :: zero ++ Nat.toDigits 10 places := by
  unfold Number.Binary64.twoPlaces
  dsimp only
  generalize Number.Binary64.roundEven _ _ = hundredths
  refine ⟨if x.negative then ['-'] else [], if hundredths % 100 < 10 then ['0'] else [], hundredths / 100,
    hundredths % 100, ?_, ?_, ?_⟩
  · cases x.negative <;> simp
  · by_cases hplaces : hundredths % 100 < 10 <;> simp [hplaces]
  · cases x.negative <;> by_cases hplaces : hundredths % 100 < 10 <;> simp [hplaces, Nat.toString_eq_repr]

/-- A share is written with digits, a point and perhaps a sign, and blanks before it. -/
theorem share_chars (count samples : Nat) :
    ∀ c ∈ (padLeft 6 (share count samples)).toList, c.isDigit = true ∨ c ∈ [' ', '.', '-'] := by
  intro c hc
  rw [padLeft, String.toList_append, String.toList_ofList, List.mem_append] at hc
  rcases hc with hc | hc
  · rw [List.eq_of_mem_replicate hc]
    exact .inr (by decide)
  · obtain ⟨sign, zero, whole, places, hsign, hzero, htext⟩ := toList_twoPlaces _
    have hdigit {n : Nat} (h : c ∈ Nat.toDigits 10 n) : c.isDigit = true :=
      Nat.isDigit_of_mem_toDigits (by decide) (by decide) h
    rw [share, htext] at hc
    simp only [List.mem_append, List.mem_cons] at hc
    rcases hc with ((hc | hc) | rfl | hc) | hc
    · rw [hsign c hc]
      exact .inr (by decide)
    · exact .inl (hdigit hc)
    · exact .inr (by decide)
    · rw [hzero c hc]
      exact .inl rfl
    · exact .inl (hdigit hc)

theorem says_row (samples : Nat) (url : String) (held : Nat) :
    ∃ line, (row samples url held).toList = line ++ ['\n'] ∧ Says (some url, held) line := by
  have hrow : row samples url held =
      padLeft 8 (toString held) ++ " " ++ padLeft 6 (share held samples) ++ "%  " ++ url ++ "\n" := rfl
  refine ⟨_, ?_, .got (share_chars held samples)⟩
  rw [hrow]
  simp only [String.toList_append, padLeft_toString]
  simp

theorem says_rows (samples : Nat) (counts : List (String × Nat)) :
    ∃ lines, (String.join (counts.map fun (url, held) => row samples url held)).toList = lines.flatMap (· ++ ['\n']) ∧
      List.Forall₂ Says (counts.map fun (url, held) => (some url, held)) lines := by
  induction counts with
  | nil => exact ⟨[], rfl, .nil⟩
  | cons count counts ih =>
    obtain ⟨lines, hlines, hsays⟩ := ih
    obtain ⟨line, hline, hsaid⟩ := says_row samples count.1 count.2
    refine ⟨line :: lines, ?_, .cons hsaid hsays⟩
    rw [List.map_cons, String.join_cons, String.toList_append, hline, hlines, List.flatMap_cons]

/-- What is printed is a row for each URL, and one for what went nowhere if there is any. -/
theorem text_says (spread : Spread) (samples : Nat) :
    ∃ lines, (spread.text samples).toList = lines.flatMap (· ++ ['\n']) ∧
      List.Forall₂ Says (entries spread.counts.toList spread.unrouted) lines := by
  obtain ⟨lines, hlines, hsays⟩ := says_rows samples spread.counts.toList
  have htext : spread.text samples =
      String.join (spread.counts.toList.map fun (url, held) => row samples url held) ++
        if spread.unrouted = 0 then ""
        else padLeft 8 (toString spread.unrouted) ++ "          (no node available)\n" := rfl
  rw [htext, String.toList_append, hlines, entries]
  split
  · exact ⟨lines, by simp, by simpa using hsays⟩
  · refine ⟨lines ++ [_], ?_, List.rel_append hsays (.cons .lost .nil)⟩
    rw [String.toList_append, padLeft_toString]
    simp

end LogGateway.Spread
