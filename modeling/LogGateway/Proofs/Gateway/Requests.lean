/-
The texts of requests for logs. What a filter without criteria says is made of digits and words, so that nothing in it
is escaped. Main statement: the first request of a client is one text around the blocks of its filter, which are the
numbers that bound it, without zeros in front, or the digits of its hash.
-/
import LogGateway.Gateway
import LogGateway.Proofs.Chain.Hashes

namespace LogGateway

open LogGateway.Json

/-! ## Texts without escapes -/

namespace Json

instance (c : Char) : Decidable (Plain c) :=
  decidable_of_iff (0x20 ≤ c.toNat ∧ c ≠ '"' ∧ c ≠ '\\')
    ⟨fun ⟨hprintable, hquote, hbackslash⟩ => ⟨hprintable, hquote, hbackslash⟩,
      fun hc => ⟨hc.printable, hc.ne_quote, hc.ne_backslash⟩⟩

namespace Write

/-- A character that stands for itself is written as it is. -/
theorem escaped_of_plain {c : Char} (hc : Plain c) : escaped c = [c] := by
  have hne {d : Char} (hd : d.toNat < 0x20) : c ≠ d := by
    rintro rfl
    exact absurd hc.printable (Nat.not_le_of_lt hd)
  rw [escaped, if_neg hc.ne_quote, if_neg hc.ne_backslash, if_neg (hne (by decide)), if_neg (hne (by decide)),
    if_neg (hne (by decide)), if_neg (hne (by decide)), if_neg (hne (by decide)),
    if_neg (Nat.not_lt_of_le hc.printable)]

theorem text_of_plain {cs : List Char} (h : ∀ c ∈ cs, Plain c) : text cs = '"' :: cs ++ ['"'] := by
  have hbody : cs.flatMap escaped = cs := by
    induction cs with
    | nil => rfl
    | cons c cs ih =>
      obtain ⟨hc, hcs⟩ := List.forall_mem_cons.1 h
      rw [List.flatMap_cons, escaped_of_plain hc, ih hcs, List.singleton_append]
  rw [text, hbody]

theorem plain_digitChar {d : Nat} (hd : d < 16) : Plain (Nat.digitChar d) := by
  have hall : ∀ d < 16, Plain (Nat.digitChar d) := by decide
  exact hall d hd

/-- By induction on the number without its last digit. -/
theorem plain_toDigits (n : Nat) : ∀ c ∈ Nat.toDigits 16 n, Plain c := by
  induction n using Nat.strongRecOn with
  | _ n ih =>
    by_cases hsmall : n < 16
    · rw [Nat.toDigits_of_lt_base hsmall, List.forall_mem_singleton]
      exact plain_digitChar hsmall
    · rw [Nat.toDigits_of_base_le (by decide) (Nat.le_of_not_lt hsmall), List.forall_mem_append,
        List.forall_mem_singleton]
      exact ⟨ih _ (by omega), plain_digitChar (by omega)⟩

theorem plain_digits (data : List UInt8) : ∀ c ∈ Hex.digits data, Plain c := by
  intro c hc
  obtain ⟨b, -, hc⟩ := List.mem_flatMap.1 hc
  have hb := b.toNat_lt
  obtain rfl | rfl : c = Hex.digit (b.toNat / 16) ∨ c = Hex.digit (b.toNat % 16) := by simpa [Hex.byteChars] using hc
  · exact plain_digitChar (by omega)
  · exact plain_digitChar (by omega)

/-- Digits behind the mark, in quotes. -/
theorem text_marked {cs : List Char} (h : ∀ c ∈ cs, Plain c) : text ('0' :: 'x' :: cs) = '"' :: '0' :: 'x' :: cs ++ ['"'] :=
  text_of_plain (List.forall_mem_cons.2 ⟨by decide, List.forall_mem_cons.2 ⟨by decide, h⟩⟩)

theorem member_of_plain {key : String} (h : key.toList.all fun c => decide (Plain c)) (value : List Char) :
    member key value = '"' :: key.toList ++ '"' :: ':' :: value := by
  have hplain : ∀ c ∈ key.toList, Plain c := fun c hc => of_decide_eq_true (List.all_eq_true.1 h c hc)
  rw [member, text_of_plain hplain, List.append_assoc]
  rfl

end Write

end Json

/-! ## What a request says -/

namespace Gateway

open CommandLine (Wanted)

/-- A number in hexadecimal, without zeros in front. -/
def hexNumber (n : UInt64) : String := String.ofList (Nat.toDigits 16 n.toNat)

/-- The first request of a client for logs, with these blocks in its filter. -/
def requestText (blocks : String) : String :=
  "\x7b\"jsonrpc\":\"2.0\",\"id\":1,\"method\":\"eth_getLogs\",\"params\":[\x7b" ++ blocks ++ "\x7d]\x7d"

/-- The request that the arguments ask for. It has the bounds that they give and no others, or the digits of the hash
that they spell. -/
inductive Asks : Wanted → String → Prop
  | all : Asks (.range none none) (requestText "")
  | since (first : UInt64) :
      Asks (.range (some first) none) (requestText ("\"fromBlock\":\"0x" ++ hexNumber first ++ "\""))
  | upTo (last : UInt64) :
      Asks (.range none (some last)) (requestText ("\"toBlock\":\"0x" ++ hexNumber last ++ "\""))
  | between (first last : UInt64) :
      Asks (.range (some first) (some last))
        (requestText ("\"fromBlock\":\"0x" ++ hexNumber first ++ "\",\"toBlock\":\"0x" ++ hexNumber last ++ "\""))
  | block {raw : String} {ds : List Nat} (h : Hash.Spelled raw.toList ds) :
      Asks (.block raw) (requestText ("\"blockHash\":\"0x" ++ String.ofList (ds.map Nat.digitChar) ++ "\""))

open Json.Write

theorem fixed_of_digits {n : Nat} {data : Vector UInt8 n} {ds : List Nat}
    (h : Hex.digits data.toList = ds.map Nat.digitChar) :
    Wire.fixed data = '"' :: '0' :: 'x' :: ds.map Nat.digitChar ++ ['"'] := by
  rw [Wire.fixed, Wire.bytes, Hex.chars, text_marked (plain_digits _), h]

theorem selector_number (n : UInt64) :
    Wire.selector (.number n) = '"' :: '0' :: 'x' :: (hexNumber n).toList ++ ['"'] := by
  rw [hexNumber, Wire.selector, BlockSelector.text, Quantity.text, String.toList_ofList, String.toList_ofList,
    Quantity.chars, text_marked (plain_toDigits _)]

/-- A filter without criteria says its blocks and nothing else. -/
theorem filter_selection (selection : Selection) :
    Wire.filter ⟨selection, ⟨[], []⟩⟩ = object (Wire.selectionMembers selection) := by
  simp [Wire.filter, Wire.criteriaMembers]

theorem request_logs {filter : LogFilter} {blocks : String}
    (h : Wire.filter filter = '\x7b' :: blocks.toList ++ ['\x7d']) :
    (Rpc.Question.logs filter).request 1 = requestText blocks := by
  have hversion := @member_of_plain "jsonrpc" (by decide)
  have hid := @member_of_plain "id" (by decide)
  have hmethod := @member_of_plain "method" (by decide)
  have hparams := @member_of_plain "params" (by decide)
  have htwo : text "2.0".toList = "\"2.0\"".toList := by decide
  have hlogs : text "eth_getLogs".toList = "\"eth_getLogs\"".toList := by decide
  have hone : nat (1 : UInt64).toNat = ['1'] := by decide
  refine String.toList_inj.1 ?_
  rw [Rpc.Question.request, String.toList_ofList]
  simp only [Rpc.Question.method, object, hversion, hid, hmethod, hparams, List.map_cons, List.map_nil,
    commaSeparated]
  rw [htwo, hone, hlogs]
  delta requestText
  simp [Rpc.Question.params, Write.list, commaSeparated, h]

theorem Asks.of_filter {wanted : Wanted} {filter : LogFilter} {blocks : String} (h : Asks wanted (requestText blocks))
    (hfilter : Wire.filter filter = '\x7b' :: blocks.toList ++ ['\x7d']) :
    Asks wanted ((Rpc.Question.logs filter).request 1) := by
  rwa [request_logs hfilter]

/-- The filter of the arguments is asked for in the first request of a client as they say. -/
theorem Asks.of_filterOf {wanted : Wanted} {filter : LogFilter} (h : filterOf wanted = .ok filter) :
    Asks wanted ((Rpc.Question.logs filter).request 1) := by
  have hfirst := @member_of_plain "fromBlock" (by decide)
  have hlast := @member_of_plain "toBlock" (by decide)
  have hblock := @member_of_plain "blockHash" (by decide)
  cases wanted with
  | range first last =>
    cases h
    cases first with
    | none =>
      cases last with
      | none => exact Asks.all.of_filter rfl
      | some last =>
        refine (Asks.upTo last).of_filter ?_
        simp [filter_selection, Wire.selectionMembers, object, hlast, selector_number, commaSeparated]
    | some first =>
      cases last with
      | none =>
        refine (Asks.since first).of_filter ?_
        simp [filter_selection, Wire.selectionMembers, object, hfirst, selector_number, commaSeparated]
      | some last =>
        refine (Asks.between first last).of_filter ?_
        simp [filter_selection, Wire.selectionMembers, object, hfirst, hlast, selector_number, commaSeparated]
  | block raw =>
    rw [filterOf] at h
    split at h
    · next hash hhash =>
      cases h
      obtain ⟨ds, hspelled, hdigits⟩ := Hash.read_eq_ok_iff.1 hhash
      refine (Asks.block hspelled).of_filter ?_
      simp [filter_selection, Wire.selectionMembers, object, hblock, fixed_of_digits hdigits, commaSeparated]
    · cases h

/-- What the arguments ask for is one text. The hash that they spell has its digits, of which there is one list. -/
theorem Asks.unique {wanted : Wanted} {body other : String} (h : Asks wanted body) (hother : Asks wanted other) :
    other = body := by
  cases h with
  | block hspelled =>
    cases hother with
    | block hspelled' =>
      obtain ⟨hash, hread, hdigits⟩ := hspelled.read
      obtain ⟨hash', hread', hdigits'⟩ := hspelled'.read
      obtain rfl : hash = hash' := Except.ok.inj (hread.symm.trans hread')
      rw [← hdigits, ← hdigits']
  | all => cases hother; rfl
  | since => cases hother; rfl
  | upTo => cases hother; rfl
  | between => cases hother; rfl

theorem Asks.filterOf {wanted : Wanted} {body : String} (h : Asks wanted body) :
    ∃ filter, filterOf wanted = .ok filter := by
  cases h with
  | block hspelled =>
    obtain ⟨hash, hread, -⟩ := hspelled.read
    exact ⟨_, by rw [Gateway.filterOf, hread]⟩
  | _ => exact ⟨_, rfl⟩

/-- The arguments give no filter exactly if they have a text that spells no hash. -/
theorem filterOf_eq_error_iff {wanted : Wanted} :
    (∃ fault, Gateway.filterOf wanted = .error fault) ↔
      ∃ raw, wanted = .block raw ∧ ¬∃ ds, Hash.Spelled raw.toList ds := by
  cases wanted with
  | range first last => simp [Gateway.filterOf]
  | block raw =>
    cases hread : Hash.read raw with
    | ok hash =>
      obtain ⟨ds, hspelled, -⟩ := Hash.read_eq_ok_iff.1 hread
      refine iff_of_false ?_ ?_
      · simp [Gateway.filterOf, hread]
      · rintro ⟨_, ⟨⟩, hnone⟩
        exact hnone ⟨ds, hspelled⟩
    | error fault =>
      refine iff_of_true ⟨(raw, fault), by simp [Gateway.filterOf, hread]⟩ ⟨raw, rfl, ?_⟩
      rintro ⟨ds, hspelled⟩
      obtain ⟨hash, hhash, -⟩ := hspelled.read
      cases hread.symm.trans hhash

end Gateway

end LogGateway
