/-
  NodeQuorum.Proofs.OutPoint — which texts name an outpoint.

  - `parse_eq_ok_iff`: exactly those of the grammar `Spelled`, 64 digits and a number with a dash between them. The dash
    that parts them is the last one, for a number has none.
  - `spelled_text`, `parse_text`: the short text of an outpoint is one spelling of it, so it is read back.
  - `parseReference_eq_ok_iff`: a weight is set off by the first equals sign, for no spelling of an outpoint has one.
  `the_text_has_an_exact_grammar_and_is_read_back` says this of every outpoint, every text and every weight.
-/

import NodeQuorum.Settings.Basic
import NodeQuorum.Proofs.Text.Decimal
import NodeQuorum.Proofs.Text.Hex

namespace NodeQuorum

open Text

namespace Hash

/-- The bytes of a hash are the number it is. -/
theorem toNatBE_toBytes (h : Hash) : Bytes.toNatBE h.toBytes = h.toNat := by
  have := h.isLt
  rw [toBytes, Bytes.toNatBE_ofNatBE]
  omega

theorem toNat_ofBytes {bytes : Bytes} (h : bytes.length = 32) : (ofBytes bytes).toNat = Bytes.toNatBE bytes := by
  have := Bytes.toNatLE_lt bytes.reverse
  rw [List.length_reverse, h] at this
  rw [ofBytes, BitVec.toNat_ofNat, Bytes.toNatBE]
  omega

/-- A text is read as a hash exactly if it is 64 digits that stand for it. -/
theorem decode_iff {text : String} {h : Hash} :
    (∃ bytes, Hex.decode text = .ok bytes ∧ bytes.length = 32 ∧ ofBytes bytes = h) ↔
      text.length = 64 ∧ Numeral.Denotes 16 text.toList h.toNat := by
  constructor
  · rintro ⟨bytes, hread, hlength, rfl⟩
    obtain ⟨htext, hnumber⟩ := Hex.decode_eq_ok_iff.mp hread
    rw [toNat_ofBytes hlength]
    exact ⟨by omega, hnumber⟩
  · rintro ⟨htext, hnumber⟩
    refine ⟨h.toBytes, Hex.decode_eq_ok_iff.mpr ⟨?_, ?_⟩, length_toBytes h, ofBytes_toBytes h⟩
    · rw [htext, length_toBytes]
    · rwa [toNatBE_toBytes]

end Hash

namespace OutPoint

/-- The grammar of an outpoint: the 64 digits of a hash, in either case, and the digits of an index that one plus sign
may lead, with the last dash of the text between them. -/
def Spelled (text : List Char) (txid : Hash) (index : Nat) : Prop :=
  ∃ hex number, text = hex ++ '-' :: number ∧ '-' ∉ number ∧ hex.length = 64 ∧
    Numeral.Denotes 16 hex txid.toNat ∧ Decimal.Spells number index

theorem parse_of_split {text : String} {hex number : List Char} {o : OutPoint}
    (h : splitLast? '-' text.toList = some (hex, number)) :
    parse text = .ok o ↔
      (∃ bytes, Hex.decode (String.ofList hex) = .ok bytes ∧ bytes.length = 32 ∧ Hash.ofBytes bytes = o.txid) ∧
        Decimal.readWord number = .ok o.index := by
  rw [parse, h]
  cases hhex : Hex.decode (String.ofList hex) with
  | error e => simp [hhex]
  | ok bytes =>
    by_cases hlength : bytes.length = 32
    · cases hnumber : Decimal.readWord number with
      | error e => simp [hhex, hlength, hnumber]
      | ok n =>
        cases o
        simp [hhex, hlength, hnumber]
    · simp [hhex, hlength]

/-- A text names an outpoint exactly if it spells one. -/
theorem parse_eq_ok_iff {text : String} {o : OutPoint} :
    parse text = .ok o ↔ Spelled text.toList o.txid o.index.toNat := by
  constructor
  · intro h
    cases hsplit : splitLast? '-' text.toList with
    | none =>
      rw [parse, hsplit] at h
      exact nomatch h
    | some parts =>
      obtain ⟨hex, number⟩ := parts
      obtain ⟨htext, hlast⟩ := splitLast?_eq_some.mp hsplit
      obtain ⟨hhash, hnumber⟩ := (parse_of_split hsplit).mp h
      obtain ⟨hlength, hdenotes⟩ := Hash.decode_iff.mp hhash
      rw [String.length_ofList] at hlength
      rw [String.toList_ofList] at hdenotes
      exact ⟨hex, number, htext, hlast, hlength, hdenotes, Decimal.readWord_eq_ok_iff.mp hnumber⟩
  · rintro ⟨hex, number, htext, hlast, hlength, hdenotes, hnumber⟩
    refine (parse_of_split (splitLast?_eq_some.mpr ⟨htext, hlast⟩)).mpr
      ⟨Hash.decode_iff.mpr ⟨?_, ?_⟩, Decimal.readWord_eq_ok_iff.mpr hnumber⟩
    · rwa [String.length_ofList]
    · rwa [String.toList_ofList]

/-- The short text of an outpoint spells it. -/
theorem spelled_text (o : OutPoint) : Spelled o.text.toList o.txid o.index.toNat := by
  obtain ⟨hlength, hdenotes⟩ := Hash.decode_iff.mp ⟨_, Hex.decode_encode o.txid.toBytes, o.txid.length_toBytes,
    o.txid.ofBytes_toBytes⟩
  refine ⟨o.txid.text.toList, (toString o.index.toNat).toList, ?_, ?_, hlength, hdenotes, Decimal.spells_toString _⟩
  · rw [text, String.toList_append, String.toList_append, List.append_assoc]
    rfl
  · intro hdash
    exact absurd ((Decimal.spells_toString _).plus_or_digit hdash) (by decide)

/-- The short text of an outpoint is read back. -/
theorem parse_text (o : OutPoint) : parse o.text = .ok o := parse_eq_ok_iff.mpr (spelled_text o)

/-- No spelling of an outpoint has an equals sign. -/
theorem Spelled.no_equals {text : List Char} {txid : Hash} {index : Nat} (h : Spelled text txid index) :
    '=' ∉ text := by
  obtain ⟨hex, number, rfl, -, -, hdenotes, hnumber⟩ := h
  rw [List.mem_append, List.mem_cons]
  rintro (hhex | hdash | hindex)
  · exact absurd (hdenotes.isSome hhex) (by decide)
  · exact absurd hdash (by decide)
  · exact absurd (hnumber.plus_or_digit hindex) (by decide)

end OutPoint

namespace Settings

/-- A text names a reference node exactly if it spells an outpoint and a weight with an equals sign between them. -/
theorem parseReference_eq_ok_iff {entry : String} {o : OutPoint} {w : UInt32} :
    parseReference entry = .ok (o, w) ↔
      ∃ outpoint weight, entry.toList = outpoint ++ '=' :: weight ∧
        OutPoint.Spelled outpoint o.txid o.index.toNat ∧ Decimal.Spells weight w.toNat := by
  have hparts {outpoint weight : List Char} (h : splitFirst? '=' entry.toList = some (outpoint, weight)) :
      parseReference entry = .ok (o, w) ↔
        OutPoint.Spelled outpoint o.txid o.index.toNat ∧ Decimal.Spells weight w.toNat := by
    have hspelled : OutPoint.parse (String.ofList outpoint) = .ok o ↔
        OutPoint.Spelled outpoint o.txid o.index.toNat := by
      rw [OutPoint.parse_eq_ok_iff, String.toList_ofList]
    rw [parseReference, h, ← hspelled, ← Decimal.readWord_eq_ok_iff]
    cases ho : OutPoint.parse (String.ofList outpoint) with
    | error e => simp [ho]
    | ok o' => cases hw : Decimal.readWord weight <;> simp [ho, hw]
  constructor
  · intro h
    cases hsplit : splitFirst? '=' entry.toList with
    | none =>
      rw [parseReference, hsplit] at h
      exact nomatch h
    | some parts =>
      exact ⟨parts.1, parts.2, (splitFirst?_eq_some.mp hsplit).1, (hparts hsplit).mp h⟩
  · rintro ⟨outpoint, weight, hentry, hspelled, hweight⟩
    exact (hparts (splitFirst?_eq_some.mpr ⟨hentry, hspelled.no_equals⟩)).mpr ⟨hspelled, hweight⟩

/-- A reference node written with the short text of its outpoint is read back. -/
theorem parseReference_text (o : OutPoint) (w : UInt32) :
    parseReference (o.text ++ "=" ++ toString w.toNat) = .ok (o, w) := by
  refine parseReference_eq_ok_iff.mpr
    ⟨o.text.toList, (toString w.toNat).toList, ?_, o.spelled_text, Decimal.spells_toString _⟩
  rw [String.toList_append, String.toList_append, List.append_assoc]
  rfl

end Settings

namespace OutPoint

/-- The short text of every outpoint is read back. A text is read as an outpoint exactly if it spells the outpoint's hash
and an index of 32 bits. So an entry of the reference table gives back every outpoint and every weight. -/
theorem the_text_has_an_exact_grammar_and_is_read_back :
    (∀ o : OutPoint, parse o.text = .ok o) ∧
    (∀ (s : String) (txid : Hash) (index : Nat),
      (∃ o, parse s = .ok o ∧ o.txid = txid ∧ o.index.toNat = index) ↔
        Spelled s.toList txid index ∧ index ≤ 2 ^ 32 - 1) ∧
    ∀ (o : OutPoint) (w : UInt32), Settings.parseReference (o.text ++ "=" ++ toString w.toNat) = .ok (o, w) := by
  refine ⟨parse_text, fun s txid index => ?_, Settings.parseReference_text⟩
  constructor
  · rintro ⟨o, hread, rfl, rfl⟩
    have := o.index.toNat_lt
    exact ⟨parse_eq_ok_iff.mp hread, by omega⟩
  · rintro ⟨hspelled, hindex⟩
    have hword : (UInt32.ofNat index).toNat = index := by
      rw [UInt32.toNat_ofNat']
      omega
    refine ⟨⟨txid, UInt32.ofNat index⟩, parse_eq_ok_iff.mpr ?_, rfl, hword⟩
    rwa [hword]

/-- Either case, a plus sign and zeros in front are read. -/
example : parse "00000000000000000000000000000000000000000000000000000000000000fF-+007" = .ok ⟨255, 7⟩ := by
  rfl

/-- The largest index is one less than this one. -/
example : parse "00000000000000000000000000000000000000000000000000000000000000ff-4294967296" =
    .error (.badIndex "4294967296") := by
  rfl

end OutPoint
end NodeQuorum
