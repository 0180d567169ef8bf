/-
  NodeQuorum.Proofs.Text.Hex — which texts are read as a byte string in hexadecimal, and as which.

  - `decodeBytes_eq_ok_iff`: pairs of digits are read as the bytes whose halves they are.
  - `digits_of_utf8`: the reader looks at the bytes of a text, and it finds the digits that its characters are. A
    character of two bytes or more has no byte that is a digit.
  - `decode_eq_ok_iff`: so a text is read as the bytes that have its length and are the number it stands for.
  - `decode_encode`: what was written is read back.
-/

import Mathlib.Data.Nat.Digits.Lemmas
import NodeQuorum.Text.Hex
import NodeQuorum.Proofs.Text.Numeral

namespace NodeQuorum

namespace Text.Hex

/-! ## Halves of bytes -/

/-- The digits of a byte string: two for each byte, the high half first. -/
def halves (bytes : Bytes) : List Nat := bytes.flatMap fun b => [b.toNat / 16, b.toNat % 16]

theorem halves_cons (b : UInt8) (rest : Bytes) :
    halves (b :: rest) = b.toNat / 16 :: b.toNat % 16 :: halves rest := rfl

theorem length_halves (bytes : Bytes) : (halves bytes).length = 2 * bytes.length := by
  induction bytes with
  | nil => rfl
  | cons b rest ih =>
    rw [halves_cons, List.length_cons, List.length_cons, ih, List.length_cons]
    omega

theorem lt_of_mem_halves {bytes : Bytes} {d : Nat} (h : d ∈ halves bytes) : d < 16 := by
  obtain ⟨b, -, hd⟩ := List.mem_flatMap.mp h
  have := b.toNat_lt
  rcases List.mem_pair.mp hd with rfl | rfl <;> omega

theorem foldl_halves (bytes : Bytes) (n : Nat) :
    (halves bytes).foldl (fun n d => 16 * n + d) n = bytes.foldl (fun n b => 256 * n + b.toNat) n := by
  induction bytes generalizing n with
  | nil => rfl
  | cons b rest ih =>
    rw [halves_cons, List.foldl_cons, List.foldl_cons, List.foldl_cons, ih]
    congr 1
    omega

theorem toNatBE_eq_foldl (bytes : Bytes) :
    Bytes.toNatBE bytes = bytes.foldl (fun n b => 256 * n + b.toNat) 0 := by
  have hlow (rest : Bytes) : Bytes.toNatLE rest = rest.foldr (fun b n => 256 * n + b.toNat) 0 := by
    induction rest with
    | nil => rfl
    | cons b rest ih => rw [Bytes.toNatLE, ih, List.foldr_cons, Nat.add_comm]
  rw [Bytes.toNatBE, hlow, List.foldr_reverse]

theorem ofDigits_halves (bytes : Bytes) : Reader.ofDigits 16 (halves bytes) = Bytes.toNatBE bytes := by
  rw [Reader.ofDigits, foldl_halves, toNatBE_eq_foldl]

/-- The library reads digits from the lowest one on. -/
theorem ofDigits_eq_reverse (base : Nat) (ds : List Nat) : Reader.ofDigits base ds = Nat.ofDigits base ds.reverse := by
  rw [Nat.ofDigits_eq_foldr, List.foldr_reverse, Reader.ofDigits]
  congr 1
  funext n d
  exact Nat.add_comm _ _

/-- As many digits that stand for one number are the same digits. -/
theorem ofDigits_inj {xs ys : List Nat} (hlength : xs.length = ys.length) (hx : ∀ d ∈ xs, d < 16)
    (hy : ∀ d ∈ ys, d < 16) (h : Reader.ofDigits 16 xs = Reader.ofDigits 16 ys) : xs = ys := by
  rw [ofDigits_eq_reverse, ofDigits_eq_reverse] at h
  refine List.reverse_injective (Nat.ofDigits_inj_of_len_eq (by decide) ?_ ?_ ?_ h)
  · rw [List.length_reverse, List.length_reverse, hlength]
  · exact fun d hd => hx d (List.mem_reverse.mp hd)
  · exact fun d hd => hy d (List.mem_reverse.mp hd)

/-! ## What is read -/

theorem digitValue?_lt {b : UInt8} {d : Nat} (h : digitValue? b = some d) : d < 16 := by
  simp only [digitValue?] at h
  grind

/-- Two bytes in front that are digits are the halves of the first byte. -/
theorem map_eq_halves_iff {high low : UInt8} {rest out : Bytes} :
    (high :: low :: rest).map digitValue? = (halves out).map some ↔
      ∃ b tail, out = b :: tail ∧ digitValue? high = some (b.toNat / 16) ∧ digitValue? low = some (b.toNat % 16) ∧
        rest.map digitValue? = (halves tail).map some := by
  cases out with
  | nil => exact ⟨nofun, nofun⟩
  | cons b tail =>
    simp only [halves_cons, List.map_cons, List.cons.injEq]
    constructor
    · exact fun h => ⟨b, tail, ⟨rfl, rfl⟩, h⟩
    · rintro ⟨_, _, ⟨rfl, rfl⟩, h⟩
      exact h

/-- Pairs of digits are read as the bytes whose halves they are. -/
theorem decodeBytes_eq_ok_iff {position : Nat} {bytes out : Bytes} :
    decodeBytes position bytes = .ok out ↔ bytes.map digitValue? = (halves out).map some := by
  fun_induction decodeBytes position bytes generalizing out with
  | case1 =>
    cases out with
    | nil => exact ⟨fun _ => rfl, fun _ => rfl⟩
    | cons b tail => exact ⟨nofun, nofun⟩
  | case2 =>
    refine ⟨nofun, fun h => ?_⟩
    have hlength := congrArg List.length h
    rw [List.length_map, List.length_map, length_halves, List.length_singleton] at hlength
    omega
  | case3 _ high low rest hhigh =>
    rw [map_eq_halves_iff]
    simp [hhigh]
  | case4 _ high low rest _ hlow =>
    rw [map_eq_halves_iff]
    simp [hlow]
  | case5 _ high low rest _ _ hlow hhigh e hrest ih =>
    rw [map_eq_halves_iff]
    simp only [← ih, hrest]
    simp
  | case6 _ high low rest h l hlow hhigh tail hrest ih =>
    rw [map_eq_halves_iff]
    simp only [← ih, hrest, hhigh, hlow, Except.ok.injEq, Option.some.injEq]
    have hh := digitValue?_lt hhigh
    have hl := digitValue?_lt hlow
    have hbyte (b : UInt8) : UInt8.ofNat (16 * h + l) = b ↔ h = b.toNat / 16 ∧ l = b.toNat % 16 := by
      have := b.toNat_lt
      rw [← UInt8.toNat_inj, UInt8.toNat_ofNat']
      omega
    constructor
    · rintro rfl
      obtain ⟨hb, lb⟩ := (hbyte _).mp rfl
      exact ⟨_, tail, rfl, hb, lb, rfl⟩
    · rintro ⟨b, _, rfl, hb, lb, rfl⟩
      rw [(hbyte b).mpr ⟨hb, lb⟩]

/-! ## The bytes of a text -/

theorem ofText_eq (text : String) : Bytes.ofText text = text.toList.flatMap String.utf8EncodeChar := by
  rw [Bytes.ofText, String.toUTF8, ← String.ofList_toList (s := text), String.toByteArray_ofList, List.utf8Encode,
    List.toList_data_toByteArray, String.toList_ofList]

/-- A character is one byte and as good a digit, or it is no digit and the first of its bytes is none. -/
theorem utf8_digit (c : Char) :
    (∃ b, String.utf8EncodeChar c = [b] ∧ digitValue? b = Reader.digitValue? 16 c) ∨
      ∃ b rest, String.utf8EncodeChar c = b :: rest ∧ digitValue? b = none ∧ Reader.digitValue? 16 c = none := by
  have hval : c.val.toNat = c.toNat := rfl
  simp only [String.utf8EncodeChar, hval]
  by_cases h : c.toNat ≤ 127
  · left
    refine ⟨UInt8.ofNat c.toNat, if_pos h, ?_⟩
    have hb : (UInt8.ofNat c.toNat).toNat = c.toNat := by
      rw [UInt8.toNat_ofNat']
      omega
    simp only [digitValue?, Reader.digitValue?, hb]
    grind
  · right
    have hnone : Reader.digitValue? 16 c = none := by
      simp only [Reader.digitValue?]
      grind
    have hlarge (b : UInt8) (hb : 128 ≤ b.toNat) : digitValue? b = none := by
      simp only [digitValue?]
      grind
    rw [if_neg h]
    split
    · exact ⟨_, _, rfl, hlarge _ (by rw [UInt8.toNat_ofNat']; omega), hnone⟩
    · split
      · exact ⟨_, _, rfl, hlarge _ (by rw [UInt8.toNat_ofNat']; omega), hnone⟩
      · exact ⟨_, _, rfl, hlarge _ (by rw [UInt8.toNat_ofNat']; omega), hnone⟩

/-- The bytes of a text are the digits that its characters are. -/
theorem digits_of_utf8 {text : List Char} {values : List Nat} :
    (text.flatMap String.utf8EncodeChar).map digitValue? = values.map some ↔
      text.map (Reader.digitValue? 16) = values.map some := by
  induction text generalizing values with
  | nil => exact Iff.rfl
  | cons c rest ih =>
    rw [List.flatMap_cons, List.map_append, List.map_cons]
    rcases utf8_digit c with ⟨b, hc, hb⟩ | ⟨b, more, hc, hb, hnone⟩
    · rw [hc, List.map_cons, hb, List.map_nil, List.singleton_append]
      cases values with
      | nil => exact ⟨nofun, nofun⟩
      | cons d values => rw [List.map_cons, List.cons.injEq, List.cons.injEq, ih]
    · rw [hc, List.map_cons, hb, hnone]
      cases values with
      | nil => exact ⟨nofun, nofun⟩
      | cons d values => exact ⟨nofun, nofun⟩

theorem decode_eq_ok_iff_halves {text : String} {out : Bytes} :
    decode text = .ok out ↔ text.toList.map (Reader.digitValue? 16) = (halves out).map some := by
  rw [← digits_of_utf8, ← ofText_eq]
  constructor
  · intro h
    rw [decode] at h
    split at h
    · exact nomatch h
    · exact decodeBytes_eq_ok_iff.mp h
  · intro h
    have hlength := congrArg List.length h
    rw [List.length_map, List.length_map, length_halves] at hlength
    rw [decode, if_neg (by omega)]
    exact decodeBytes_eq_ok_iff.mpr h

/-- A text is read as the bytes that have its length and are the number it stands for. -/
theorem decode_eq_ok_iff {text : String} {out : Bytes} :
    decode text = .ok out ↔
      text.length = 2 * out.length ∧ Numeral.Denotes 16 text.toList (Bytes.toNatBE out) := by
  rw [decode_eq_ok_iff_halves]
  constructor
  · intro h
    have hlength := congrArg List.length h
    rw [List.length_map, List.length_map, length_halves, String.length_toList] at hlength
    exact ⟨hlength, _, h, ofDigits_halves out⟩
  · rintro ⟨hlength, values, hvalues, hnumber⟩
    have hcount : values.length = text.length := by
      have := congrArg List.length hvalues
      rw [List.length_map, List.length_map, String.length_toList] at this
      exact this.symm
    have hsmall : ∀ d ∈ values, d < 16 := by
      intro d hd
      have hmem : some d ∈ text.toList.map (Reader.digitValue? 16) := hvalues ▸ List.mem_map_of_mem hd
      obtain ⟨c, -, hc⟩ := List.mem_map.mp hmem
      exact Numeral.digitValue?_lt hc
    have hsame : values = halves out :=
      ofDigits_inj (by rw [hcount, hlength, length_halves]) hsmall (fun _ => lt_of_mem_halves)
        (hnumber.trans (ofDigits_halves out).symm)
    rw [hvalues, hsame]

/-! ## What is written -/

theorem encodeChars_eq (bytes : Bytes) : encodeChars bytes = (halves bytes).map digit := by
  rw [encodeChars, halves, List.map_flatMap]
  rfl

theorem length_encode (bytes : Bytes) : (encode bytes).length = 2 * bytes.length := by
  rw [encode, String.length_ofList, encodeChars_eq, List.length_map, length_halves]

/-- What was written is read back. -/
theorem decode_encode (bytes : Bytes) : decode (encode bytes) = .ok bytes := by
  have hdigit : ∀ d < 16, Reader.digitValue? 16 (digit d) = some d := by decide
  rw [decode_eq_ok_iff_halves, encode, String.toList_ofList, encodeChars_eq, List.map_map]
  exact List.map_congr_left fun d hd => hdigit d (lt_of_mem_halves hd)

theorem encode_inj {a b : Bytes} (h : encode a = encode b) : a = b := by
  have hread := decode_encode a
  rw [h, decode_encode b, Except.ok.injEq] at hread
  exact hread.symm

end Text.Hex
end NodeQuorum
