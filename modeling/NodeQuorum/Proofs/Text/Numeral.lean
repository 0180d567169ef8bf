/-
  NodeQuorum.Proofs.Text.Numeral — numbers as texts of digits, alone and one behind the other.

  `Denotes` is what a text of digits stands for, in any base and in either case. A number in decimal stands
  for itself (`denotes_toString`).

  Where numbers are written one behind the other nothing marks where one ends and the next begins. Texts of
  three parts that agree are the same parts once the first and the last are as long on both sides
  (`cut_three`), and a decimal text names one number.
-/

import NodeQuorum.Bytes
import NodeQuorum.Text.Reader
import Std.Data.String.ToInt

namespace NodeQuorum.Text.Numeral

/-! ## The number a text stands for -/

/-- The characters are digits of a base, and the number they stand for, the first one weighing most. -/
def Denotes (base : Nat) (text : List Char) (n : Nat) : Prop :=
  ∃ values, text.map (Reader.digitValue? base) = values.map some ∧ Reader.ofDigits base values = n

theorem Denotes.isSome {base n : Nat} {text : List Char} (h : Denotes base text n) {c : Char} (hc : c ∈ text) :
    (Reader.digitValue? base c).isSome := by
  obtain ⟨values, hvalues, -⟩ := h
  have hmem : Reader.digitValue? base c ∈ values.map some := hvalues ▸ List.mem_map_of_mem hc
  obtain ⟨d, -, hd⟩ := List.mem_map.mp hmem
  rw [← hd, Option.isSome_some]

theorem digitValue?_lt {base d : Nat} {c : Char} (h : Reader.digitValue? base c = some d) : d < base := by
  simp only [Reader.digitValue?] at h
  grind

theorem digitValue?_ten (c : Char) : Reader.digitValue? 10 c = if c.isDigit then some (c.toNat - 48) else none := by
  have hdigit : c.isDigit ↔ 48 ≤ c.toNat ∧ c.toNat ≤ 57 := by
    simp only [Char.isDigit, Bool.and_eq_true, decide_eq_true_eq, ge_iff_le, UInt32.le_iff_toNat_le]
    rfl
  simp only [Reader.digitValue?, hdigit]
  grind

/-- Decimal text as the library reads it. -/
theorem denotes_ten_iff {text : List Char} {n : Nat} :
    Denotes 10 text n ↔ (∀ c ∈ text, c.isDigit) ∧ Nat.ofDigitChars 10 text 0 = n := by
  have hvalues (h : ∀ c ∈ text, c.isDigit) :
      text.map (Reader.digitValue? 10) = (text.map (·.toNat - 48)).map some := by
    rw [List.map_map]
    refine List.map_congr_left fun c hc => ?_
    rw [digitValue?_ten, if_pos (h c hc), Function.comp_apply]
  have hvalue : Reader.ofDigits 10 (text.map (·.toNat - 48)) = Nat.ofDigitChars 10 text 0 := by
    rw [Reader.ofDigits, List.foldl_map, Nat.ofDigitChars]
    rfl
  constructor
  · intro h
    have hdigit : ∀ c ∈ text, c.isDigit := by
      intro c hc
      have := h.isSome hc
      rw [digitValue?_ten] at this
      grind
    obtain ⟨values, hmap, rfl⟩ := h
    rw [hvalues hdigit] at hmap
    rw [← hvalue, List.map_inj_right (fun _ _ => Option.some.inj) |>.mp hmap]
    exact ⟨hdigit, rfl⟩
  · rintro ⟨hdigit, rfl⟩
    exact ⟨_, hvalues hdigit, hvalue⟩

theorem toList_toString (n : Nat) : (toString n).toList = Nat.toDigits 10 n := by
  rw [Nat.toString_eq_ofList_toDigits, String.toList_ofList]

/-- A number in decimal stands for itself. -/
theorem denotes_toString (n : Nat) : Denotes 10 (toString n).toList n := by
  rw [toList_toString]
  exact denotes_ten_iff.mpr
    ⟨fun _ => Nat.isDigit_of_mem_toDigits (by decide) (by decide), Nat.ofDigitChars_ten_toDigits⟩

/-! ## Numbers in decimal, one behind the other -/

theorem toString_nat_inj {m n : Nat} (h : toString m = toString n) : m = n := Nat.repr_injective h

theorem toString_int_inj {i j : Int} (h : toString i = toString j) : i = j := Int.repr_injective h

/-- Texts that agree and whose first parts are equally long agree part by part. -/
theorem cut_two {a b a' b' : String} (h : a ++ b = a' ++ b') (ha : a.length = a'.length) : a = a' ∧ b = b' := by
  have hl : a.toList ++ b.toList = a'.toList ++ b'.toList := by
    rw [← String.toList_append, ← String.toList_append, h]
  have := List.append_inj hl ha
  exact ⟨String.toList_injective this.1, String.toList_injective this.2⟩

/-- Texts of three parts that agree and whose first and last parts are equally long agree part by part. -/
theorem cut_three {a b c a' b' c' : String} (h : a ++ b ++ c = a' ++ b' ++ c') (ha : a.length = a'.length)
    (hc : c.length = c'.length) : a = a' ∧ b = b' ∧ c = c' := by
  have hlen : (a ++ b).length = (a' ++ b').length := by
    have := congrArg String.length h
    simp only [String.length_append] at this ⊢
    omega
  obtain ⟨hab, rfl⟩ := cut_two h hlen
  obtain ⟨rfl, rfl⟩ := cut_two hab ha
  exact ⟨rfl, rfl, rfl⟩

theorem length_toString_le_iff {n k : Nat} (hk : 0 < k) : (toString n).length ≤ k ↔ n < 10 ^ k := by
  rw [← String.length_toList, toList_toString]
  exact Nat.length_toDigits_le_iff (by decide) hk

theorem length_toString_pos (n : Nat) : 0 < (toString n).length := by
  rw [← String.length_toList, toList_toString]
  exact Nat.length_toDigits_pos

/-- Where two texts agree and the first part of one is shorter, the other's first part goes on with the same digits. -/
theorem split_of_shorter {a b a' b' : String} (h : a ++ b = a' ++ b') (hle : a.length ≤ a'.length) :
    ∃ s, a' = a ++ s ∧ b = s ++ b' := by
  have hlist : a.toList ++ b.toList = a'.toList ++ b'.toList := by
    rw [← String.toList_append, h, String.toList_append]
  obtain ⟨l, hl⟩ : a.toList <+: a'.toList := by
    refine List.prefix_of_prefix_length_le ⟨_, hlist⟩ (List.prefix_append _ _) ?_
    rwa [String.length_toList, String.length_toList]
  have ha' : a' = a ++ String.ofList l := by
    apply String.toList_injective
    rw [String.toList_append, String.toList_ofList, hl]
  refine ⟨String.ofList l, ha', ?_⟩
  rw [ha', String.append_assoc] at h
  exact (cut_two h rfl).2

/-- Digits written behind a number raise it by their places. -/
theorem le_of_appended {m n : Nat} {s : String} (h : toString n = toString m ++ s) : 10 ^ s.length * m ≤ n := by
  have hdigits : Nat.toDigits 10 n = Nat.toDigits 10 m ++ s.toList := by
    rw [← toList_toString, h, String.toList_append, toList_toString]
  have hvalue : n = 10 ^ s.toList.length * m + Nat.ofDigitChars 10 s.toList 0 := by
    calc n = Nat.ofDigitChars 10 (Nat.toDigits 10 n) 0 := Nat.ofDigitChars_ten_toDigits.symm
      _ = Nat.ofDigitChars 10 s.toList m := by
        rw [hdigits, Nat.ofDigitChars_append, Nat.ofDigitChars_ten_toDigits]
      _ = _ := Nat.ofDigitChars_eq_ofDigitChars_zero
  rw [String.length_toList] at hvalue
  omega

/-- A number with digits in front of another one is more than twice as large. -/
theorem lt_of_prepended {m n : Nat} {s : String} (h : toString n = s ++ toString m) (hs : 0 < s.length) :
    2 * m < n := by
  have hdigits : Nat.toDigits 10 n = s.toList ++ Nat.toDigits 10 m := by
    rw [← toList_toString, h, String.toList_append, toList_toString]
  have hvalue : n = 10 ^ (Nat.toDigits 10 m).length * Nat.ofDigitChars 10 s.toList 0 + m := by
    calc n = Nat.ofDigitChars 10 (Nat.toDigits 10 n) 0 := Nat.ofDigitChars_ten_toDigits.symm
      _ = Nat.ofDigitChars 10 (Nat.toDigits 10 m) (Nat.ofDigitChars 10 s.toList 0) := by
        rw [hdigits, Nat.ofDigitChars_append]
      _ = _ := by rw [Nat.ofDigitChars_eq_ofDigitChars_zero, Nat.ofDigitChars_ten_toDigits]
  rw [← toList_toString, String.length_toList] at hvalue
  have hsmall : m < 10 ^ (toString m).length := (length_toString_le_iff (length_toString_pos m)).mp (Nat.le_refl _)
  have hlong : 10 ^ (toString m).length ≤ n := by
    rw [← Nat.not_lt, ← length_toString_le_iff (length_toString_pos m), h, String.length_append]
    omega
  -- the digits in front stand for something, for there are no zeros in front
  have hfront : 0 < Nat.ofDigitChars 10 s.toList 0 := by
    rcases Nat.eq_zero_or_pos (Nat.ofDigitChars 10 s.toList 0) with hzero | hpos
    · rw [hzero] at hvalue
      omega
    · exact hpos
  have hplaces : 10 ^ (toString m).length ≤ 10 ^ (toString m).length * Nat.ofDigitChars 10 s.toList 0 :=
    Nat.le_mul_of_pos_right _ hfront
  omega

end NodeQuorum.Text.Numeral
