/-
  NodeQuorum.Proofs.Text.Decimal — which texts are read as a 32-bit number, and as which.

  The reader stops at the first digit that makes the number too large. Digits behind it could only make the number
  larger (`readDigits_eq_ok_iff`), so what is read is what the grammar says, and no more: digits, with zeros in front
  or not, behind at most one plus sign (`readWord_eq_ok_iff`).
-/

import NodeQuorum.Text.Decimal
import NodeQuorum.Proofs.Text.Numeral

namespace NodeQuorum.Text.Decimal

/-- The grammar of a number: digits, at least one, that one plus sign may lead. -/
def Spells (text : List Char) (n : Nat) : Prop :=
  ∃ digits, (text = digits ∨ text = '+' :: digits) ∧ digits ≠ [] ∧ Numeral.Denotes 10 digits n

theorem Spells.plus_or_digit {text : List Char} {n : Nat} (h : Spells text n) {c : Char} (hc : c ∈ text) :
    c = '+' ∨ c.isDigit := by
  obtain ⟨digits, rfl | rfl, -, hn⟩ := h
  · exact .inr ((Numeral.denotes_ten_iff.mp hn).1 c hc)
  · exact (List.mem_cons.mp hc).imp_right ((Numeral.denotes_ten_iff.mp hn).1 c)

/-- Digits behind a value read already are read exactly if the number they make of it fits. -/
theorem readDigits_eq_ok_iff {text : List Char} {value n : Nat} (hvalue : value < 2 ^ 32) :
    readDigits value text = .ok n ↔
      (∀ c ∈ text, c.isDigit) ∧ Nat.ofDigitChars 10 text value = n ∧ n < 2 ^ 32 := by
  induction text generalizing value with
  | nil =>
    simp only [readDigits, Except.ok.injEq, List.not_mem_nil, false_implies, implies_true, true_and,
      Nat.ofDigitChars_nil]
    constructor
    · rintro rfl
      exact ⟨rfl, hvalue⟩
    · exact And.left
  | cons c rest ih =>
    rw [List.forall_mem_cons, Nat.ofDigitChars_cons, readDigits]
    by_cases hdigit : c.isDigit
    · rw [if_pos hdigit]
      by_cases hnext : 10 * value + (c.toNat - 48) < 2 ^ 32
      · rw [if_pos hnext, ih hnext]
        simp only [hdigit, true_and]
        rfl
      · -- more digits never make a number smaller
        rw [if_neg hnext]
        have hmore : Nat.ofDigitChars 10 rest (10 * value + (c.toNat - 48)) = _ :=
          Nat.ofDigitChars_eq_ofDigitChars_zero
        have hpos : 10 * value + (c.toNat - 48) ≤ 10 ^ rest.length * (10 * value + (c.toNat - 48)) :=
          Nat.le_mul_of_pos_left _ (Nat.pow_pos (by decide))
        constructor
        · exact nofun
        · rintro ⟨-, hn, hlt⟩
          change Nat.ofDigitChars 10 rest (10 * value + (c.toNat - 48)) = n at hn
          omega
    · rw [if_neg hdigit]
      exact ⟨nofun, fun h => absurd h.1.1 hdigit⟩

/-- Digits alone are read exactly if the number they stand for fits. -/
theorem map_readDigits_eq_ok_iff {digits : List Char} {w : UInt32} :
    UInt32.ofNat <$> readDigits 0 digits = .ok w ↔ Numeral.Denotes 10 digits w.toNat := by
  have hread (n : Nat) : readDigits 0 digits = .ok n ↔ Numeral.Denotes 10 digits n ∧ n < 2 ^ 32 := by
    rw [readDigits_eq_ok_iff (by decide), Numeral.denotes_ten_iff, and_assoc]
  have hw := w.toNat_lt
  cases h : readDigits 0 digits with
  | error e =>
    refine ⟨nofun, fun hd => ?_⟩
    have := (hread w.toNat).mpr ⟨hd, hw⟩
    rw [h] at this
    exact nomatch this
  | ok n =>
    have hn := ((hread n).mp h).2
    have hback : UInt32.ofNat n = w ↔ n = w.toNat := by
      rw [← UInt32.toNat_inj, UInt32.toNat_ofNat']
      omega
    have := hread w.toNat
    rw [h, Except.ok.injEq] at this
    show Except.ok (UInt32.ofNat n) = .ok w ↔ _
    rw [Except.ok.injEq, hback, this]
    exact and_iff_left hw

theorem spells_plus {digits : List Char} {n : Nat} :
    Spells ('+' :: digits) n ↔ digits ≠ [] ∧ Numeral.Denotes 10 digits n := by
  constructor
  · rintro ⟨ds, rfl | h, hne, hn⟩
    · exact absurd (hn.isSome List.mem_cons_self) (by decide)
    · rw [List.tail_eq_of_cons_eq h]
      exact ⟨hne, hn⟩
  · rintro ⟨hne, hn⟩
    exact ⟨digits, .inr rfl, hne, hn⟩

theorem spells_of_no_plus {text : List Char} {n : Nat} (h : ∀ digits, text ≠ '+' :: digits) :
    Spells text n ↔ text ≠ [] ∧ Numeral.Denotes 10 text n := by
  constructor
  · rintro ⟨ds, rfl | hplus, hne, hn⟩
    · exact ⟨hne, hn⟩
    · exact absurd hplus (h ds)
  · rintro ⟨hne, hn⟩
    exact ⟨text, .inl rfl, hne, hn⟩

/-- What is read as a number is what the grammar has. -/
theorem readWord_eq_ok_iff {text : List Char} {w : UInt32} : readWord text = .ok w ↔ Spells text w.toNat := by
  fun_cases readWord text with
  | case1 =>
    refine ⟨nofun, ?_⟩
    rintro ⟨ds, rfl | h, hne, -⟩
    · exact absurd rfl hne
    · exact nomatch h
  | case2 =>
    rw [spells_plus]
    exact ⟨nofun, fun h => absurd rfl h.1⟩
  | case3 digits hne =>
    rw [spells_plus, map_readDigits_eq_ok_iff]
    exact (and_iff_right hne).symm
  | case4 _ hne _ hplus =>
    rw [spells_of_no_plus hplus, map_readDigits_eq_ok_iff]
    exact (and_iff_right hne).symm

/-- A number in decimal is a spelling of it. -/
theorem spells_toString (n : Nat) : Spells (toString n).toList n := by
  refine ⟨_, .inl rfl, ?_, Numeral.denotes_toString n⟩
  rw [Numeral.toList_toString]
  exact Nat.toDigits_ne_nil

end NodeQuorum.Text.Decimal
