/-
  NodeQuorum.Proofs.Transaction — the canonical bytes of a transaction tell which transaction it is.

  Every part of the bytes shows where it ends: a number has a fixed count of bytes, and a list has its length in front.
  So whatever follows a part, it is told apart from every other part in its place (`Bytes.Delimited`):
  - `delimited_of_length`: a number, or anything else of a fixed length.
  - `delimited_listBytes`: a list of such parts, by induction on the list, and so a script.
  - `Transaction.delimited`: a transaction, from part to part.
  A length is written in eight bytes, so lists are told apart as long as eight bytes count them (`Transaction.Fits`), and
  no memory holds more. `different_transactions_have_different_bytes` says what follows for the identity.
-/

import NodeQuorum.Transaction

namespace NodeQuorum

namespace Bytes

/-- Whatever follows the bytes of two items, these show where they end and which items they are. -/
def Delimited {α : Type} (P : α → Prop) (code : α → Bytes) : Prop :=
  ∀ ⦃a b : α⦄, P a → P b → ∀ ⦃r s : Bytes⦄, code a ++ r = code b ++ s → a = b ∧ r = s

/-- Two byte strings with one hash. -/
def Collide (x y : Bytes) : Prop := x ≠ y ∧ blake3 x = blake3 y

variable {α : Type} {P : α → Prop} {code : α → Bytes}

theorem Delimited.inj (h : Delimited P code) {a b : α} (ha : P a) (hb : P b) (heq : code a = code b) : a = b := by
  refine (h (r := []) (s := []) ha hb ?_).1
  rw [heq]

/-! ## Parts of one length -/

theorem delimited_of_length {n : Nat} (hlength : ∀ a, (code a).length = n)
    (hinj : ∀ a b, P a → P b → code a = code b → a = b) : Delimited P code := by
  intro a b ha hb r s h
  obtain ⟨hcode, hrest⟩ := List.append_inj h ((hlength a).trans (hlength b).symm)
  exact ⟨hinj a b ha hb hcode, hrest⟩

/-- A number that fits in the count of its bytes. -/
theorem delimited_ofNatLE (count : Nat) : Delimited (fun n => n < 256 ^ count) (ofNatLE count) := by
  refine delimited_of_length (length_ofNatLE count) ?_
  intro n m hn hm h
  have hread := congrArg toNatLE h
  rwa [toNatLE_ofNatLE, toNatLE_ofNatLE, Nat.mod_eq_of_lt hn, Nat.mod_eq_of_lt hm] at hread

theorem delimited_word32 : Delimited (fun _ => True) fun n : UInt32 => ofNatLE 4 n.toNat := by
  intro n m _ _ r s h
  obtain ⟨hn, hrest⟩ := delimited_ofNatLE 4 n.toNat_lt m.toNat_lt h
  exact ⟨UInt32.toNat_inj.mp hn, hrest⟩

theorem delimited_word64 : Delimited (fun _ => True) fun n : UInt64 => ofNatLE 8 n.toNat := by
  intro n m _ _ r s h
  obtain ⟨hn, hrest⟩ := delimited_ofNatLE 8 n.toNat_lt m.toNat_lt h
  exact ⟨UInt64.toNat_inj.mp hn, hrest⟩

/-! ## Lists behind their lengths -/

/-- Rows of equally many parts show the parts and where the last one ends. -/
theorem flatMap_append_inj (h : Delimited P code) {xs ys : List α} (hlength : xs.length = ys.length)
    (hxs : ∀ x ∈ xs, P x) (hys : ∀ y ∈ ys, P y) {r s : Bytes} (heq : xs.flatMap code ++ r = ys.flatMap code ++ s) :
    xs = ys ∧ r = s := by
  induction xs generalizing ys with
  | nil =>
    obtain rfl := List.length_eq_zero_iff.mp hlength.symm
    exact ⟨rfl, heq⟩
  | cons x xs ih =>
    cases ys with
    | nil => exact nomatch hlength
    | cons y ys =>
      rw [List.forall_mem_cons] at hxs hys
      rw [List.flatMap_cons, List.flatMap_cons, List.append_assoc, List.append_assoc] at heq
      obtain ⟨rfl, htail⟩ := h hxs.1 hys.1 heq
      obtain ⟨rfl, hrest⟩ := ih (Nat.succ.inj hlength) hxs.2 hys.2 htail
      exact ⟨rfl, hrest⟩

/-- The length in front tells how many items there are, and so where the last one ends. -/
theorem delimited_listBytes (h : Delimited P code) :
    Delimited (fun xs => xs.length < 2 ^ 64 ∧ ∀ x ∈ xs, P x) (Transaction.listBytes code) := by
  rintro xs ys ⟨hxs, hpx⟩ ⟨hys, hpy⟩ r s heq
  rw [Transaction.listBytes, Transaction.listBytes, List.append_assoc, List.append_assoc] at heq
  obtain ⟨hlength, hitems⟩ := delimited_ofNatLE 8 hxs hys heq
  exact flatMap_append_inj h hlength hpx hpy hitems

/-- A byte string behind its length is a list of bytes behind its length. -/
theorem counted_eq_listBytes (bytes : Bytes) : counted bytes = Transaction.listBytes (fun b => [b]) bytes := by
  rw [counted, Transaction.listBytes, List.flatMap_singleton']

theorem delimited_counted : Delimited (fun bytes => bytes.length < 2 ^ 64) counted := by
  have hbyte : Delimited (fun _ => True) fun b : UInt8 => [b] :=
    delimited_of_length (fun _ => rfl) fun _ _ _ _ => List.singleton_inj.mp
  intro x y hx hy r s h
  rw [counted_eq_listBytes, counted_eq_listBytes] at h
  exact delimited_listBytes hbyte ⟨hx, fun _ _ => trivial⟩ ⟨hy, fun _ _ => trivial⟩ h

end Bytes

open Bytes (Delimited)

/-! ## Parts of a transaction -/

theorem Hash.delimited : Delimited (fun _ => True) Hash.toBytes :=
  Bytes.delimited_of_length length_toBytes fun _ _ _ _ => toBytes_inj

theorem OutPoint.delimited : Delimited (fun _ => True) OutPoint.toBytes := by
  rintro ⟨txid, index⟩ ⟨txid', index'⟩ _ _ r s h
  rw [toBytes, toBytes, List.append_assoc, List.append_assoc] at h
  obtain ⟨rfl, hindex⟩ := Hash.delimited trivial trivial h
  obtain ⟨rfl, hrest⟩ := Bytes.delimited_word32 trivial trivial hindex
  exact ⟨rfl, hrest⟩

namespace TxInput

/-- Eight bytes hold the length of the script. -/
def Fits (i : TxInput) : Prop := i.scriptSig.length < 2 ^ 64

instance (i : TxInput) : Decidable i.Fits := inferInstanceAs (Decidable (_ < _))

theorem delimited : Delimited Fits toBytes := by
  rintro ⟨previous, script, sequence⟩ ⟨previous', script', sequence'⟩ hfits hfits' r s h
  simp only [toBytes, List.append_assoc] at h
  obtain ⟨rfl, hscript⟩ := OutPoint.delimited trivial trivial h
  obtain ⟨rfl, hsequence⟩ := Bytes.delimited_counted hfits hfits' hscript
  obtain ⟨rfl, hrest⟩ := Bytes.delimited_word32 trivial trivial hsequence
  exact ⟨rfl, hrest⟩

end TxInput

namespace TxOutput

/-- Eight bytes hold the length of the script. -/
def Fits (o : TxOutput) : Prop := o.script.length < 2 ^ 64

instance (o : TxOutput) : Decidable o.Fits := inferInstanceAs (Decidable (_ < _))

theorem delimited : Delimited Fits toBytes := by
  rintro ⟨value, script⟩ ⟨value', script'⟩ hfits hfits' r s h
  simp only [toBytes, List.append_assoc] at h
  obtain ⟨rfl, hscript⟩ := Bytes.delimited_word64 trivial trivial h
  obtain ⟨rfl, hrest⟩ := Bytes.delimited_counted hfits hfits' hscript
  exact ⟨rfl, hrest⟩

end TxOutput

namespace Transaction

/-- Eight bytes hold the lengths of all lists and all scripts. What a memory with addresses of eight bytes holds is never
    longer. -/
def Fits (tx : Transaction) : Prop :=
  (tx.inputs.length < 2 ^ 64 ∧ ∀ i ∈ tx.inputs, i.Fits) ∧ (tx.outputs.length < 2 ^ 64 ∧ ∀ o ∈ tx.outputs, o.Fits)

instance (tx : Transaction) : Decidable tx.Fits := inferInstanceAs (Decidable ((_ ∧ _) ∧ (_ ∧ _)))

theorem delimited : Delimited Fits toBytes := by
  rintro (⟨version, inputs, outputs, lockTime⟩ | ⟨version, height, outputs, lockTime⟩)
    (⟨version', inputs', outputs', lockTime'⟩ | ⟨version', height', outputs', lockTime'⟩)
    ⟨hinputs, houtputs⟩ ⟨hinputs', houtputs'⟩ r s h
  · simp only [toBytes, List.append_assoc] at h
    obtain ⟨-, h⟩ := Bytes.delimited_ofNatLE 4 (by decide) (by decide) h
    obtain ⟨rfl, hin⟩ := Bytes.delimited_word32 trivial trivial h
    obtain ⟨rfl, hout⟩ := Bytes.delimited_listBytes TxInput.delimited hinputs hinputs' hin
    obtain ⟨rfl, hlock⟩ := Bytes.delimited_listBytes TxOutput.delimited houtputs houtputs' hout
    obtain ⟨rfl, hrest⟩ := Bytes.delimited_word32 trivial trivial hlock
    exact ⟨rfl, hrest⟩
  · -- the number in front tells the shapes apart
    simp only [toBytes, List.append_assoc] at h
    exact absurd (Bytes.delimited_ofNatLE 4 (by decide) (by decide) h).1 (by decide)
  · simp only [toBytes, List.append_assoc] at h
    exact absurd (Bytes.delimited_ofNatLE 4 (by decide) (by decide) h).1 (by decide)
  · simp only [toBytes, List.append_assoc] at h
    obtain ⟨-, h⟩ := Bytes.delimited_ofNatLE 4 (by decide) (by decide) h
    obtain ⟨rfl, hheight⟩ := Bytes.delimited_word32 trivial trivial h
    obtain ⟨rfl, hout⟩ := Bytes.delimited_word64 trivial trivial hheight
    obtain ⟨rfl, hlock⟩ := Bytes.delimited_listBytes TxOutput.delimited houtputs houtputs' hout
    obtain ⟨rfl, hrest⟩ := Bytes.delimited_word32 trivial trivial hlock
    exact ⟨rfl, hrest⟩

/-- Transactions with the same bytes are the same, whatever follows the bytes. So two different transactions share an
identity exactly if the hash maps their bytes, which are two different byte strings, to one value. -/
theorem different_transactions_have_different_bytes {a b : Transaction} (ha : a.Fits) (hb : b.Fits) :
    (a.toBytes = b.toBytes → a = b) ∧
    (∀ r s, a.toBytes ++ r = b.toBytes ++ s → a = b ∧ r = s) ∧
    (a ≠ b → (a.txid = b.txid ↔ Bytes.Collide a.toBytes b.toBytes)) := by
  refine ⟨delimited.inj ha hb, fun r s h => delimited ha hb h, fun hne => ?_⟩
  have hbytes : a.toBytes ≠ b.toBytes := fun h => hne (delimited.inj ha hb h)
  exact ⟨fun h => ⟨hbytes, h⟩, fun h => h.2⟩

/-- One output, whose script is the bytes of another. -/
def outputInScript : Transaction := .standard 1 [] [⟨5, (TxOutput.mk 7 [0xac]).toBytes⟩] 0

/-- The two outputs beside each other. -/
def outputBeside : Transaction := .standard 1 [] [⟨5, []⟩, ⟨7, [0xac]⟩] 0

/-- An output in the script of another makes other bytes than both beside each other, and another identity. -/
theorem an_output_in_a_script_is_none_beside_it :
    outputInScript.Fits ∧ outputBeside.Fits ∧ outputInScript ≠ outputBeside ∧
      outputInScript.toBytes ≠ outputBeside.toBytes ∧
      ¬ Bytes.Collide outputInScript.toBytes outputBeside.toBytes := by
  have hin : outputInScript.Fits := by decide
  have hbeside : outputBeside.Fits := by decide
  have hne : outputInScript ≠ outputBeside := by decide
  have hid : outputInScript.txid ≠ outputBeside.txid := by decide +kernel
  obtain ⟨hbytes, -, hcollide⟩ := different_transactions_have_different_bytes hin hbeside
  exact ⟨hin, hbeside, hne, fun h => hne (hbytes h), fun h => hid ((hcollide hne).mpr h)⟩

end Transaction
end NodeQuorum
