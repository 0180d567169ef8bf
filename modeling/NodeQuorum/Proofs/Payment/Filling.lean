/-
  NodeQuorum.Proofs.Payment.Filling — what becomes of the value of a coinbase that pays both classes.

  A payment is written into the output of its class and taken from the first output, which stops at zero. The second
  class may find less in the first output than the first class did, and outputs that were added for it. But the two
  shares, each rounded down, are never more than the value (`shares_le`), so nothing stops at zero, and each class
  writes into a place that the other leaves alone:
  - `fillBoth_of_single`: both orders give the three outputs of `template`, also where the coinbase had no output.
  - `source_fill`: the first output is lowered by the first payment exactly, and still holds the second.
  - `filling_both_classes_commutes_and_conserves_the_value`: these together, in exact amounts.
-/

import NodeQuorum.Proofs.Payment.Template

namespace NodeQuorum

namespace Transaction

/-- The value of the output that payments are taken from; a transaction without outputs gets one with the value of the
    block. -/
def source (tx : Transaction) (value : UInt64) : UInt64 := tx.outputs.head?.elim value TxOutput.value

/-- The script of that output. -/
def sourceScript (tx : Transaction) : Script := tx.outputs.head?.elim [] TxOutput.script

/-- What the outputs are worth together. -/
def worth (tx : Transaction) : Nat := tx.outputs.foldr (fun o total => o.value.toNat + total) 0

/-- A transaction has no output, or one with the whole value of its block. -/
def IsSingle (tx : Transaction) (value : UInt64) : Prop :=
  tx.outputs = [] ∨ ∃ script, tx.outputs = [⟨value, script⟩]

theorem IsSingle.source {tx : Transaction} {value : UInt64} (h : tx.IsSingle value) : tx.source value = value := by
  unfold Transaction.source
  rcases h with h | ⟨script, h⟩
  · rw [h]
    rfl
  · rw [h]
    rfl

end Transaction

/-! ## Shares of a value -/

/-- Both shares together are at most the value, though each is rounded by itself. -/
theorem ClassParams.shares_le (c : NodeClass) (value : UInt64) :
    ((ClassParams.of c).payment value).toNat + ((ClassParams.of c.other).payment value).toNat ≤ value.toNat := by
  have hmasternode := toNat_masternode_payment value
  have hsystemnode := toNat_systemnode_payment value
  cases c with
  | masternode =>
    show (masternode.payment value).toNat + (systemnode.payment value).toNat ≤ _
    omega
  | systemnode =>
    show (systemnode.payment value).toNat + (masternode.payment value).toNat ≤ _
    omega

/-- The amounts of the three outputs add up to the value. -/
theorem worth_template (tx : Transaction) (value : UInt64) (script masternode systemnode : Script) :
    (tx.withOutputs (template value script masternode systemnode)).worth = value.toNat := by
  have hmasternode := toNat_masternode_payment value
  have hsystemnode := toNat_systemnode_payment value
  have hrest := toNat_leftOver value
  unfold Transaction.worth
  rw [Transaction.outputs_withOutputs]
  unfold template
  simp only [List.foldr_cons, List.foldr_nil]
  omega

theorem amounts_template (value : UInt64) (script masternode systemnode : Script) :
    (template value script masternode systemnode).map (fun o => (o.value.toNat, o.script)) =
      [(value.toNat - 45 * value.toNat / 100 - 10 * value.toNat / 100, script),
        (45 * value.toNat / 100, masternode), (10 * value.toNat / 100, systemnode)] := by
  unfold template
  simp only [List.map_cons, List.map_nil]
  rw [toNat_leftOver, toNat_masternode_payment, toNat_systemnode_payment, Nat.mul_comm value.toNat 45,
    Nat.mul_comm value.toNat 10]

/-! ## Filling in -/

/-- Where there is no output, a payment is taken from the value of the block. -/
theorem Payments.pay_nil (slot : Nat) (value payment : UInt64) (payee : Script) :
    pay [] slot value payment payee = pay [⟨value, []⟩] slot value payment payee := rfl

namespace Quorum

theorem fill_of_no_outputs {q : Quorum} {c : NodeClass} {height : Nat} {payee : Script}
    (h : (q.payments.get c).payee? height = some payee) {tx : Transaction} (htx : tx.outputs = []) (value : UInt64)
    (now : Int) : q.fill c tx height value now = q.fill c (tx.withOutputs [⟨value, []⟩]) height value now := by
  rw [fill_of_payee? h, fill_of_payee? h, htx, Payments.pay_nil, Transaction.withOutputs_withOutputs,
    Transaction.outputs_withOutputs]

/-- Both classes are paid in their places from the value of the block, whichever is filled in first. -/
theorem fillBoth_of_single {q : Quorum} (hrules : ∀ c, (q.payments.get c).params = .of c) {height : Nat}
    {payees : NodeClass → Script} (hpayees : ∀ c, (q.payments.get c).payee? height = some (payees c))
    (first : NodeClass) {tx : Transaction} {value : UInt64} (htx : tx.IsSingle value) (now : Int) :
    q.fillBoth first tx height value now =
      (q, tx.withOutputs (template value tx.sourceScript (payees .masternode) (payees .systemnode))) := by
  unfold Transaction.sourceScript
  rcases htx with htx | ⟨script, htx⟩
  · have hsame : q.fillBoth first tx height value now =
        q.fillBoth first (tx.withOutputs [⟨value, []⟩]) height value now := by
      unfold fillBoth
      rw [fill_of_no_outputs (hpayees first) htx]
    rw [hsame, fillBoth_of_payees hrules hpayees first (Transaction.outputs_withOutputs _ _) now,
      Transaction.withOutputs_withOutputs, htx]
    rfl
  · rw [fillBoth_of_payees hrules hpayees first htx now, htx]
    rfl

/-- The output that payments are taken from is lowered by the payment of the class, if it holds as much. -/
theorem source_fill {q : Quorum} {c : NodeClass} (hrules : (q.payments.get c).params = .of c) {height : Nat}
    {payee : Script} (hpayee : (q.payments.get c).payee? height = some payee) (tx : Transaction) (value : UInt64)
    (now : Int) : ((q.fill c tx height value now).2.1.source value).toNat =
      (tx.source value).toNat - ((ClassParams.of c).payment value).toNat := by
  have hslot : ∃ slot, (ClassParams.of c).slot = slot + 1 := by
    cases c with
    | masternode => exact ⟨0, rfl⟩
    | systemnode => exact ⟨1, rfl⟩
  obtain ⟨slot, hslot⟩ := hslot
  have hexact : ∀ amount : UInt64, (UInt64.ofNat (amount.toNat - ((ClassParams.of c).payment value).toNat)).toNat =
      amount.toNat - ((ClassParams.of c).payment value).toNat := fun amount =>
    UInt64.toNat_ofNat_of_lt' (Nat.lt_of_le_of_lt (Nat.sub_le _ _) amount.toNat_lt)
  rw [fill_of_payee? hpayee, hrules, hslot]
  unfold Transaction.source
  dsimp only
  rw [Transaction.outputs_withOutputs]
  cases tx.outputs with
  | nil =>
    rw [Payments.pay_nil, Payments.pay_cons]
    exact hexact value
  | cons o rest =>
    rw [Payments.pay_cons]
    exact hexact o.value

/-- Where both classes follow their rules, as they do after every run (`Payments.run_params`), and the ballots of both
    name a payee, a coinbase without outputs or with one output of the block's whole value is filled with the same three
    outputs in either order: what is left under the script of its output, and behind it both shares, rounded down. The
    three are worth the whole value, and each payment is at most what the output that it is taken from holds then. -/
theorem filling_both_classes_commutes_and_conserves_the_value {q : Quorum}
    (hrules : ∀ c, (q.payments.get c).params = .of c) {height : Nat} {payees : NodeClass → Script}
    (hpayees : ∀ c, (q.payments.get c).payee? height = some (payees c)) {tx : Transaction} {value : UInt64}
    (htx : tx.outputs = [] ∨ ∃ script, tx.outputs = [⟨value, script⟩]) (now : Int) :
    let filled := tx.withOutputs (template value tx.sourceScript (payees .masternode) (payees .systemnode))
    (∀ first, q.fillBoth first tx height value now = (q, filled)) ∧
    filled.outputs.map (fun o => (o.value.toNat, o.script)) =
      [(value.toNat - 45 * value.toNat / 100 - 10 * value.toNat / 100, tx.sourceScript),
        (45 * value.toNat / 100, payees .masternode), (10 * value.toNat / 100, payees .systemnode)] ∧
    filled.worth = value.toNat ∧
    ∀ first : NodeClass,
      ((ClassParams.of first).payment value).toNat ≤ (tx.source value).toNat ∧
      ((ClassParams.of first.other).payment value).toNat ≤
        ((q.fill first tx height value now).2.1.source value).toNat := by
  intro filled
  have hsource : tx.source value = value := Transaction.IsSingle.source htx
  refine ⟨?_, ?_, ?_, ?_⟩
  · intro first
    exact fillBoth_of_single hrules hpayees first htx now
  · rw [Transaction.outputs_withOutputs]
    exact amounts_template value _ _ _
  · exact worth_template tx value _ _ _
  · intro first
    have hle := ClassParams.shares_le first value
    rw [source_fill (hrules first) (hpayees first), hsource]
    omega

/-- The largest value that there is, in a coinbase without outputs. -/
theorem the_largest_value_is_shared_out_to_the_unit :
    let q : Quorum := { Quorum.start (.of .regtest) .empty 0 with
      payments := ⟨agreed .masternode 305 [1], agreed .systemnode 305 [2]⟩ }
    let filled := fun first => (q.fillBoth first (.coinbase 1 305 [] 0) 305 18446744073709551615 0).2
    filled .systemnode = filled .masternode ∧
      (filled .masternode).outputs =
        [⟨8301034833169298228, []⟩, ⟨8301034833169298226, [1]⟩, ⟨1844674407370955161, [2]⟩] ∧
      (filled .masternode).worth = 2 ^ 64 - 1 := by
  intro q filled
  have hrules : ∀ c, (q.payments.get c).params = .of c := by
    intro c
    cases c <;> rfl
  have hpayees : ∀ c, (q.payments.get c).payee? 305 = some ((⟨[1], [2]⟩ : PerClass Script).get c) := by
    intro c
    cases c with
    | masternode => exact (agreed_decided .masternode 305 [1]).payee?
    | systemnode => exact (agreed_decided .systemnode 305 [2]).payee?
  have hempty : (Transaction.coinbase 1 305 [] 0).outputs = [] ∨
      ∃ script, (Transaction.coinbase 1 305 [] 0).outputs = [⟨18446744073709551615, script⟩] := Or.inl rfl
  obtain ⟨hfill, -, hworth, -⟩ := filling_both_classes_commutes_and_conserves_the_value hrules hpayees hempty 0
  have hfilled : ∀ first, filled first = _ := fun first => congrArg Prod.snd (hfill first)
  rw [hfilled .systemnode, hfilled .masternode]
  exact ⟨rfl, by decide, hworth⟩

end Quorum

end NodeQuorum
