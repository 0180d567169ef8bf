/-
  NodeQuorum.Proofs.Payment.Template — whether a node accepts a coinbase that it filled itself.

  Filling writes the payment of a class into the output that belongs to the class and takes it from the first output.
  The check looks for the first output that pays a decided payee the exact amount, and that one has to be the output
  of the class. So a coinbase that was filled for a ballot's sole decided payee fails the check exactly if an earlier
  output pays the same payee the same amount (`isSatisfied_iff`), and amounts and scripts can make it so:
  - `filled_coinbase_is_valid_unless_an_earlier_output_pays_the_same`: the masternode's payment is missed if the
    coinbase's own script is the masternode's and twenty divides the value, for then the first output is left with as
    much as the masternode is paid. The systemnode's payment is missed only for values of at most two.
-/

import NodeQuorum.Proofs.Payment.Refusal

namespace NodeQuorum

/-! ## The winner of a ballot -/

namespace Ballot

/-- The better of the best payee so far and another one. -/
def lead (best : Option Payee) (p : Payee) : Option Payee :=
  match best with
  | some q => if p.votes ≤ q.votes then some q else some p
  | none => some p

theorem winner?_eq (b : Ballot) : b.winner? = b.payees.foldl lead none := rfl

theorem lead_eq (best : Option Payee) (p : Payee) : lead best p = best ∨ lead best p = some p := by
  unfold lead
  split
  · split
    · exact Or.inl rfl
    · exact Or.inr rfl
  · exact Or.inr rfl

theorem mem_of_lead {ps : List Payee} {best : Option Payee} {w : Payee} (h : ps.foldl lead best = some w) :
    best = some w ∨ w ∈ ps := by
  induction ps generalizing best with
  | nil => exact Or.inl h
  | cons p rest ih =>
    rcases ih h with hbest | hmem
    · rcases lead_eq best p with he | he
      · exact Or.inl (he ▸ hbest)
      · rw [he, Option.some.injEq] at hbest
        exact Or.inr (hbest ▸ List.mem_cons_self)
    · exact Or.inr (List.mem_cons_of_mem p hmem)

/-- The better of two has as many votes as either. -/
theorem le_lead_one (best : Option Payee) (p : Payee) :
    ∃ w, lead best p = some w ∧ p.votes ≤ w.votes ∧ ∀ q, best = some q → q.votes ≤ w.votes := by
  cases best with
  | none => exact ⟨p, rfl, Nat.le_refl _, nofun⟩
  | some q =>
    by_cases h : p.votes ≤ q.votes
    · refine ⟨q, if_pos h, h, ?_⟩
      rintro _ ⟨⟩
      exact Nat.le_refl _
    · refine ⟨p, if_neg h, Nat.le_refl _, ?_⟩
      rintro _ ⟨⟩
      exact Nat.le_of_not_le h

/-- Nobody has more votes than the leader. -/
theorem le_lead {ps : List Payee} {best : Option Payee} {q : Payee} (h : best = some q ∨ q ∈ ps) :
    ∃ w, ps.foldl lead best = some w ∧ q.votes ≤ w.votes := by
  induction ps generalizing best q with
  | nil => exact ⟨q, h.resolve_right nofun, Nat.le_refl _⟩
  | cons p rest ih =>
    obtain ⟨w', hw', hp, hbest⟩ := le_lead_one best p
    obtain ⟨w, hw, hle⟩ := ih (Or.inl hw')
    rcases h with h | h
    · exact ⟨w, hw, Nat.le_trans (hbest q h) hle⟩
    · rcases List.mem_cons.mp h with rfl | hrest
      · exact ⟨w, hw, Nat.le_trans hp hle⟩
      · exact ih (Or.inr hrest)

theorem mem_decided {b : Ballot} {p : Payee} : p ∈ b.decided ↔ p ∈ b.payees ∧ paymentVotesRequired ≤ p.votes := by
  unfold decided
  rw [List.mem_filter, decide_eq_true_eq]

/-- A sole decided payee wins. -/
theorem winner?_of_decided {b : Ballot} {p : Payee} (h : b.decided = [p]) : b.winner? = some p := by
  obtain ⟨hp, hvotes⟩ := mem_decided.mp (h ▸ List.mem_singleton_self p)
  obtain ⟨w, hw, hle⟩ : ∃ w, b.payees.foldl lead none = some w ∧ p.votes ≤ w.votes := le_lead (Or.inr hp)
  have hdecided : w ∈ b.decided :=
    mem_decided.mpr ⟨(mem_of_lead hw).resolve_left nofun, Nat.le_trans hvotes hle⟩
  rw [h, List.mem_singleton] at hdecided
  rw [winner?_eq, hw, hdecided]

/-! ## Finding a payment -/

/-- A payment is found in its place exactly if no earlier output is the same. -/
theorem position?_eq_some_iff {outputs : List TxOutput} {slot : Nat} {payment : UInt64} {script : Script}
    (h : outputs[slot]? = some ⟨payment, script⟩) :
    position? outputs script payment = some slot ↔ ⟨payment, script⟩ ∉ outputs.take slot := by
  obtain ⟨hlt, hout⟩ := List.getElem?_eq_some_iff.mp h
  have hsame : ∀ o : TxOutput, decide (o.script = script ∧ o.value = payment) = true ↔ o = ⟨payment, script⟩ := by
    rintro ⟨value, own⟩
    simp only [decide_eq_true_eq, TxOutput.mk.injEq]
    exact and_comm
  unfold position?
  rw [List.findIdx?_eq_some_iff_getElem]
  constructor
  · rintro ⟨_, _, hbefore⟩ hmem
    obtain ⟨j, hj, hjout⟩ := List.mem_take_iff_getElem.mp hmem
    exact hbefore j (Nat.lt_of_lt_of_le hj (Nat.min_le_left _ _)) ((hsame _).mpr hjout)
  · intro hnone
    refine ⟨hlt, (hsame _).mpr hout, ?_⟩
    intro j hj hjout
    exact hnone (List.mem_take_iff_getElem.mpr ⟨j, Nat.lt_min.mpr ⟨hj, Nat.lt_trans hj hlt⟩, (hsame _).mp hjout⟩)

/-- A coinbase that pays a sole decided payee in its place honours the ballot exactly if no earlier output is the
    same. -/
theorem isSatisfied_iff {b : Ballot} {p : Payee} (h : b.decided = [p]) {tx : Transaction} {payment : UInt64}
    {slot : Nat} (hout : tx.outputs[slot]? = some ⟨payment, p.script⟩) :
    b.isSatisfied tx payment slot true = true ↔ ⟨payment, p.script⟩ ∉ tx.outputs.take slot := by
  obtain ⟨hp, hvotes⟩ := mem_decided.mp (h ▸ List.mem_singleton_self p)
  have hdecided : b.isDecided = true := List.any_eq_true.mpr ⟨p, hp, decide_eq_true hvotes⟩
  rw [← position?_eq_some_iff hout]
  unfold isSatisfied
  rw [hdecided, h]
  unfold paysOneOf
  cases position? tx.outputs p.script payment with
  | none => simp [paysOneOf]
  | some i => simp

end Ballot

/-! ## Filling a coinbase -/

/-- What a class is paid is its share of the value. -/
theorem ClassParams.toNat_payment {p : ClassParams} (h : p.percent ≤ 100) (value : UInt64) :
    (p.payment value).toNat = value.toNat * p.percent / 100 := by
  have hle : value.toNat * p.percent / 100 ≤ value.toNat :=
    Nat.div_le_of_le_mul (Nat.mul_comm 100 _ ▸ Nat.mul_le_mul_left _ h)
  exact UInt64.toNat_ofNat_of_lt' (Nat.lt_of_le_of_lt hle value.toNat_lt)

namespace Payments

/-- The ballot of a height has a sole decided payee. -/
def Decided (p : Payments) (height : Nat) (payee : Script) : Prop :=
  ∃ b votes, p.ballots[height]? = some b ∧ b.decided = [⟨payee, votes⟩]

theorem Decided.payee? {p : Payments} {height : Nat} {payee : Script} (h : p.Decided height payee) :
    p.payee? height = some payee := by
  obtain ⟨b, votes, hb, hd⟩ := h
  unfold Payments.payee?
  rw [hb]
  dsimp only
  rw [Ballot.winner?_of_decided hd, Option.map_some]

/-- A coinbase that pays a sole decided payee in its place is valid exactly if no earlier output is the same. -/
theorem isTransactionValid_iff {p : Payments} {height : Nat} {payee : Script} (h : p.Decided height payee)
    {tx : Transaction} {value : UInt64} {posStartHeight : Nat} (hpos : posStartHeight ≤ height)
    (hout : tx.outputs[p.params.slot]? = some ⟨p.params.payment value, payee⟩) :
    p.isTransactionValid tx height value posStartHeight = true ↔
      ⟨p.params.payment value, payee⟩ ∉ tx.outputs.take p.params.slot := by
  obtain ⟨b, votes, hb, hd⟩ := h
  unfold isTransactionValid
  rw [hb, decide_eq_true hpos]
  exact Ballot.isSatisfied_iff hd hout

/-- The first output is lowered by the payment, and the payment stands in its place behind it. -/
theorem pay_cons (o : TxOutput) (rest : List TxOutput) (slot : Nat) (value payment : UInt64) (payee : Script) :
    pay (o :: rest) (slot + 1) value payment payee =
      ⟨UInt64.ofNat (o.value.toNat - payment.toNat), o.script⟩ ::
        (rest ++ List.replicate (slot + 1 - rest.length) (⟨0, []⟩ : TxOutput)).set slot ⟨payment, payee⟩ := by
  unfold pay
  rw [if_neg (List.cons_ne_nil o rest)]
  dsimp only
  rw [List.length_cons, Nat.add_sub_add_right]
  rfl

theorem fill_of_payee? {p : Payments} {height : Nat} {payee : Script} (h : p.payee? height = some payee) (r : Registry)
    (tx : Transaction) (value : UInt64) (env : PaymentEnv) :
    p.fill r tx height value env =
      (r, tx.withOutputs (pay tx.outputs p.params.slot value (p.params.payment value) payee), some payee) := by
  unfold fill payeeOrWinner?
  rw [h]

end Payments

/-! ## A coinbase for both classes -/

theorem Transaction.withOutputs_withOutputs (outputs outputs' : List TxOutput) (tx : Transaction) :
    (tx.withOutputs outputs).withOutputs outputs' = tx.withOutputs outputs' := by cases tx <;> rfl

def NodeClass.other : NodeClass → NodeClass
  | .masternode => .systemnode
  | .systemnode => .masternode

/-- The two amounts taken from an output one after the other are taken from it together. -/
theorem ofNat_sub_sub (value : UInt64) (a b : Nat) :
    UInt64.ofNat ((UInt64.ofNat (value.toNat - a)).toNat - b) = UInt64.ofNat (value.toNat - a - b) := by
  have hlt : value.toNat - a < 2 ^ 64 := Nat.lt_of_le_of_lt (Nat.sub_le _ _) value.toNat_lt
  rw [UInt64.toNat_ofNat_of_lt' hlt]

/-! ## Equal amounts -/

theorem toNat_masternode_payment (value : UInt64) :
    (ClassParams.masternode.payment value).toNat = value.toNat * 45 / 100 :=
  ClassParams.toNat_payment (p := .masternode) (by decide) value

theorem toNat_systemnode_payment (value : UInt64) :
    (ClassParams.systemnode.payment value).toNat = value.toNat * 10 / 100 :=
  ClassParams.toNat_payment (p := .systemnode) (by decide) value

/-- What is left of a value that pays both classes. -/
def leftOver (value : UInt64) : UInt64 :=
  UInt64.ofNat (value.toNat - (ClassParams.masternode.payment value).toNat -
    (ClassParams.systemnode.payment value).toNat)

/-- The outputs of a coinbase that pays both classes from one output. -/
def template (value : UInt64) (script masternode systemnode : Script) : List TxOutput :=
  [⟨leftOver value, script⟩, ⟨ClassParams.masternode.payment value, masternode⟩,
    ⟨ClassParams.systemnode.payment value, systemnode⟩]

theorem toNat_leftOver (value : UInt64) :
    (leftOver value).toNat = value.toNat - value.toNat * 45 / 100 - value.toNat * 10 / 100 := by
  unfold leftOver
  rw [toNat_masternode_payment, toNat_systemnode_payment]
  have hle : value.toNat - value.toNat * 45 / 100 - value.toNat * 10 / 100 ≤ value.toNat :=
    Nat.le_trans (Nat.sub_le _ _) (Nat.sub_le _ _)
  exact UInt64.toNat_ofNat_of_lt' (Nat.lt_of_le_of_lt hle value.toNat_lt)

/-- As much as the masternode is paid is left if nothing was rounded. -/
theorem masternode_payment_eq_leftOver_iff (value : UInt64) :
    ClassParams.masternode.payment value = leftOver value ↔ 20 ∣ value.toNat := by
  rw [← UInt64.toNat_inj, toNat_leftOver, toNat_masternode_payment]
  omega

theorem systemnode_payment_eq_leftOver_iff (value : UInt64) :
    ClassParams.systemnode.payment value = leftOver value ↔ value = 0 := by
  rw [← UInt64.toNat_inj, ← UInt64.toNat_inj, toNat_leftOver, toNat_systemnode_payment, UInt64.toNat_zero]
  omega

theorem systemnode_payment_eq_masternode_payment_iff (value : UInt64) :
    ClassParams.systemnode.payment value = ClassParams.masternode.payment value ↔ value.toNat ≤ 2 := by
  rw [← UInt64.toNat_inj, toNat_masternode_payment, toNat_systemnode_payment]
  omega

namespace Quorum

/-- Writes the payments of both classes into a coinbase, one class after the other. -/
def fillBoth (q : Quorum) (first : NodeClass) (tx : Transaction) (height : Nat) (value : UInt64) (now : Int) :
    Quorum × Transaction :=
  let (q, tx, _) := q.fill first tx height value now
  let (q, tx, _) := q.fill first.other tx height value now
  (q, tx)

/-- Where the ballot names a payee, filling changes nothing but the outputs. -/
theorem fill_of_payee? {q : Quorum} {c : NodeClass} {height : Nat} {payee : Script}
    (h : (q.payments.get c).payee? height = some payee) (tx : Transaction) (value : UInt64) (now : Int) :
    q.fill c tx height value now =
      (q, tx.withOutputs (Payments.pay tx.outputs (q.payments.get c).params.slot value
        ((q.payments.get c).params.payment value) payee), some payee) := by
  have hregistry : q.setRegistry c (q.registries.get c) = q := by cases c <;> rfl
  unfold fill
  rw [Payments.fill_of_payee? h]
  dsimp only
  rw [hregistry]

/-- Where both ballots name a payee, both classes are paid in their places, whichever is filled in first. -/
theorem fillBoth_of_payees {q : Quorum} (hrules : ∀ c, (q.payments.get c).params = .of c) {height : Nat}
    {payees : NodeClass → Script} (hpayees : ∀ c, (q.payments.get c).payee? height = some (payees c))
    (first : NodeClass) {tx : Transaction} {value : UInt64} {script : Script} (htx : tx.outputs = [⟨value, script⟩])
    (now : Int) :
    q.fillBoth first tx height value now =
      (q, tx.withOutputs (template value script (payees .masternode) (payees .systemnode))) := by
  have hslots : (ClassParams.of .masternode).slot = 0 + 1 ∧ (ClassParams.of .systemnode).slot = 1 + 1 := ⟨rfl, rfl⟩
  unfold fillBoth
  rw [fill_of_payee? (hpayees first)]
  dsimp only
  rw [fill_of_payee? (hpayees first.other)]
  dsimp only
  rw [Transaction.withOutputs_withOutputs, Transaction.outputs_withOutputs, htx, hrules, hrules]
  refine congrArg (fun outputs => (q, tx.withOutputs outputs)) ?_
  cases first with
  | masternode =>
    unfold NodeClass.other template leftOver
    rw [hslots.1, hslots.2, Payments.pay_cons, Payments.pay_cons, ofNat_sub_sub]
    rfl
  | systemnode =>
    unfold NodeClass.other template leftOver
    rw [hslots.1, hslots.2, Payments.pay_cons, Payments.pay_cons, ofNat_sub_sub, Nat.sub_right_comm]
    rfl

/-- Sole decided payees are named by their ballots. -/
theorem fillBoth_eq {q : Quorum} (hrules : ∀ c, (q.payments.get c).params = .of c) {height : Nat}
    {payees : NodeClass → Script} (hdecided : ∀ c, (q.payments.get c).Decided height (payees c)) (first : NodeClass)
    {tx : Transaction} {value : UInt64} {script : Script} (htx : tx.outputs = [⟨value, script⟩]) (now : Int) :
    q.fillBoth first tx height value now =
      (q, tx.withOutputs (template value script (payees .masternode) (payees .systemnode))) :=
  fillBoth_of_payees hrules (fun c => (hdecided c).payee?) first htx now

/-! ## Any value and any script -/

/-- A block that pays the budget nothing stands as far as a class goes whose payment is made, whatever its times. -/
theorem isBlockValid?_of_valid {p : Payments} {tx : Transaction} {height : Nat} {value : UInt64} (env : PaymentEnv)
    (hvalid : p.isTransactionValid tx height value env.params.posStartHeight = true)
    (hbudget : ¬ (Payments.superblocksActive env = true ∧ env.budget.isPaymentBlock height = true))
    (overflow : Overflow) (times : Payments.BlockTimes) :
    p.isBlockValid? overflow tx height value times env = some true := by
  unfold Payments.isBlockValid?
  rw [if_neg hbudget, if_pos hvalid]
  split <;> rfl

/-- Where both classes' ballots have sole decided payees, and both classes follow their rules, as they do after every
    run (`Payments.run_params`), a coinbase with one output of any value and any script is filled with both payments in
    their places, in either order. The masternode's is found there unless the script is its own and twenty divides the
    value. The systemnode's is found unless the value is zero and the script its own, or the value is at most two and
    the masternode's script its own. A block that passes both checks is refused on account of the budget only. -/
theorem filled_coinbase_is_valid_unless_an_earlier_output_pays_the_same {q : Quorum}
    (hrules : ∀ c, (q.payments.get c).params = .of c) {height : Nat} {payees : NodeClass → Script}
    (hdecided : ∀ c, (q.payments.get c).Decided height (payees c)) {tx : Transaction} {value : UInt64}
    {script : Script} (htx : tx.outputs = [⟨value, script⟩]) (now : Int) :
    let filled := tx.withOutputs (template value script (payees .masternode) (payees .systemnode))
    let valid := fun c => (q.payments.get c).isTransactionValid filled height value
    (∀ first, q.fillBoth first tx height value now = (q, filled)) ∧
    (∀ posStartHeight ≤ height, valid .masternode posStartHeight = true ↔
      ¬ (20 ∣ value.toNat ∧ payees .masternode = script)) ∧
    (∀ posStartHeight ≤ height, valid .systemnode posStartHeight = true ↔
      ¬ (value = 0 ∧ payees .systemnode = script) ∧
        ¬ (value.toNat ≤ 2 ∧ payees .systemnode = payees .masternode)) ∧
    ((∀ c, valid c q.params.posStartHeight = true) → ∀ overflow times,
      q.isBlockValid? overflow filled height value times now = some true ∨
        Payments.superblocksActive (q.paymentEnv .masternode now) = true ∧ q.budget.isPaymentBlock height = true) := by
  intro filled valid
  have houtputs : filled.outputs = template value script (payees .masternode) (payees .systemnode) :=
    Transaction.outputs_withOutputs _ tx
  -- a class's payment is found in its place if no output before it is the same
  have hfound : ∀ c posStartHeight, posStartHeight ≤ height →
      filled.outputs[(ClassParams.of c).slot]? = some ⟨(ClassParams.of c).payment value, payees c⟩ →
      (valid c posStartHeight = true ↔
        ⟨(ClassParams.of c).payment value, payees c⟩ ∉ filled.outputs.take (ClassParams.of c).slot) := by
    intro c posStartHeight hpos hout
    rw [← hrules c] at hout ⊢
    exact Payments.isTransactionValid_iff (hdecided c) hpos hout
  rw [houtputs] at hfound
  refine ⟨fun first => fillBoth_eq hrules hdecided first htx now, ?_, ?_, ?_⟩
  · intro posStartHeight hpos
    have hbefore : (template value script (payees .masternode) (payees .systemnode)).take 1 =
        [⟨leftOver value, script⟩] := rfl
    rw [hfound .masternode posStartHeight hpos rfl, show (ClassParams.of .masternode).slot = 1 from rfl, hbefore]
    rw [List.mem_singleton, TxOutput.mk.injEq, ← masternode_payment_eq_leftOver_iff]
    exact Iff.rfl
  · intro posStartHeight hpos
    have hbefore : (template value script (payees .masternode) (payees .systemnode)).take 2 =
        [⟨leftOver value, script⟩, ⟨ClassParams.masternode.payment value, payees .masternode⟩] := rfl
    rw [hfound .systemnode posStartHeight hpos rfl, show (ClassParams.of .systemnode).slot = 2 from rfl, hbefore]
    rw [List.mem_cons, List.mem_singleton, not_or, TxOutput.mk.injEq, TxOutput.mk.injEq]
    rw [← systemnode_payment_eq_leftOver_iff, ← systemnode_payment_eq_masternode_payment_iff]
    exact Iff.rfl
  · intro hvalid overflow times
    by_cases hbudget : Payments.superblocksActive (q.paymentEnv .masternode now) = true ∧
        q.budget.isPaymentBlock height = true
    · exact Or.inr hbudget
    · refine Or.inl (isBlockValid?_of_both ?_)
      intro c
      exact isBlockValid?_of_valid (q.paymentEnv c now) (hvalid c) hbudget overflow times

theorem agreed_decided (c : NodeClass) (height : Nat) (payee : Script) : (agreed c height payee).Decided height payee :=
  ⟨⟨height, [⟨payee, paymentVotesRequired⟩]⟩, paymentVotesRequired, Std.ExtTreeMap.getElem?_insert_self, rfl⟩

/-- A masternode that is due to be paid by the block that it makes itself fills the coinbase with its payment twice
    over, and is not paid as far as the check goes. -/
theorem filled_coinbase_of_the_payee_is_invalid :
    let q : Quorum := { Quorum.start (.of .regtest) .empty 0 with
      payments := ⟨agreed .masternode 305 [1], agreed .systemnode 305 [2]⟩ }
    let filled := (q.fillBoth .systemnode (.coinbase 1 305 [⟨1000000000, [1]⟩] 0) 305 1000000000 0).2
    filled.outputs = [⟨450000000, [1]⟩, ⟨450000000, [1]⟩, ⟨100000000, [2]⟩] ∧
      q.payments.masternode.isTransactionValid filled 305 1000000000 200 = false ∧
      q.payments.systemnode.isTransactionValid filled 305 1000000000 200 = true := by
  intro q filled
  have hrules : ∀ c, (q.payments.get c).params = .of c := by
    intro c
    cases c <;> rfl
  have hone : (Transaction.coinbase 1 305 [⟨1000000000, [1]⟩] 0).outputs = [⟨1000000000, [1]⟩] := rfl
  have hdecided : ∀ c, (q.payments.get c).Decided 305 (match c with | .masternode => [1] | .systemnode => [2]) := by
    intro c
    cases c with
    | masternode => exact agreed_decided .masternode 305 [1]
    | systemnode => exact agreed_decided .systemnode 305 [2]
  obtain ⟨hfill, hmasternode, hsystemnode, -⟩ :=
    filled_coinbase_is_valid_unless_an_earlier_output_pays_the_same hrules hdecided hone 0
  have hfilled : filled = _ := congrArg Prod.snd (hfill .systemnode)
  rw [hfilled]
  refine ⟨by decide, ?_, ?_⟩
  · exact Bool.eq_false_iff.mpr fun hvalid => (hmasternode 200 (by decide)).mp hvalid (by decide)
  · exact (hsystemnode 200 (by decide)).mpr (by decide)

end Quorum

end NodeQuorum
