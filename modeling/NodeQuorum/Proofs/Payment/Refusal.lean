/-
  NodeQuorum.Proofs.Payment.Refusal — the grounds on which a block is refused.

  The check of a block returns early in many places, and every doubt counts for the block: a node that is not
  synchronised, a ballot without a decided payee, a stalled chain and a rule that is not enforced all let it pass. What
  is left is said once, as the two grounds that a class can have (`Grounds`): the budget does not approve the coinbase
  of a budget block, or the coinbase does not pay the decided payees of the block's ballot (`Dishonoured`).
  - `isBlockValid?_eq_some_false_iff`, `isBlockValid?_eq_none_iff`: a class refuses a block exactly if it is synchronised
    and has one of them, and stops the program exactly if it comes to a difference of times that 64 bits do not hold.
  - `toInt_gap`: what is computed is the difference as long as they hold it. A program that wraps around takes the
    longest differences for negative ones.
  - `isBlockValid?_cases`: the two classes look at one block, so where one of them stops the other does not refuse.
  `blocks_are_refused_only_on_enforced_grounds_while_their_times_fit` says this of a node, and that votes of weight six for
  one payee are stored if it refuses a block that is not the budget's.
-/

import NodeQuorum.Proofs.Payment.VoteOrder
import NodeQuorum.Quorum.Block

namespace NodeQuorum

theorem NodeClass.exists_iff {P : NodeClass → Prop} : (∃ c, P c) ↔ P .masternode ∨ P .systemnode := by
  constructor
  · rintro ⟨c, h⟩
    cases c with
    | masternode => exact Or.inl h
    | systemnode => exact Or.inr h
  · rintro (h | h)
    · exact ⟨_, h⟩
    · exact ⟨_, h⟩

/-- A coinbase is held to a ballot only with a decided payee. -/
theorem Ballot.isSatisfied_eq_false_iff {b : Ballot} {tx : Transaction} {payment : UInt64} {slot : Nat}
    {enforceSlot : Bool} :
    b.isSatisfied tx payment slot enforceSlot = false ↔
      (∃ w ∈ b.payees, paymentVotesRequired ≤ w.votes) ∧ ¬ Paid tx.outputs payment slot enforceSlot b.decided := by
  unfold isSatisfied isDecided
  rw [Bool.or_eq_false_iff, Bool.not_eq_false', List.any_eq_true, ← Bool.not_eq_true, paysOneOf_iff]
  simp only [decide_eq_true_eq]

namespace Payments

/-! ## The difference of the times -/

namespace BlockTimes

variable {t : BlockTimes} {overflow : Overflow} {gap : Int64}

/-- Only a difference that does not fit stops the program, and only if it checks. -/
theorem gap?_eq_none_iff : t.gap? overflow = none ↔ overflow = .stops ∧ ¬ t.Fits := by
  cases overflow with
  | stops => simp [gap?]
  | wraps => simp [gap?]

/-- What a program computes that checks is a difference that fits. -/
theorem fits_of_checked (h : t.gap? .stops = some gap) : t.Fits := by
  refine Decidable.not_not.mp fun hfits => ?_
  rw [gap?_eq_none_iff.mpr ⟨rfl, hfits⟩] at h
  cases h

theorem gap_eq (h : t.gap? overflow = some gap) : gap = t.time - t.previous := by
  cases overflow with
  | stops =>
    rw [gap?] at h
    split at h
    · exact (Option.some_inj.mp h).symm
    · cases h
  | wraps => exact (Option.some_inj.mp h).symm

theorem toInt_gap (h : t.gap? overflow = some gap) : gap.toInt = t.seconds.bmod (2 ^ 64) := by
  rw [gap_eq h, Int64.toInt_sub]
  rfl

/-- While 64 bits hold the difference, it is the one that is computed. -/
theorem toInt_gap_of_fits (hfits : t.Fits) (h : t.gap? overflow = some gap) : gap.toInt = t.seconds := by
  obtain ⟨hlow, hhigh⟩ := hfits
  rw [Int64.toInt_minValue] at hlow
  rw [Int64.toInt_maxValue] at hhigh
  rw [toInt_gap h]
  apply Int.bmod_eq_of_le
  · omega
  · omega

/-- A difference above the largest number comes out negative where numbers wrap around. -/
theorem toInt_gap_neg (hlong : Int64.maxValue.toInt < t.seconds) (h : t.gap? overflow = some gap) : gap.toInt < 0 := by
  have hbelow : t.seconds < 18446744073709551616 := by
    have hhigh := t.time.toInt_lt
    have hlow := t.previous.le_toInt
    unfold seconds
    omega
  rw [Int64.toInt_maxValue] at hlong
  rw [toInt_gap h, Int.bmod_def]
  omega

end BlockTimes

/-! ## One class -/

/-- A block that the budget pays: superblocks are switched on or the network is the test network, and it is the
    budget's turn. -/
def IsBudgetBlock (env : PaymentEnv) (height : Nat) : Prop :=
  (env.sporks.isActive .enableSuperblocks env.now = true ∨ env.params.network = .testnet) ∧
    env.budget.isPaymentBlock height = true

/-- A coinbase that does not pay the decided payees of the ballot of its height. -/
def Dishonoured (p : Payments) (tx : Transaction) (height : Nat) (value : UInt64) (env : PaymentEnv) : Prop :=
  ∃ b, p.ballots[height]? = some b ∧ (∃ w ∈ b.payees, paymentVotesRequired ≤ w.votes) ∧
    ¬ Ballot.Paid tx.outputs (p.params.payment value) p.params.slot (decide (env.params.posStartHeight ≤ height)) b.decided

/-- The grounds on which a class refuses a block. -/
inductive Grounds (p : Payments) (overflow : Overflow) (tx : Transaction) (height : Nat) (value : UInt64)
    (times : BlockTimes) (env : PaymentEnv) : Prop
  /-- The budget does not approve a budget block, and the budget is enforced. -/
  | budget : IsBudgetBlock env height → env.budget.isValid tx = false →
      env.sporks.isActive .masternodeBudgetEnforcement env.now = true → Grounds p overflow tx height value times env
  /-- Any other block does not pay its decided payees without a stall, and the payments of the class are enforced. -/
  | payees {gap : Int64} : ¬ IsBudgetBlock env height → p.Dishonoured tx height value env →
      times.gap? overflow = some gap → gap.toInt ≤ env.params.stallSeconds →
      env.sporks.isActive p.params.enforcement env.now = true → Grounds p overflow tx height value times env

variable {p : Payments} {overflow : Overflow} {tx : Transaction} {height : Nat} {value : UInt64} {times : BlockTimes}
  {env : PaymentEnv}

theorem isBudgetBlock_iff :
    (superblocksActive env = true ∧ env.budget.isPaymentBlock height = true) ↔ IsBudgetBlock env height := by
  unfold IsBudgetBlock superblocksActive
  rw [Bool.or_eq_true, decide_eq_true_eq]

theorem isTransactionValid_eq_false_iff :
    p.isTransactionValid tx height value env.params.posStartHeight = false ↔ p.Dishonoured tx height value env := by
  unfold isTransactionValid Dishonoured
  cases p.ballots[height]? with
  | none => simp
  | some b =>
    simp only [Option.some.injEq, exists_eq_left']
    exact Ballot.isSatisfied_eq_false_iff

/-- A block that is not the budget's and does not pay is judged by the stall and by enforcement. -/
theorem isBlockValid?_of_dishonoured (hsynced : env.synced = true) (hbudget : ¬ IsBudgetBlock env height)
    (hdishonoured : p.Dishonoured tx height value env) :
    p.isBlockValid? overflow tx height value times env = (times.gap? overflow).map fun gap =>
      env.params.stallSeconds < gap.toInt || !env.sporks.isActive p.params.enforcement env.now := by
  unfold isBlockValid?
  rw [if_neg (Decidable.not_not.mpr hsynced), if_neg (mt isBudgetBlock_iff.mp hbudget),
    isTransactionValid_eq_false_iff.mpr hdishonoured, if_neg Bool.false_ne_true]

/-- Any other block has an answer of its own. -/
theorem isBlockValid?_of_not_dishonoured
    (h : ¬ (env.synced = true ∧ ¬ IsBudgetBlock env height ∧ p.Dishonoured tx height value env)) :
    ∃ valid, p.isBlockValid? overflow tx height value times env = some valid ∧
      (valid = false ↔ env.synced = true ∧ IsBudgetBlock env height ∧ env.budget.isValid tx = false ∧
        env.sporks.isActive .masternodeBudgetEnforcement env.now = true) := by
  unfold isBlockValid?
  by_cases hsynced : env.synced = true
  · rw [if_neg (Decidable.not_not.mpr hsynced)]
    by_cases hbudget : IsBudgetBlock env height
    · rw [if_pos (isBudgetBlock_iff.mpr hbudget)]
      refine ⟨_, rfl, ?_⟩
      simp [hsynced, hbudget]
    · rw [if_neg (mt isBudgetBlock_iff.mp hbudget), if_pos]
      · exact ⟨true, rfl, by simp [hbudget]⟩
      · rw [← Bool.not_eq_false, isTransactionValid_eq_false_iff]
        exact fun hdishonoured => h ⟨hsynced, hbudget, hdishonoured⟩
  · rw [if_pos hsynced]
    exact ⟨true, rfl, by simp [hsynced]⟩

/-- A class refuses a block exactly if it is synchronised and has grounds to. -/
theorem isBlockValid?_eq_some_false_iff :
    p.isBlockValid? overflow tx height value times env = some false ↔
      env.synced = true ∧ p.Grounds overflow tx height value times env := by
  by_cases h : env.synced = true ∧ ¬ IsBudgetBlock env height ∧ p.Dishonoured tx height value env
  · obtain ⟨hsynced, hbudget, hdishonoured⟩ := h
    rw [isBlockValid?_of_dishonoured hsynced hbudget hdishonoured, Option.map_eq_some_iff]
    constructor
    · rintro ⟨gap, hgap, hrefused⟩
      rw [Bool.or_eq_false_iff, decide_eq_false_iff_not, Int.not_lt, Bool.not_eq_false'] at hrefused
      exact ⟨hsynced, .payees hbudget hdishonoured hgap hrefused.1 hrefused.2⟩
    · rintro ⟨-, hgrounds⟩
      cases hgrounds with
      | budget hbudget' => exact absurd hbudget' hbudget
      | @payees gap _ _ hgap hstall henforced =>
        refine ⟨gap, hgap, ?_⟩
        rw [henforced, decide_eq_false (Int.not_lt.mpr hstall)]
        rfl
  · obtain ⟨valid, hvalid, hrefuses⟩ :=
      @isBlockValid?_of_not_dishonoured p overflow tx height value times env h
    rw [hvalid, Option.some_inj, hrefuses]
    constructor
    · rintro ⟨hsynced, hbudget, hinvalid, henforced⟩
      exact ⟨hsynced, .budget hbudget hinvalid henforced⟩
    · rintro ⟨hsynced, hgrounds⟩
      cases hgrounds with
      | budget hbudget hinvalid henforced => exact ⟨hsynced, hbudget, hinvalid, henforced⟩
      | payees hbudget hdishonoured => exact absurd ⟨hsynced, hbudget, hdishonoured⟩ h

/-- A class stops the program exactly if it comes to a difference that does not fit. -/
theorem isBlockValid?_eq_none_iff :
    p.isBlockValid? overflow tx height value times env = none ↔
      env.synced = true ∧ ¬ IsBudgetBlock env height ∧ p.Dishonoured tx height value env ∧
        times.gap? overflow = none := by
  by_cases h : env.synced = true ∧ ¬ IsBudgetBlock env height ∧ p.Dishonoured tx height value env
  · obtain ⟨hsynced, hbudget, hdishonoured⟩ := h
    rw [isBlockValid?_of_dishonoured hsynced hbudget hdishonoured, Option.map_eq_none_iff]
    exact ⟨fun hgap => ⟨hsynced, hbudget, hdishonoured, hgap⟩, fun hall => hall.2.2.2⟩
  · obtain ⟨valid, hvalid, -⟩ :=
      @isBlockValid?_of_not_dishonoured p overflow tx height value times env h
    rw [hvalid]
    exact iff_of_false nofun fun hall => h ⟨hall.1, hall.2.1, hall.2.2.1⟩

/-- Behind a decided payee stand stored votes. -/
theorem stored_quorum_of_grounds {net : NetworkParams} (h : Tallied net p)
    (hgrounds : p.Grounds overflow tx height value times env) (hbudget : ¬ IsBudgetBlock env height) :
    ∃ s, paymentVotesRequired ≤ p.weightOn net height s := by
  cases hgrounds with
  | budget hbudget' => exact absurd hbudget' hbudget
  | payees _ hdishonoured =>
    obtain ⟨b, hb, ⟨w, hw, hvotes⟩, -⟩ := hdishonoured
    have hcount : p.votesFor height w.script = w.votes := by
      unfold votesFor
      rw [hb]
      exact Ballot.votesFor_of_mem _ (h.distinct height _ hb) hw
    refine ⟨w.script, ?_⟩
    rw [← h.counted height w.script, hcount]
    exact hvotes

end Payments

namespace Quorum

/-! ## Both classes -/

variable {q : Quorum} {overflow : Overflow} {tx : Transaction} {height : Nat} {value : UInt64}
  {times : Payments.BlockTimes} {now : Int} {c c' : NodeClass}

theorem isSynced_iff : q.isSynced c = true ↔ q.chain.synced = true ∧ (q.syncs.get c).isFinished = true := by
  unfold isSynced
  rw [Bool.and_eq_true]

/-- What one class says to a block. -/
def saysTo (q : Quorum) (overflow : Overflow) (tx : Transaction) (height : Nat) (value : UInt64)
    (times : Payments.BlockTimes) (now : Int) (c : NodeClass) : Option Bool :=
  (q.payments.get c).isBlockValid? overflow tx height value times (q.paymentEnv c now)

/-- Where one class stops the other does not refuse: both look at the same budget and the same times. -/
theorem not_refused_of_stop (hstops : q.saysTo overflow tx height value times now c = none) :
    q.saysTo overflow tx height value times now c' ≠ some false := by
  intro hrefuses
  obtain ⟨-, hbudget, -, hgap⟩ := Payments.isBlockValid?_eq_none_iff.mp hstops
  obtain ⟨-, hgrounds⟩ := Payments.isBlockValid?_eq_some_false_iff.mp hrefuses
  cases hgrounds with
  | budget hbudget' => exact hbudget hbudget'
  | payees _ _ hgap' =>
    rw [hgap] at hgap'
    cases hgap'

/-- The second class is looked at only if the first one lets the block stand. -/
theorem isBlockValid?_eq :
    q.isBlockValid? overflow tx height value times now =
      (q.saysTo overflow tx height value times now .masternode).bind fun first =>
        if first then q.saysTo overflow tx height value times now .systemnode else some false := by
  change ([.masternode, .systemnode].allM fun c => q.saysTo overflow tx height value times now c) = _
  simp only [List.allM]
  cases q.saysTo overflow tx height value times now .masternode with
  | none => rfl
  | some first =>
    cases first with
    | false => rfl
    | true =>
      cases q.saysTo overflow tx height value times now .systemnode with
      | none => rfl
      | some second => cases second <;> rfl

/-- A node answers as one of its classes does, if not that both let the block stand. -/
theorem isBlockValid?_cases :
    (q.isBlockValid? overflow tx height value times now = some false ↔
      ∃ c, q.saysTo overflow tx height value times now c = some false) ∧
    (q.isBlockValid? overflow tx height value times now = none ↔
      ∃ c, q.saysTo overflow tx height value times now c = none) := by
  have hfirst := @not_refused_of_stop q overflow tx height value times now .masternode .systemnode
  have hsecond := @not_refused_of_stop q overflow tx height value times now .systemnode .masternode
  rw [isBlockValid?_eq, NodeClass.exists_iff, NodeClass.exists_iff]
  generalize q.saysTo overflow tx height value times now .masternode = first at hfirst hsecond
  generalize q.saysTo overflow tx height value times now .systemnode = second at hfirst hsecond
  cases first with
  | none => simpa using hfirst rfl
  | some first =>
    cases first with
    | false => simpa using fun hnone => hsecond hnone rfl
    | true => simp

/-- A node refuses a block exactly if one of its classes is synchronised and has grounds to. -/
theorem isBlockValid?_eq_some_false_iff :
    q.isBlockValid? overflow tx height value times now = some false ↔
      ∃ c, q.chain.synced = true ∧ (q.syncs.get c).isFinished = true ∧
        (q.payments.get c).Grounds overflow tx height value times (q.paymentEnv c now) := by
  rw [isBlockValid?_cases.1]
  refine exists_congr fun c => ?_
  rw [← and_assoc, ← isSynced_iff]
  exact Payments.isBlockValid?_eq_some_false_iff

/-- A node stops at a block exactly if one of its classes comes to times that are too far apart. -/
theorem isBlockValid?_eq_none_iff :
    q.isBlockValid? overflow tx height value times now = none ↔
      overflow = .stops ∧ ¬ times.Fits ∧ ∃ c, q.chain.synced = true ∧ (q.syncs.get c).isFinished = true ∧
        ¬ Payments.IsBudgetBlock (q.paymentEnv c now) height ∧
        (q.payments.get c).Dishonoured tx height value (q.paymentEnv c now) := by
  rw [isBlockValid?_cases.2]
  constructor
  · rintro ⟨c, hstops⟩
    obtain ⟨hsynced, hbudget, hdishonoured, hgap⟩ := Payments.isBlockValid?_eq_none_iff.mp hstops
    obtain ⟨hchain, hclass⟩ := isSynced_iff.mp hsynced
    obtain ⟨hoverflow, hfits⟩ := Payments.BlockTimes.gap?_eq_none_iff.mp hgap
    exact ⟨hoverflow, hfits, c, hchain, hclass, hbudget, hdishonoured⟩
  · rintro ⟨hoverflow, hfits, c, hchain, hclass, hbudget, hdishonoured⟩
    exact ⟨c, Payments.isBlockValid?_eq_none_iff.mpr ⟨isSynced_iff.mpr ⟨hchain, hclass⟩, hbudget, hdishonoured,
      Payments.BlockTimes.gap?_eq_none_iff.mpr ⟨hoverflow, hfits⟩⟩⟩

/-- What both classes let stand, the node does. -/
theorem isBlockValid?_of_both (h : ∀ c, q.saysTo overflow tx height value times now c = some true) :
    q.isBlockValid? overflow tx height value times now = some true := by
  obtain ⟨hrefused, hstopped⟩ := @isBlockValid?_cases q overflow tx height value times now
  cases hvalid : q.isBlockValid? overflow tx height value times now with
  | none =>
    obtain ⟨c, hc⟩ := hstopped.mp hvalid
    rw [h c] at hc
    cases hc
  | some valid =>
    cases valid with
    | true => rfl
    | false =>
      obtain ⟨c, hc⟩ := hrefused.mp hvalid
      rw [h c, Option.some_inj] at hc
      cases hc

/-- A node refuses a block exactly if one of its classes is synchronised and has grounds to. The gap that the grounds
    are about is the difference of the block's times, if the program checks or 64 bits hold it. Where they do not, a
    program that checks stops, exactly if a synchronised class has decided payees that the coinbase does not pay and the
    block is not the budget's; and one that wraps around goes on with the remainder, so it refuses the longest gaps of
    all where payments are enforced. If the votes are those of a run, votes of weight six for one payee are stored
    whenever a block is refused that is not the budget's. -/
theorem blocks_are_refused_only_on_enforced_grounds_while_their_times_fit (q : Quorum) (overflow : Overflow)
    (tx : Transaction) (height : Nat) (value : UInt64) (times : Payments.BlockTimes) (now : Int) :
    (q.isBlockValid? overflow tx height value times now = some false ↔
      ∃ c, q.chain.synced = true ∧ (q.syncs.get c).isFinished = true ∧
        (q.payments.get c).Grounds overflow tx height value times (q.paymentEnv c now)) ∧
    (q.isBlockValid? overflow tx height value times now = none ↔
      overflow = .stops ∧ ¬ times.Fits ∧ ∃ c, q.chain.synced = true ∧ (q.syncs.get c).isFinished = true ∧
        ¬ Payments.IsBudgetBlock (q.paymentEnv c now) height ∧
        (q.payments.get c).Dishonoured tx height value (q.paymentEnv c now)) ∧
    (∀ gap, times.gap? overflow = some gap →
      (overflow = .stops ∨ times.Fits → gap.toInt = times.seconds) ∧ gap.toInt = times.seconds.bmod (2 ^ 64)) ∧
    (∀ c, q.chain.synced = true → (q.syncs.get c).isFinished = true →
      ¬ Payments.IsBudgetBlock (q.paymentEnv c now) height →
      (q.payments.get c).Dishonoured tx height value (q.paymentEnv c now) →
      q.sporks.isActive (q.payments.get c).params.enforcement now = true → 0 ≤ q.params.stallSeconds →
      Int64.maxValue.toInt < times.seconds →
      q.isBlockValid? .stops tx height value times now = none ∧
        q.isBlockValid? .wraps tx height value times now = some false) ∧
    ((∀ c, ∃ params es, q.payments.get c = Payments.run q.params params es) →
      q.isBlockValid? overflow tx height value times now = some false → q.budget.isPaymentBlock height = false →
      ∃ c s, paymentVotesRequired ≤ (q.payments.get c).weightOn q.params height s) := by
  refine ⟨isBlockValid?_eq_some_false_iff, isBlockValid?_eq_none_iff, ?_, ?_, ?_⟩
  · intro gap hgap
    refine ⟨?_, Payments.BlockTimes.toInt_gap hgap⟩
    rintro (rfl | hfits)
    · exact Payments.BlockTimes.toInt_gap_of_fits (Payments.BlockTimes.fits_of_checked hgap) hgap
    · exact Payments.BlockTimes.toInt_gap_of_fits hfits hgap
  · intro c hchain hclass hbudget hdishonoured henforced hstall hlong
    have hunfit : ¬ times.Fits := fun hfits => Int.not_lt.mpr hfits.2 hlong
    refine ⟨isBlockValid?_eq_none_iff.mpr ⟨rfl, hunfit, c, hchain, hclass, hbudget, hdishonoured⟩, ?_⟩
    have hgap : times.gap? .wraps = some (times.time - times.previous) := rfl
    have hneg := Payments.BlockTimes.toInt_gap_neg hlong hgap
    have hshort : (times.time - times.previous).toInt ≤ q.params.stallSeconds := Int.le_trans (Int.le_of_lt hneg) hstall
    exact isBlockValid?_eq_some_false_iff.mpr
      ⟨c, hchain, hclass, .payees hbudget hdishonoured hgap hshort henforced⟩
  · intro hruns hrefused hbudget
    obtain ⟨c, -, -, hgrounds⟩ := isBlockValid?_eq_some_false_iff.mp hrefused
    obtain ⟨params, es, hrun⟩ := hruns c
    have htallied : Payments.Tallied q.params (q.payments.get c) := by
      rw [hrun]
      exact Payments.run_tallied q.params params es
    have hordinary : ¬ Payments.IsBudgetBlock (q.paymentEnv c now) height := fun h =>
      Bool.false_ne_true (hbudget.symm.trans h.2)
    obtain ⟨s, hs⟩ := Payments.stored_quorum_of_grounds htallied hgrounds hordinary
    exact ⟨c, s, hs⟩

/-- A class whose nodes agree on the payee of one height and on nothing else. -/
def agreed (c : NodeClass) (height : Nat) (payee : Script) : Payments :=
  { Payments.empty (.of c) with
    ballots := (∅ : Table Nat Ballot).insert height ⟨height, [⟨payee, paymentVotesRequired⟩]⟩ }

/-- A chain that stalled for longer than 64 bits can tell, and a coinbase that pays nobody. -/
theorem a_block_behind_the_longest_stall_is_refused :
    let q : Quorum := { Quorum.start (.of .regtest) (.generate 4 0 60) 0 with
      payments := ⟨agreed .masternode 305 [1], agreed .systemnode 305 [2]⟩
      syncs := ⟨{ SyncTracker.start 0 with stage := .finished }, { SyncTracker.start 0 with stage := .finished }⟩ }
    let times : Payments.BlockTimes := ⟨9223372036854775807, -1⟩
    let answer := fun overflow => q.isBlockValid? overflow (.coinbase 1 305 [] 0) 305 1000 times 5000000000
    answer .stops = none ∧ answer .wraps = some false := by
  intro q times answer
  have hdishonoured :
      q.payments.masternode.Dishonoured (.coinbase 1 305 [] 0) 305 1000 (q.paymentEnv .masternode 5000000000) :=
    Payments.isTransactionValid_eq_false_iff.mp (by decide +kernel)
  have hordinary : ¬ Payments.IsBudgetBlock (q.paymentEnv .masternode 5000000000) 305 :=
    fun hbudget => absurd hbudget.2 (by decide)
  exact (blocks_are_refused_only_on_enforced_grounds_while_their_times_fit q .stops (.coinbase 1 305 [] 0) 305 1000
    times 5000000000).2.2.2.1 .masternode rfl rfl hordinary hdishonoured (by decide +kernel) (by decide) (by decide)

end Quorum
end NodeQuorum
