/-
  NodeQuorum.Proofs.Lock.Height — the height at which the voters on a transaction are ranked.

  The height is reckoned from the tip and the age of an input, and the age from the tip too, so the tip falls out: on
  every chain on which all inputs are old enough the height is three above the block that made the last of them
  (`lockHeight?_eq_some_iff`).
  - `every_chain_gives_a_lock_one_height`: chains that agree on the coins of a transaction's inputs give its lock one
    height, and that lies below the tip of each of them, so that each can rank the voters.
  - `lock_heights_follow_the_last_input`: the height is that of the youngest input only if the last one is as young, and
    who puts the inputs in order can have the height of any of them.
-/

import NodeQuorum.Lock.Process
import NodeQuorum.Proofs.Chain
import NodeQuorum.Proofs.Table

namespace NodeQuorum.Locks

/-- An output has the confirmations that every input of a request needs. -/
def Ripe (c : Chain) (o : OutPoint) : Prop := ∃ n, c.confirmations? o = some n ∧ minInputConfirmations ≤ n

theorem ripe_iff {c : Chain} {o : OutPoint} : Ripe c o ↔ minInputConfirmations ≤ (c.confirmations? o).getD 0 := by
  unfold Ripe
  cases c.confirmations? o with
  | none => simp [minInputConfirmations]
  | some n => simp

/-- The block of a ripe output lies four or more below the tip. -/
theorem Ripe.below_tip {c : Chain} {o : OutPoint} (h : Ripe c o) :
    ∃ coin tip, c.coins[o]? = some coin ∧ c.tip? = some tip ∧ coin.height + 4 ≤ tip ∧
      c.confirmations? o = some (tip - coin.height + 1) := by
  obtain ⟨n, hn, hmin⟩ := h
  obtain ⟨coin, tip, hcoin, htip, rfl⟩ := Chain.confirmations?_eq_some_iff.mp hn
  refine ⟨coin, tip, hcoin, htip, ?_, hn⟩
  unfold minInputConfirmations at hmin
  omega

/-! ## The age of the inputs -/

/-- The age is that of the last output, and there is none if an output is not ripe. -/
theorem inputAge?_eq_some_iff {c : Chain} {age n : Nat} {os : List OutPoint} :
    inputAge? c age os = some n ↔
      (∀ o ∈ os, Ripe c o) ∧ os.getLast?.elim age (fun o => (c.confirmations? o).getD 0) = n := by
  induction os generalizing age with
  | nil => simp [inputAge?]
  | cons o rest ih =>
    unfold inputAge?
    dsimp only
    by_cases ho : Ripe c o
    · rw [if_neg (Nat.not_lt.mpr (ripe_iff.mp ho)), ih]
      cases rest with
      | nil => simp [ho]
      | cons o' rest =>
        -- the age that the rest starts with does not count, since the rest has a last output
        rw [List.getLast?_cons_cons, List.getLast?_cons, Option.elim_some, Option.elim_some, List.forall_mem_cons,
          List.forall_mem_cons, List.forall_mem_cons]
        simp [ho]
    · rw [if_pos (Nat.lt_of_not_le fun h => ho (ripe_iff.mpr h))]
      simp [ho]

/-! ## The height -/

/-- The tip falls out of the height of a lock. -/
theorem height_of_age {tip made : Nat} (h : made + 4 ≤ tip) : tip + heightOffset - (tip - made + 1) = made + 3 := by
  unfold heightOffset
  omega

/-- A transaction that spends something has a lock height exactly if all of its inputs are ripe, and then it is three
    above the block that made the last of them. -/
theorem lockHeight?_eq_some_iff {c : Chain} {tx : Transaction} {last : OutPoint} {height : Nat}
    (hlast : tx.spends.getLast? = some last) :
    lockHeight? c tx = some height ↔
      (∀ o ∈ tx.spends, Ripe c o) ∧ ∃ coin, c.coins[last]? = some coin ∧ height = coin.height + 3 := by
  have hmem : last ∈ tx.spends := List.mem_of_getLast? hlast
  unfold lockHeight?
  by_cases hripe : ∀ o ∈ tx.spends, Ripe c o
  · obtain ⟨coin, tip, hcoin, htip, hle, hconfirmed⟩ := (hripe last hmem).below_tip
    have hage : inputAge? c 0 tx.spends = some (tip - coin.height + 1) := by
      refine inputAge?_eq_some_iff.mpr ⟨hripe, ?_⟩
      rw [hlast, Option.elim_some, hconfirmed, Option.getD_some]
    rw [hage, htip, hcoin]
    dsimp only
    rw [height_of_age hle]
    constructor
    · intro h
      cases h
      exact ⟨hripe, coin, rfl, rfl⟩
    · intro h
      obtain ⟨-, coin', hsame, rfl⟩ := h
      cases hsame
      rfl
  · have hage : inputAge? c 0 tx.spends = none := by
      cases hage : inputAge? c 0 tx.spends with
      | none => rfl
      | some n => exact absurd (inputAge?_eq_some_iff.mp hage).1 hripe
    rw [hage]
    simp [hripe]

/-- A lock height is three or more and below the tip, so the block that ranks its voters is known. -/
theorem voters_ranked_of_ripe {c : Chain} {o : OutPoint} {coin : Coin} (h : Ripe c o)
    (hcoin : c.coins[o]? = some coin) : ∃ tip hash, c.tip? = some tip ∧ coin.height + 3 ≤ tip - 1 ∧
      c.hashAt? (coin.height + 3 - 1) = some hash ∧ Ranking.seenHash c (coin.height + 3) = .ok hash := by
  obtain ⟨coin', tip, hcoin', htip, hle, -⟩ := h.below_tip
  rw [hcoin, Option.some.injEq] at hcoin'
  subst hcoin'
  have hbelow : coin.height + 3 ≤ tip + 1 := by omega
  obtain ⟨hash, hhash, hseen⟩ := Ranking.seenHash_of_le htip hbelow
  exact ⟨tip, hash, htip, by omega, hhash, hseen⟩

/-- An opened ballot has the height that it was opened with, whether there was a ballot or not. -/
theorem height_openBallot (s : Locks) (tx : Transaction) (height : Nat) (now : Int) :
    ((s.openBallot tx height now).ballots[tx.txid]?).map Lock.height = some height := by
  unfold openBallot
  dsimp only
  rw [Table.lookup_insert, if_pos rfl]
  cases s.ballots[tx.txid]? <;> rfl

/-! ## Two chains -/

/-- Chains that agree on the heights of a transaction's inputs, with all of them ripe on both, give its ballot one
    height, whatever their tips. It is at least three and below both tips, and both chains have the block that ranks the
    voters for it. -/
theorem every_chain_gives_a_lock_one_height {c c' : Chain} {tx : Transaction} (hspends : tx.spends ≠ [])
    (hcoins : ∀ o ∈ tx.spends, (c.coins[o]?).map Coin.height = (c'.coins[o]?).map Coin.height)
    (hripe : ∀ o ∈ tx.spends, Ripe c o) (hripe' : ∀ o ∈ tx.spends, Ripe c' o) :
    ∃ height, lockHeight? c tx = some height ∧ lockHeight? c' tx = some height ∧ 3 ≤ height ∧
      (∀ (s : Locks) (now : Int), ((s.openBallot tx height now).ballots[tx.txid]?).map Lock.height = some height) ∧
      ∀ d ∈ [c, c'], ∃ tip hash, d.tip? = some tip ∧ height ≤ tip - 1 ∧
        d.hashAt? (height - 1) = some hash ∧ Ranking.seenHash d height = .ok hash := by
  obtain ⟨last, hlast⟩ : ∃ last, tx.spends.getLast? = some last := by
    cases hlast : tx.spends.getLast? with
    | none => exact absurd (List.getLast?_eq_none_iff.mp hlast) hspends
    | some last => exact ⟨last, rfl⟩
  have hmem : last ∈ tx.spends := List.mem_of_getLast? hlast
  obtain ⟨coin, -, hcoin, -⟩ := (hripe last hmem).below_tip
  obtain ⟨coin', -, hcoin', -⟩ := (hripe' last hmem).below_tip
  have hheight : coin.height = coin'.height := by
    have hsame := hcoins last hmem
    rw [hcoin, hcoin'] at hsame
    simpa using hsame
  refine ⟨coin.height + 3, ?_, ?_, by omega, fun s now => height_openBallot s tx _ now, ?_⟩
  · exact (lockHeight?_eq_some_iff hlast).mpr ⟨hripe, coin, hcoin, rfl⟩
  · exact (lockHeight?_eq_some_iff hlast).mpr ⟨hripe', coin', hcoin', by omega⟩
  · intro d hd
    rw [List.mem_cons, List.mem_singleton] at hd
    rcases hd with rfl | rfl
    · exact voters_ranked_of_ripe (hripe last hmem) hcoin
    · rw [hheight]
      exact voters_ranked_of_ripe (hripe' last hmem) hcoin'

/-- A chain with some blocks and two coins, made at heights four and two. -/
def twoCoins (blocks : Nat) : Chain :=
  { Chain.empty with
    blocks := Array.replicate blocks ⟨0, 0⟩
    coins := (∅ : Table OutPoint Coin).insertMany [(⟨1, 0⟩, ⟨5, [], 4⟩), (⟨1, 1⟩, ⟨7, [], 2⟩)] }

/-- A transaction that spends both. -/
def spendsBoth : Transaction := .standard 1 [⟨⟨1, 0⟩, [], 0⟩, ⟨⟨1, 1⟩, [], 0⟩] [⟨12, []⟩] 0

/-- At tip 8 and at tip 50 the lock has height five. -/
theorem one_height_at_two_tips : ∃ height,
    lockHeight? (twoCoins 9) spendsBoth = some height ∧ lockHeight? (twoCoins 51) spendsBoth = some height ∧
      height = 5 := by
  have hspends : spendsBoth.spends ≠ [] := by decide
  have hcoins : ∀ o ∈ spendsBoth.spends,
      ((twoCoins 9).coins[o]?).map Coin.height = ((twoCoins 51).coins[o]?).map Coin.height := fun _ _ => rfl
  have hripe : ∀ o ∈ spendsBoth.spends, Ripe (twoCoins 9) o := by
    simp only [ripe_iff]
    decide +kernel
  have hripe' : ∀ o ∈ spendsBoth.spends, Ripe (twoCoins 51) o := by
    simp only [ripe_iff]
    decide +kernel
  obtain ⟨height, hlow, hhigh, -⟩ := every_chain_gives_a_lock_one_height hspends hcoins hripe hripe'
  refine ⟨height, hlow, hhigh, ?_⟩
  have hfive : lockHeight? (twoCoins 9) spendsBoth = some 5 := by decide +kernel
  rw [hfive] at hlow
  cases hlow
  rfl

/-! ## The order of the inputs -/

/-- The confirmations of the output that an input spends. -/
def confirmed (c : Chain) (i : TxInput) : Nat := (c.confirmations? i.previous).getD 0

theorem confirmed_le_of_ripe {c : Chain} {tip : Nat} {i : TxInput} (htip : c.tip? = some tip)
    (h : Ripe c i.previous) : confirmed c i ≤ tip + 1 := by
  obtain ⟨coin, tip', -, htip', -, hconfirmed⟩ := h.below_tip
  obtain rfl : tip = tip' := Option.some.inj (htip.symm.trans htip')
  unfold confirmed
  rw [hconfirmed, Option.getD_some]
  omega

theorem lockHeight?_of_ripe {c : Chain} {tip : Nat} {tx : Transaction} {last : TxInput} (htip : c.tip? = some tip)
    (hlast : tx.inputs.getLast? = some last) (hripe : ∀ i ∈ tx.inputs, Ripe c i.previous) :
    lockHeight? c tx = some (tip + heightOffset - confirmed c last) := by
  have hage : inputAge? c 0 tx.spends = some (confirmed c last) := by
    refine inputAge?_eq_some_iff.mpr ⟨?_, ?_⟩
    · exact List.forall_mem_map.mpr hripe
    · rw [Transaction.spends, List.getLast?_map, hlast]
      rfl
  unfold lockHeight?
  rw [hage, htip]

/-- Any input can come last. -/
theorem exists_perm_getLast? {α : Type} {a : α} {l : List α} (h : a ∈ l) :
    ∃ l' : List α, l'.Perm l ∧ l'.getLast? = some a := by
  obtain ⟨before, after, rfl⟩ := List.append_of_mem h
  refine ⟨before ++ after ++ [a], ?_, List.getLast?_concat⟩
  exact (List.perm_append_singleton a _).trans List.perm_middle.symm

theorem exists_getLast?_of_perm {α : Type} {l l' : List α} (h : l'.Perm l) (hne : l ≠ []) :
    ∃ a ∈ l, l'.getLast? = some a := by
  have hne' : l' ≠ [] := by
    rintro rfl
    exact hne h.symm.eq_nil
  exact ⟨l'.getLast hne', h.mem_iff.mp (List.getLast_mem hne'), List.getLast?_eq_some_getLast hne'⟩

/-- Inputs that give one height are equally old: no age exceeds the tip by more than one, so no height is cut off at
    zero. -/
theorem confirmed_eq_of_height {c : Chain} {tip : Nat} {i j : TxInput} (htip : c.tip? = some tip)
    (hi : Ripe c i.previous) (hj : Ripe c j.previous)
    (h : tip + heightOffset - confirmed c i = tip + heightOffset - confirmed c j) : confirmed c i = confirmed c j := by
  have hi' := confirmed_le_of_ripe htip hi
  have hj' := confirmed_le_of_ripe htip hj
  unfold heightOffset at h
  omega

/-- The heights that the orders of the inputs give are those of the single inputs. -/
theorem height_in_some_order_iff {c : Chain} {tip : Nat} {inputs : List TxInput} (htip : c.tip? = some tip)
    (hinputs : inputs ≠ []) (hripe : ∀ i ∈ inputs, Ripe c i.previous) (version lockTime : UInt32)
    (outputs : List TxOutput) (height : Nat) :
    (∃ order, order.Perm inputs ∧ lockHeight? c (.standard version order outputs lockTime) = some height) ↔
      ∃ i ∈ inputs, height = tip + heightOffset - confirmed c i := by
  have hheight : ∀ {order i}, order.Perm inputs → order.getLast? = some i →
      lockHeight? c (.standard version order outputs lockTime) = some (tip + heightOffset - confirmed c i) :=
    fun hperm hlast => lockHeight?_of_ripe htip hlast fun i hi => hripe i (hperm.mem_iff.mp hi)
  constructor
  · rintro ⟨order, hperm, h⟩
    obtain ⟨i, hi, hlast⟩ := exists_getLast?_of_perm hperm hinputs
    rw [hheight hperm hlast] at h
    exact ⟨i, hi, (Option.some.inj h).symm⟩
  · rintro ⟨i, hi, rfl⟩
    obtain ⟨order, hperm, hlast⟩ := exists_perm_getLast? hi
    exact ⟨order, hperm, hheight hperm hlast⟩

/-- On a chain on which all inputs of a transaction are ripe, the height of its lock is four above the tip, less the
    confirmations of its last input. That is at most what the youngest input, the one with the fewest confirmations,
    gives, and is that only if the last input has as few. With the inputs in another order the lock has the height that
    any chosen one of them gives, and no other; so the order does not matter only where all are equally old. -/
theorem lock_heights_follow_the_last_input {c : Chain} {tip : Nat} {inputs : List TxInput} (htip : c.tip? = some tip)
    (hinputs : inputs ≠ []) (hripe : ∀ i ∈ inputs, Ripe c i.previous) (version lockTime : UInt32)
    (outputs : List TxOutput) :
    let ordered (order : List TxInput) : Transaction := .standard version order outputs lockTime
    let heightOf (i : TxInput) : Nat := tip + heightOffset - confirmed c i
    let last := inputs.getLast hinputs
    lockHeight? c (ordered inputs) = some (heightOf last) ∧
    (∀ youngest ∈ inputs, (∀ i ∈ inputs, confirmed c youngest ≤ confirmed c i) →
      heightOf last ≤ heightOf youngest ∧
      (lockHeight? c (ordered inputs) = some (heightOf youngest) ↔ confirmed c last = confirmed c youngest)) ∧
    (∀ height, (∃ order, order.Perm inputs ∧ lockHeight? c (ordered order) = some height) ↔
      ∃ i ∈ inputs, height = heightOf i) ∧
    ((∀ order, order.Perm inputs → lockHeight? c (ordered order) = lockHeight? c (ordered inputs)) ↔
      ∀ i ∈ inputs, ∀ j ∈ inputs, confirmed c i = confirmed c j) := by
  intro ordered heightOf last
  have hmem : last ∈ inputs := List.getLast_mem hinputs
  have hown : lockHeight? c (ordered inputs) = some (heightOf last) :=
    lockHeight?_of_ripe htip (List.getLast?_eq_some_getLast hinputs) hripe
  have hinj : ∀ i ∈ inputs, ∀ j ∈ inputs, heightOf i = heightOf j → confirmed c i = confirmed c j :=
    fun i hi j hj => confirmed_eq_of_height htip (hripe i hi) (hripe j hj)
  have hany := height_in_some_order_iff htip hinputs hripe version lockTime outputs
  refine ⟨hown, ?_, hany, ?_, ?_⟩
  · intro youngest hyoungest hmin
    refine ⟨Nat.sub_le_sub_left (hmin last hmem) _, ?_⟩
    rw [hown, Option.some.injEq]
    exact ⟨hinj last hmem youngest hyoungest, fun h => congrArg (tip + heightOffset - ·) h⟩
  · intro hsame i hi j hj
    have hlast : ∀ k ∈ inputs, heightOf k = heightOf last := by
      intro k hk
      obtain ⟨order, hperm, h⟩ := (hany (heightOf k)).mpr ⟨k, hk, rfl⟩
      rw [hsame order hperm, hown] at h
      exact (Option.some.inj h).symm
    exact hinj i hi j hj ((hlast i hi).trans (hlast j hj).symm)
  · intro hages order hperm
    obtain ⟨i, hi, hlast⟩ := exists_getLast?_of_perm hperm hinputs
    have horder : lockHeight? c (ordered order) = some (heightOf i) :=
      lockHeight?_of_ripe htip hlast fun j hj => hripe j (hperm.mem_iff.mp hj)
    rw [horder, hown]
    exact congrArg (fun n => some (tip + heightOffset - n)) (hages i hi last hmem)

/-- With the older coin last the height is five, and with its inputs in another order the transaction has the height
    seven that its younger coin gives. -/
theorem an_older_coin_at_the_end_lowers_the_height :
    lockHeight? (twoCoins 9) spendsBoth = some 5 ∧
      ∃ order : List TxInput, order.Perm spendsBoth.inputs ∧
        lockHeight? (twoCoins 9) (.standard 1 order [⟨12, []⟩] 0) = some 7 := by
  have htip : (twoCoins 9).tip? = some 8 := by decide +kernel
  have hinputs : spendsBoth.inputs ≠ [] := by decide
  have hripe : ∀ i ∈ spendsBoth.inputs, Ripe (twoCoins 9) i.previous := by
    simp only [ripe_iff]
    decide +kernel
  obtain ⟨hown, -, hany, -⟩ := lock_heights_follow_the_last_input htip hinputs hripe 1 0 [⟨12, []⟩]
  refine ⟨hown.trans (by decide +revert +kernel), (hany 7).mpr ?_⟩
  exact ⟨⟨⟨1, 0⟩, [], 0⟩, by decide, by decide +kernel⟩

end NodeQuorum.Locks
