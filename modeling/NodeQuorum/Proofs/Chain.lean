/-
  NodeQuorum.Proofs.Chain — which heights a chain answers for.

  A chain has a block at every height up to its tip, so it tells the block that ranks voters for every height up to the
  one after its tip (`Ranking.seenHash_of_le`). The confirmations of an output are counted from the tip down to the
  block that made it.
-/

import NodeQuorum.Ranking

namespace NodeQuorum

/-- Every height up to the tip has a block. -/
theorem Chain.block_of_le_tip {c : Chain} {tip height : Nat} (htip : c.tip? = some tip) (hle : height ≤ tip) :
    ∃ block, c.blocks[height]? = some block := by
  unfold tip? at htip
  split at htip
  · cases htip
  · cases htip
    have hlt : height < c.blocks.size := by omega
    exact ⟨c.blocks[height], Array.getElem?_eq_getElem hlt⟩

theorem Chain.hashAt?_of_le_tip {c : Chain} {tip height : Nat} (htip : c.tip? = some tip) (hle : height ≤ tip) :
    ∃ hash, c.hashAt? height = some hash := by
  obtain ⟨block, hblock⟩ := block_of_le_tip htip hle
  refine ⟨block.hash, ?_⟩
  unfold hashAt?
  rw [hblock, Option.map_some]

/-- The block that voters for a height see is known up to the height after the tip. -/
theorem Ranking.seenHash_of_le {c : Chain} {tip height : Nat} (htip : c.tip? = some tip) (hle : height ≤ tip + 1) :
    ∃ hash, c.hashAt? (height - 1) = some hash ∧ seenHash c height = .ok hash := by
  have hbelow : height - 1 ≤ tip := by omega
  obtain ⟨hash, hhash⟩ := Chain.hashAt?_of_le_tip htip hbelow
  refine ⟨hash, hhash, ?_⟩
  unfold seenHash
  have hseen : ¬ tip + 1 < height := by omega
  simp only [htip, hseen, if_false, hhash]

/-- An unspent output has its confirmations from the tip down to its block. -/
theorem Chain.confirmations?_eq_some_iff {c : Chain} {o : OutPoint} {n : Nat} :
    c.confirmations? o = some n ↔
      ∃ coin tip, c.coins[o]? = some coin ∧ c.tip? = some tip ∧ n = tip - coin.height + 1 := by
  unfold confirmations?
  cases c.coins[o]? with
  | none => simp
  | some coin =>
    cases c.tip? with
    | none => simp
    | some tip => simp [eq_comm]

end NodeQuorum
