/-
  NodeQuorum.Proofs.Rollback — a rollback loses no block.

  The blocks that a rollback takes off are put back in their order, and the blocks whose failure it takes back come
  after them.
  - `disconnectTip_cases`: the tip goes from the chain to the detached blocks, or nothing changes (`Unwound`).
  - `disconnectMany_eq`: a rollback takes off as many blocks as it is asked for, or all but the first, or none where
    disconnecting is refused (`reach`), and says why it stopped early.
  - `Unwound.activateBest`: activating the chain undoes it, however far it went.
  `rollbacks_put_every_block_back` puts them together, for every chain, depth and time.
-/

import NodeQuorum.Chain.Rollback

namespace NodeQuorum
namespace Chain

/-! ## Taking blocks off -/

/-- How many blocks a rollback takes off: the first one stays. -/
def reach (c : Chain) (blocks : Nat) : Nat := if c.refusesDisconnect then 0 else min blocks (c.blocks.size - 1)

/-- Why a rollback stops early. -/
def obstacle (c : Chain) : DisconnectError := if c.refusesDisconnect then .refused else .genesis

/-- Some blocks were taken off the chain, which holds them in their order with those detached before. -/
structure Unwound (c c' : Chain) (count : Nat) : Prop where
  kept : c'.blocks.toList ++ c'.detached = c.blocks.toList ++ c.detached
  size : c'.blocks.size + count = c.blocks.size
  rest : c' = { c with
    blocks := c'.blocks
    detached := c'.detached
    disconnects := c.disconnects + count }

namespace Unwound

theorem refl (c : Chain) : Unwound c c 0 := ⟨rfl, rfl, rfl⟩

variable {c c' c'' : Chain} {m n : Nat}

theorem refuses (h : Unwound c c' n) : c'.refusesDisconnect = c.refusesDisconnect := by
  rw [h.rest]

theorem trans (h : Unwound c c' m) (h' : Unwound c' c'' n) : Unwound c c'' (m + n) := by
  refine ⟨h'.kept.trans h.kept, ?_, ?_⟩
  · have hsize := h.size
    have hsize' := h'.size
    omega
  · have hdisconnects : c'.disconnects = c.disconnects + m := by rw [h.rest]
    rw [h'.rest, hdisconnects, h.rest, Nat.add_assoc]

/-- Activating the chain puts the detached blocks back and then the reconsidered ones, however many were taken off. -/
theorem activateBest (h : Unwound c c' n) : c'.activateBest = { c with
    blocks := c.blocks ++ c.detached.toArray ++ c.reconsidered.toArray
    detached := []
    reconsidered := []
    disconnects := c.disconnects + n
    activations := c.activations + 1 } := by
  have hblocks : c'.blocks ++ c'.detached.toArray = c.blocks ++ c.detached.toArray := by
    refine Array.toList_inj.mp ?_
    rw [Array.toList_append, Array.toList_append]
    exact h.kept
  unfold Chain.activateBest
  rw [hblocks, h.rest]

end Unwound

theorem reach_of_refusing {c : Chain} (h : c.refusesDisconnect = true) (blocks : Nat) : c.reach blocks = 0 := by
  unfold reach
  rw [if_pos h]

theorem reach_of_willing {c : Chain} (h : ¬ c.refusesDisconnect = true) (blocks : Nat) :
    c.reach blocks = min blocks (c.blocks.size - 1) := by
  unfold reach
  rw [if_neg h]

/-- The tip is taken off, unless the chain refuses it or has no block above its first. -/
theorem disconnectTip_cases (c : Chain) :
    ((∀ blocks, c.reach blocks = 0) ∧ c.disconnectTip = .error c.obstacle) ∨
    ∃ c' block, c.disconnectTip = .ok (c', block) ∧ Unwound c c' 1 ∧
      ∀ blocks, c.reach (blocks + 1) = c'.reach blocks + 1 := by
  unfold disconnectTip obstacle
  by_cases hrefuses : c.refusesDisconnect = true
  · rw [if_pos hrefuses, if_pos hrefuses]
    exact Or.inl ⟨reach_of_refusing hrefuses, rfl⟩
  rw [if_neg hrefuses, if_neg hrefuses]
  by_cases hfirst : c.blocks.size ≤ 1
  · rw [if_pos hfirst]
    refine Or.inl ⟨?_, rfl⟩
    intro blocks
    rw [reach_of_willing hrefuses]
    omega
  rw [if_neg hfirst]
  obtain ⟨below, tip, hblocks⟩ : ∃ below tip, c.blocks = Array.push below tip :=
    Array.exists_push_of_size_pos (Nat.lt_trans Nat.zero_lt_one (Nat.lt_of_not_le hfirst))
  rw [hblocks, Array.back?_push, Array.pop_push]
  let c' : Chain := { c with blocks := below, detached := tip :: c.detached, disconnects := c.disconnects + 1 }
  have hunwound : Unwound c c' 1 := ⟨by simp [c', hblocks], by simp [c', hblocks], rfl⟩
  refine Or.inr ⟨c', tip, rfl, hunwound, ?_⟩
  intro blocks
  have hrefuses' : ¬ c'.refusesDisconnect = true := hrefuses
  have hsize := hunwound.size
  rw [reach_of_willing hrefuses, reach_of_willing hrefuses']
  omega

/-- A rollback takes off what it reaches, counts it, and tells why it stops if that is less than it was asked for. -/
theorem disconnectMany_eq (blocks : Nat) (c : Chain) (done : Nat) :
    ∃ c', Unwound c c' (c.reach blocks) ∧ c.disconnectMany blocks done =
      (c', done + c.reach blocks, if c.reach blocks = blocks then none else some c.obstacle) := by
  induction blocks generalizing c done with
  | zero =>
    have hreach : c.reach 0 = 0 := by
      unfold reach
      rw [Nat.zero_min, ite_self]
    rw [hreach]
    exact ⟨c, .refl c, rfl⟩
  | succ blocks ih =>
    unfold disconnectMany
    rcases disconnectTip_cases c with ⟨hreach, htip⟩ | ⟨below, block, htip, hunwound, hreach⟩
    · rw [htip, hreach]
      exact ⟨c, .refl c, rfl⟩
    · obtain ⟨c', hrest, hmany⟩ := ih below (done + 1)
      have hobstacle : below.obstacle = c.obstacle := by
        unfold obstacle
        rw [hunwound.refuses]
      rw [htip, hreach, Nat.add_comm (below.reach blocks) 1]
      refine ⟨c', hunwound.trans hrest, ?_⟩
      dsimp only
      rw [hmany, hobstacle, Nat.add_assoc, Nat.add_comm blocks 1]
      simp only [Nat.add_left_cancel_iff]

end Chain

/-! ## A rollback -/

namespace Rollback

/-- 300 seconds for each block ago, kept within 64 bits. -/
theorem reconsiderSince_eq (now : Int) (blocks : Nat) :
    reconsiderSince now blocks = max (now - min (300 * blocks) (2 ^ 63 - 1 : Nat)) (-(2 ^ 63 : Nat)) := by
  unfold reconsiderSince secondsPerBlock
  omega

/-- The other failures are those before the time. -/
theorem resetFailedSince_eq (c : Chain) (since : Int) :
    c.resetFailedSince since = ({ c with
      failed := c.failed.filter fun failure => decide (failure.2 < since)
      reconsidered := c.reconsidered ++ (c.failed.filter fun failure => decide (since ≤ failure.2)).map Prod.fst },
      (c.failed.filter fun failure => decide (since ≤ failure.2)).length) := by
  unfold Chain.resetFailedSince
  simp only [Int.not_le]

/-- A rollback takes back the failures, goes as far as the chain reaches, and activates the chain in any case. If it
    stopped early, it fills the pool anew before. -/
theorem run_eq {c c' : Chain} {blocks reset : Nat} {now : Int}
    (hreset : c.resetFailedSince (reconsiderSince now blocks) = (c', reset)) :
    ∃ below, Chain.Unwound c' below (c'.reach blocks) ∧ run c blocks now =
      if c'.reach blocks = blocks then (below.activateBest, .ok ⟨reset, blocks⟩)
      else ({ below.activateBest with resyncs := below.resyncs + 1 }, .error (.rollback c'.obstacle.message)) := by
  obtain ⟨below, hunwound, hmany⟩ := c'.disconnectMany_eq blocks 0
  refine ⟨below, hunwound, ?_⟩
  unfold run
  rw [hreset]
  dsimp only
  rw [hmany, Nat.zero_add]
  by_cases hall : c'.reach blocks = blocks
  · rw [if_pos hall, if_pos hall, hall]
  · rw [if_neg hall, if_neg hall]
    rfl

/-- What is failed or taken back is what was failed. -/
theorem perm_of_partition (failed : List (Block × Int)) (since : Int) :
    ((failed.filter fun failure => decide (since ≤ failure.2)) ++
      failed.filter fun failure => decide (failure.2 < since)).Perm failed := by
  have hstill : (fun failure : Block × Int => decide (failure.2 < since)) =
      fun failure => !decide (since ≤ failure.2) := by
    funext failure
    rw [← decide_not, decide_eq_decide, Int.not_le]
  rw [hstill]
  exact List.filter_append_perm _ failed

/-- For every chain, depth and time: a rollback takes back the failures since 300 seconds for each block ago, a time
    that is kept within 64 bits, and no others. The blocks are then the old ones, those detached or reconsidered before,
    and the ones whose failures are taken back, all in their order; none is detached or reconsidered any more, and every
    block is active or failed as often as it was anywhere before. Of the rest only the counts change: the disconnected
    blocks are as many as asked for, or all but the first, or none where disconnecting is refused, and the pool is
    filled anew once if they are fewer than asked for. Exactly then the result is an error. -/
theorem rollbacks_put_every_block_back (c : Chain) (blocks : Nat) (now : Int) :
    let since : Int := max (now - min (300 * blocks) (2 ^ 63 - 1 : Nat)) (-(2 ^ 63 : Nat))
    let reset := c.failed.filter fun failure => decide (since ≤ failure.2)
    let still := c.failed.filter fun failure => decide (failure.2 < since)
    let reached := if c.refusesDisconnect then 0 else min blocks (c.blocks.size - 1)
    let after := (run c blocks now).1
    after = { c with
      blocks := c.blocks ++ c.detached.toArray ++ c.reconsidered.toArray ++ (reset.map Prod.fst).toArray
      failed := still
      detached := []
      reconsidered := []
      disconnects := c.disconnects + reached
      activations := c.activations + 1
      resyncs := c.resyncs + if reached = blocks then 0 else 1 } ∧
    (after.blocks.toList ++ after.failed.map Prod.fst).Perm
      (c.blocks.toList ++ c.detached ++ c.reconsidered ++ c.failed.map Prod.fst) ∧
    (run c blocks now).2 =
      if reached = blocks then .ok ⟨reset.length, blocks⟩
      else .error (.rollback (if c.refusesDisconnect then "disconnect refused" else "cannot disconnect genesis")) := by
  intro since reset still reached after
  let begun : Chain := { c with failed := still, reconsidered := c.reconsidered ++ reset.map Prod.fst }
  have hreset : c.resetFailedSince (reconsiderSince now blocks) = (begun, reset.length) := by
    rw [reconsiderSince_eq, resetFailedSince_eq]
  obtain ⟨below, hunwound, hrun⟩ := run_eq hreset
  have hreach : begun.reach blocks = reached := rfl
  have hobstacle : begun.obstacle.message =
      if c.refusesDisconnect then "disconnect refused" else "cannot disconnect genesis" :=
    apply_ite DisconnectError.message _ _ _
  have hresyncs : below.resyncs = c.resyncs := by rw [hunwound.rest]
  have hblocks : begun.blocks ++ begun.detached.toArray ++ begun.reconsidered.toArray =
      c.blocks ++ c.detached.toArray ++ c.reconsidered.toArray ++ (reset.map Prod.fst).toArray := by
    simp [begun]
  rw [hunwound.activateBest, hblocks, hreach, hobstacle, hresyncs] at hrun
  have hactive : after.blocks =
      c.blocks ++ c.detached.toArray ++ c.reconsidered.toArray ++ (reset.map Prod.fst).toArray := by
    simp only [after, hrun]
    split <;> rfl
  have hfailed : after.failed = still := by
    simp only [after, hrun]
    split <;> rfl
  refine ⟨?_, ?_, ?_⟩
  · simp only [after, hrun]
    split <;> rfl
  · rw [hactive, hfailed]
    simp only [Array.toList_append, List.append_assoc, ← List.map_append]
    refine .append_left _ (.append_left _ (.append_left _ (.map Prod.fst ?_)))
    exact perm_of_partition c.failed since
  · rw [hrun]
    split <;> rfl

end Rollback
end NodeQuorum
