/-
  NodeQuorum.Chain.Rollback — disconnecting recent blocks so that the chain finds its tip again.

  Recent failures are taken back first. If a block cannot be disconnected, the rollback stops there,
  the pool of transactions is filled anew, and the chain is still activated again.
-/

import NodeQuorum.Chain.Basic
import NodeQuorum.Reject

namespace NodeQuorum

/-- Why the tip was not disconnected. -/
inductive DisconnectError where
  | refused
  | genesis
  deriving DecidableEq, Repr

/-- The text of an error. -/
def DisconnectError.message : DisconnectError → String
  | .refused => "disconnect refused"
  | .genesis => "cannot disconnect genesis"

namespace Chain

/-- Takes back the failures since a time, and counts them. -/
def resetFailedSince (c : Chain) (since : Int) : Chain × Nat :=
  let reset := c.failed.filter fun (_, time) => since ≤ time
  ({ c with
      failed := c.failed.filter fun (_, time) => ¬ since ≤ time
      reconsidered := c.reconsidered ++ reset.map Prod.fst },
   reset.length)

/-- Takes the newest block off; the first block stays. -/
def disconnectTip (c : Chain) : Except DisconnectError (Chain × Block) :=
  if c.refusesDisconnect then .error .refused
  else if c.blocks.size ≤ 1 then .error .genesis
  else match c.blocks.back? with
    | none => .error .genesis
    | some block =>
      .ok ({ c with blocks := c.blocks.pop, detached := block :: c.detached, disconnects := c.disconnects + 1 }, block)

/-- Puts back the detached blocks and then the reconsidered ones. -/
def activateBest (c : Chain) : Chain :=
  { c with
    blocks := c.blocks ++ c.detached.toArray ++ c.reconsidered.toArray
    detached := []
    reconsidered := []
    activations := c.activations + 1 }

def resyncMempool (c : Chain) : Chain := { c with resyncs := c.resyncs + 1 }

/-- Disconnects blocks until there are no more to disconnect or one is refused. -/
def disconnectMany : (blocks : Nat) → Chain → (done : Nat) → Chain × Nat × Option DisconnectError
  | 0, c, done => (c, done, none)
  | blocks + 1, c, done =>
    match c.disconnectTip with
    | .ok (c, _) => disconnectMany blocks c (done + 1)
    | .error e => (c, done, some e)

end Chain

/-- What a rollback did. -/
structure RollbackReport where
  /-- How many failures were taken back. -/
  reset : Nat
  disconnected : Nat
  deriving DecidableEq, Repr

namespace Rollback

/-- The seconds for each block of a rollback in which failures are taken back. -/
def secondsPerBlock : Nat := 5 * 60

/-- The oldest failure that a rollback takes back, kept within 64 bits. -/
def reconsiderSince (now : Int) (blocks : Nat) : Int :=
  max (now - min (blocks * secondsPerBlock) (2 ^ 63 - 1 : Nat)) (-(2 ^ 63 : Nat))

/-- Rolls the chain back by a number of blocks and lets it find its tip. -/
def run (c : Chain) (blocks : Nat) (now : Int) : Chain × Except Failure RollbackReport :=
  let (c, reset) := c.resetFailedSince (reconsiderSince now blocks)
  match c.disconnectMany blocks 0 with
  | (c, disconnected, none) => (c.activateBest, .ok ⟨reset, disconnected⟩)
  | (c, _, some e) => (c.resyncMempool.activateBest, .error (.rollback e.message))

end Rollback
end NodeQuorum
