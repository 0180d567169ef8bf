/-
  NodeQuorum.Quorum.Basic — the whole state of a node's quorum layer.

  Each class has its registry, its payment votes and its synchronisation. Sporks, locks, the chain,
  the pool and the budget belong to both.
-/

import NodeQuorum.Chain.Rollback
import NodeQuorum.LocalNode
import NodeQuorum.Lock.Process
import NodeQuorum.Payment.Block
import NodeQuorum.Registry.Announce
import NodeQuorum.Sync.Answered
import NodeQuorum.Sync.Tracker

namespace NodeQuorum

/-- The state of the quorum layer. -/
structure Quorum where
  params : NetworkParams
  sporks : Sporks
  registries : PerClass Registry
  payments : PerClass Payments
  syncs : PerClass SyncTracker
  locks : Locks
  answered : AnsweredRequests
  localNode : Option LocalNode
  chain : Chain
  mempool : Mempool
  budget : Budget

namespace Quorum

/-- A quorum layer that knows nothing but its chain. -/
def start (params : NetworkParams) (chain : Chain) (now : Int) : Quorum where
  params
  sporks := .empty params.sporkKey
  registries := ⟨.empty params.masternode, .empty params.systemnode⟩
  payments := ⟨.empty params.masternode, .empty params.systemnode⟩
  syncs := ⟨.start now, .start now⟩
  locks := .empty
  answered := ∅
  localNode := none
  chain
  mempool := .empty
  budget := .empty

def setRegistry (q : Quorum) (c : NodeClass) (r : Registry) : Quorum := { q with registries := q.registries.set c r }

def setPayments (q : Quorum) (c : NodeClass) (p : Payments) : Quorum := { q with payments := q.payments.set c p }

def setSync (q : Quorum) (c : NodeClass) (t : SyncTracker) : Quorum := { q with syncs := q.syncs.set c t }

/-- Whether the chain and the lists of a class are synchronised. -/
def isSynced (q : Quorum) (c : NodeClass) : Bool := q.chain.synced && (q.syncs.get c).isFinished

/-- The lowest protocol of a node that is paid. -/
def minPaymentProtocol (q : Quorum) (c : NodeClass) (now : Int) : Nat :=
  (q.params.forClass c).minPaymentProtocol q.sporks now

/-- The collateral and key of the local node if it is started and belongs to a class. -/
def voter? (q : Quorum) (c : NodeClass) : Option (OutPoint × KeyPair) :=
  match q.localNode with
  | some n => if n.nodeClass = c then n.voter? else none
  | none => none

def announceEnv (q : Quorum) (c : NodeClass) (now : Int) : AnnounceEnv :=
  ⟨q.chain, q.params, now, q.minPaymentProtocol c now⟩

def paymentEnv (q : Quorum) (c : NodeClass) (now : Int) : PaymentEnv :=
  ⟨q.chain, q.budget, q.params, q.sporks, now, q.isSynced c⟩

def lockEnv (q : Quorum) (now : Int) : LockEnv := ⟨q.chain, q.sporks, now, q.voter? .masternode⟩

/-- Runs this process as a node of a class. -/
def setLocalNode (q : Quorum) (c : NodeClass) (operator : KeyPair) : Quorum :=
  { q with localNode := some (.create c operator) }

/-- Takes the network's secret. -/
def setSporkSigner (q : Quorum) (pair : KeyPair) : Except Failure Quorum :=
  match q.sporks.setSigner pair with
  | .ok sporks => .ok { q with sporks }
  | .error e => .error e

/-- Signs, stores and announces a new value of a setting. -/
def updateSpork (q : Quorum) (spork : SporkId) (value now : Int) :
    Except Failure (Quorum × SporkRecord × List Outbound) :=
  match q.sporks.update spork value now with
  | .ok (sporks, record) => .ok ({ q with sporks }, record, [.relay ⟨.spork, record.hash⟩])
  | .error e => .error e

/-- The enabled nodes of a class, best score at a height first. -/
def ranked (q : Quorum) (c : NodeClass) (height : Nat) (now : Int) : Quorum × List OutPoint :=
  let r := (q.registries.get c).checkAll q.chain now false
  (q.setRegistry c r, (r.ranked q.chain height 0).map Scored.outpoint)

/-- Rolls the chain back and lets it find its tip again. -/
def rollback (q : Quorum) (blocks : Nat) (now : Int) : Quorum × Except Failure RollbackReport :=
  let (chain, result) := Rollback.run q.chain blocks now
  ({ q with chain }, result)

end Quorum
end NodeQuorum
