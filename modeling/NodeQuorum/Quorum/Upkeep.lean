/-
  NodeQuorum.Quorum.Upkeep — what a node does as time passes, without a message.

  A pass moves the synchronisations on, drops what is old, and lets the local node ping. Asking a peer
  for the lists goes by the stage of each class.
-/

import NodeQuorum.Quorum.Basic

namespace NodeQuorum.Quorum

/-- What one pass dropped, and whether the local node pinged. -/
structure UpkeepReport where
  nodes : PerClass Nat
  votes : PerClass Nat
  locks : Nat
  pinged : Bool
  deriving DecidableEq, Repr

/-- Moves the synchronisation of a class on and drops its old nodes and votes; counts both. -/
def sweepClass (q : Quorum) (c : NodeClass) (now : Int) : Quorum × Nat × Nat :=
  let enforced := q.sporks.isActive (q.params.forClass c).enforcement now
  let q := q.setSync c ((q.syncs.get c).tick now q.chain.synced enforced)
  let (r, nodes) := (q.registries.get c).sweep q.chain now false (q.minPaymentProtocol c now)
  let q := q.setRegistry c r
  match q.chain.tip? with
  | none => (q, nodes.length, 0)
  | some tip =>
    let (p, votes) := (q.payments.get c).sweep tip r.entries.size
    (q.setPayments c p, nodes.length, votes.length)

/-- Looks after the local node. -/
def manageLocal (q : Quorum) (now : Int) : Quorum × List Outbound × Bool :=
  match q.localNode with
  | none => (q, [], false)
  | some n =>
    let m := n.manage (q.registries.get n.nodeClass) q.chain (q.isSynced n.nodeClass) now
    ({ q.setRegistry n.nodeClass m.registry with localNode := some m.node }, m.sent, m.ping.isSome)

/-- One pass. -/
def upkeep (q : Quorum) (now : Int) : Quorum × List Outbound × UpkeepReport :=
  let (q, masternodes, masternodeVotes) := q.sweepClass .masternode now
  let (q, systemnodes, systemnodeVotes) := q.sweepClass .systemnode now
  let (locks, dropped) := q.locks.sweep q.chain now
  let q := { q with locks, answered := q.answered.sweep now }
  let (q, sent, pinged) := q.manageLocal now
  (q, sent, ⟨⟨masternodes, systemnodes⟩, ⟨masternodeVotes, systemnodeVotes⟩, dropped, pinged⟩)

/-- So many passes at one moment. -/
def passes : Nat → Quorum → Int → Quorum
  | 0, q, _ => q
  | n + 1, q, now => passes n (q.upkeep now).1 now

/-- The passes of a run: one at its start and one after every full interval. -/
def passCount (runMillis intervalMillis : Nat) : Nat := runMillis / intervalMillis + 1

/-- Asks a peer for what the stage of a class needs. The sporks are asked for once for both classes, and
`asked` says whether they were. -/
def requestClass (q : Quorum) (peer : Peer) (c : NodeClass) (asked : Bool) (now : Int) : Quorum × List Outbound :=
  match (q.syncs.get c).stage with
  | .sporks => (q, if asked then [] else [.push peer.id .getSporks])
  | .list =>
    let (r, sent) := (q.registries.get c).requestList peer now q.params.isMainnet
    (q.setRegistry c r, sent)
  | .winners => (q, [.push peer.id (.getPaymentVotes c ((q.registries.get c).countEnabled 0))])
  | .initial | .finished | .failed => (q, [])

/-- Asks a peer for what both classes need. -/
def requestSync (q : Quorum) (peer : Peer) (now : Int) : Quorum × List Outbound :=
  let (q, first) := q.requestClass peer .masternode false now
  let (q, second) := q.requestClass peer .systemnode (first.contains (.push peer.id .getSporks)) now
  (q, first ++ second)

end NodeQuorum.Quorum
