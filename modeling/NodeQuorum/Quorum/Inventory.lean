/-
  NodeQuorum.Quorum.Inventory — the objects a node has and serves.
-/

import NodeQuorum.Quorum.Basic

namespace NodeQuorum.Quorum

/-- Whether an announced object is known. A lock request that the pool refused is known too. -/
def has (q : Quorum) (i : Inventory) : Bool :=
  match i.kind with
  | .lockRequest => q.locks.isRequested i.hash
  | .lockVote => q.locks.votes.contains i.hash
  | .spork => q.sporks.byHash.contains i.hash
  | .paymentVote c => (q.payments.get c).votes.contains i.hash
  | .announcement c => (q.registries.get c).seenAnnouncements.contains i.hash
  | .ping c => (q.registries.get c).seenPings.contains i.hash

/-- The message that carries an announced object. -/
def object? (q : Quorum) (i : Inventory) : Option Message :=
  match i.kind with
  | .lockRequest => q.locks.requests[i.hash]?.map .lockRequest
  | .lockVote => q.locks.votes[i.hash]?.map .lockVote
  | .spork => q.sporks.byHash[i.hash]?.map .spork
  | .paymentVote c => (q.payments.get c).votes[i.hash]?.map (.paymentVote c)
  | .announcement c => (q.registries.get c).seenAnnouncements[i.hash]?.map (.announcement c)
  | .ping c => (q.registries.get c).seenPings[i.hash]?.map (.ping c)

/-- Sends an announced object to a peer, if it is there. -/
def serve (q : Quorum) (peer : PeerId) (i : Inventory) : List Outbound :=
  match q.object? i with
  | some m => [.push peer m]
  | none => []

end NodeQuorum.Quorum
