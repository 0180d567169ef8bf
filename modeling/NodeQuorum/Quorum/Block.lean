/-
  NodeQuorum.Quorum.Block — what a node does for blocks: its own votes for coming payees, the payments
  of a coinbase, and the check of one.
-/

import NodeQuorum.Quorum.Basic

namespace NodeQuorum.Quorum

/-- On a new tip votes are cast for the block so far ahead. -/
def ownVoteOffset : Nat := 10

/-- Casts the local node's vote of one class for a height. -/
def castVote (q : Quorum) (c : NodeClass) (height : Nat) (now : Int) : Quorum × List Outbound × Option PaymentVote :=
  if ¬ q.isSynced c then (q, [], none)
  else match q.voter? c with
    | none => (q, [], none)
    | some (voter, operator) =>
      let cast := (q.payments.get c).castVote (q.registries.get c) voter operator height (q.paymentEnv c now)
      ((q.setPayments c cast.state.payments).setRegistry c cast.state.registry, cast.sent, cast.vote)

/-- Casts the local node's vote for a block past a new tip. -/
def newTip (q : Quorum) (height : Nat) (now : Int) : Quorum × List Outbound × List PaymentVote :=
  NodeClass.all.foldl (fun (q, sent, votes) c =>
    let (q, more, vote) := q.castVote c (height + ownVoteOffset) now
    (q, sent ++ more, votes ++ vote.toList)) (q, [], [])

/-- Casts a vote as `castVote` does, unless the program stops there. -/
def castVote? (q : Quorum) (c : NodeClass) (height : Nat) (now : Int) :
    Option (Quorum × List Outbound × Option PaymentVote) :=
  let cast := q.castVote c height now
  if (q.payments.get c).stopsAtOwn q.params cast.2.2 then none else some cast

/-- Casts votes as `newTip` does, unless the program stops at one of them. -/
def newTip? (q : Quorum) (height : Nat) (now : Int) : Option (Quorum × List Outbound × List PaymentVote) :=
  NodeClass.all.foldlM (fun (q, sent, votes) c =>
    (q.castVote? c (height + ownVoteOffset) now).map fun (q, more, vote) => (q, sent ++ more, votes ++ vote.toList))
    (q, [], [])

/-- Writes the payment of a class into a coinbase, and names the payee. -/
def fill (q : Quorum) (c : NodeClass) (tx : Transaction) (height : Nat) (value : UInt64) (now : Int) :
    Quorum × Transaction × Option Script :=
  let (r, tx, payee) := (q.payments.get c).fill (q.registries.get c) tx height value (q.paymentEnv c now)
  (q.setRegistry c r, tx, payee)

/-- Whether a block may stand as far as the payments of both classes go; none if the program stops. The second class is
looked at only if the first one lets the block stand. -/
def isBlockValid? (q : Quorum) (overflow : Overflow) (tx : Transaction) (height : Nat) (value : UInt64)
    (times : Payments.BlockTimes) (now : Int) : Option Bool :=
  NodeClass.all.allM fun c => (q.payments.get c).isBlockValid? overflow tx height value times (q.paymentEnv c now)

end NodeQuorum.Quorum
