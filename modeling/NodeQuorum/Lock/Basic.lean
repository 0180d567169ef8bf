/-
  NodeQuorum.Lock.Basic — ballots on locking the inputs of a transaction before it is mined.

  A ballot is opened by a request or by a vote. Its height is zero until the request is known, and
  only votes for its height count. Six votes complete it. Two transactions that lock the same output
  cancel each other.
-/

import NodeQuorum.Chain.Basic
import NodeQuorum.Mempool
import NodeQuorum.Message.Basic

namespace NodeQuorum

/-- The votes that complete a lock. -/
def lockVotesRequired : Nat := 6

/-- The ballot on one transaction. -/
structure Lock where
  txid : Hash
  /-- The height at which voters are ranked, zero while the request is unknown. -/
  height : Nat
  votes : List LockVote
  expiration : Int
  timeout : Int
  completed : Bool
  deriving DecidableEq, Repr

namespace Lock

/-- A lock is dropped so many seconds after its ballot was opened. -/
def expirationSeconds : Int := 60 * 24

/-- A lock that is not complete so many seconds after its ballot was opened has timed out. -/
def timeoutSeconds : Int := 60 * 5

def create (txid : Hash) (height : Nat) (now : Int) : Lock :=
  ⟨txid, height, [], now + expirationSeconds, now + timeoutSeconds, false⟩

/-- The votes for the lock's own height. -/
def signatures (l : Lock) : Nat := if l.height = 0 then 0 else l.votes.countP fun v => v.height = l.height

def isComplete (l : Lock) : Bool := lockVotesRequired ≤ l.signatures

end Lock

/-- Every ballot with its request, its votes and the outputs it locks. -/
structure Locks where
  requests : Table Hash Transaction
  /-- Requested transactions that the pool refused. -/
  rejected : Table Hash Transaction
  ballots : Table Hash Lock
  votes : Table Hash LockVote
  /-- Locked outputs and the transactions that hold them. -/
  inputs : Table OutPoint Hash
  /-- By the hash of a voter's collateral: when its next vote without a request is allowed. -/
  unknownVotes : Table Hash Int
  completed : Nat
  /-- The depth of a rollback that is asked for. -/
  rollback : Option Nat

namespace Locks

/-- Transactions with more confirmations are no longer locked. -/
def maxTransactionAge : Nat := 24

/-- The depth of a rollback that a lock asks for. -/
def rollbackBlocks : Nat := 15

def empty : Locks := ⟨∅, ∅, ∅, ∅, ∅, ∅, 0, none⟩

/-- Whether the request of a transaction is known. -/
def isRequested (s : Locks) (txid : Hash) : Bool := s.requests.contains txid || s.rejected.contains txid

/-- The transaction of a request, taken or refused by the pool. -/
def requested? (s : Locks) (txid : Hash) : Option Transaction :=
  match s.requests[txid]? with
  | some tx => some tx
  | none => s.rejected[txid]?

def signatures? (s : Locks) (txid : Hash) : Option Nat := s.ballots[txid]?.map Lock.signatures

def isTimedOut (s : Locks) (txid : Hash) (now : Int) : Bool :=
  match s.ballots[txid]? with
  | some l => l.timeout < now
  | none => false

def isLocked (s : Locks) (o : OutPoint) : Bool := s.inputs.contains o

/-- Asks for a rollback of at least so many blocks. -/
def askRollback (s : Locks) (blocks : Nat) : Locks :=
  { s with rollback := some (match s.rollback with | some pending => max pending blocks | none => blocks) }

/-- Takes the rollback that is asked for. -/
def takeRollback (s : Locks) : Locks × Option Nat := ({ s with rollback := none }, s.rollback)

/-- Locks outputs that nobody holds. -/
def hold (s : Locks) (txid : Hash) (outputs : List OutPoint) : Locks :=
  { s with inputs := outputs.foldl (fun t o => t.insertIfNew o txid) s.inputs }

/-- Lets a ballot expire. -/
def expire (s : Locks) (txid : Hash) (now : Int) : Locks :=
  { s with ballots := s.ballots.modify txid fun l => { l with expiration := now } }

/-- Another transaction that holds one of the outputs a transaction spends. -/
def rival? (s : Locks) (tx : Transaction) : Option Hash :=
  (tx.spends.filterMap fun o => s.inputs[o]?).find? fun holder => holder ≠ tx.txid

/-- Cancels two locks if another transaction holds an output that this one spends, and names both. -/
def cancelConflict (s : Locks) (tx : Transaction) (now : Int) : Locks × Option (Hash × Hash) :=
  match s.rival? tx with
  | none => (s, none)
  | some other =>
    let s := (s.expire tx.txid now).expire other now
    let s := { s with inputs := s.inputs.filter fun _ holder => holder ≠ tx.txid ∧ holder ≠ other }
    (s.askRollback rollbackBlocks, some (tx.txid, other))

/-! ## The sweep -/

/-- Drops a ballot with its request, its votes and the outputs it holds. -/
def drop (s : Locks) (txid : Hash) : Locks :=
  let outputs := match s.requested? txid with
    | some tx => tx.spends
    | none => []
  let votes := match s.ballots[txid]? with
    | some l => l.votes
    | none => []
  { s with
    requests := s.requests.erase txid
    rejected := s.rejected.erase txid
    inputs := outputs.foldl (fun t o => if t[o]? = some txid then t.erase o else t) s.inputs
    ballots := s.ballots.erase txid
    votes := votes.foldl (fun t v => t.erase v.hash) s.votes }

/-- Drops the ballots that have expired, and the votes without a ballot or for an old transaction. -/
def sweep (s : Locks) (c : Chain) (now : Int) : Locks × Nat :=
  let expired := (s.ballots.values.filter fun l => l.expiration < now).map Lock.txid
  let s := expired.foldl drop s
  ({ s with
      votes := s.votes.filter fun _ v => s.ballots.contains v.txid && decide (c.transactionAge v.txid ≤ maxTransactionAge) },
   expired.length)

/-- Announces every known vote. -/
def announceVotes (s : Locks) : List Outbound := s.votes.keys.map fun hash => .relay ⟨.lockVote, hash⟩

/-- Forgets all but the number of completed locks and a rollback that is asked for. -/
def clear (s : Locks) : Locks := { empty with completed := s.completed, rollback := s.rollback }

/-- The state in one line. -/
def summary (s : Locks) : String :=
  "Transaction lock requests: " ++ toString s.requests.size ++ ", Transaction locks: " ++ toString s.ballots.size ++
    ", Locked Inputs: " ++ toString s.inputs.size ++ ", Transaction lock votes: " ++ toString s.votes.size

end Locks
end NodeQuorum
