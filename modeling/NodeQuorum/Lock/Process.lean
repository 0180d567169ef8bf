/-
  NodeQuorum.Lock.Process — taking lock requests and lock votes.

  Voters are masternodes ranked among the first ten at the lock's height, which follows from the
  confirmations of the inputs. Votes may come before their request, but not faster than the voters'
  average. A completed lock holds its inputs; if the pool had refused its transaction, a rollback is
  asked for.
-/

import NodeQuorum.Lock.Basic
import NodeQuorum.Registry.Queue
import NodeQuorum.Registry.Request
import NodeQuorum.Spork.Store

namespace NodeQuorum

/-- What the handling of locks looks at beside its own state. -/
structure LockEnv where
  chain : Chain
  sporks : Sporks
  now : Int
  /-- The masternode that this node runs, and its key. -/
  voter : Option (OutPoint × KeyPair)

/-- The locks, the masternodes that vote on them, and the pool. -/
structure LockState where
  locks : Locks
  registry : Registry
  mempool : Mempool

namespace Locks

/-- The lowest protocol of a masternode that votes. -/
def minVoterProtocol : Nat := 70040

/-- The number of masternodes that vote on a lock. -/
def voters : Nat := 10

/-- The confirmations that every input of a request has. -/
def minInputConfirmations : Nat := 5

/-- The height of a lock is this much above the tip less the age of its inputs. -/
def heightOffset : Nat := 4

/-- The time between two votes of a voter whose requests are not known. -/
def unknownVoteWindow : Int := 60 * 10

/-! ## Requests -/

/-- The largest amount that can be locked. -/
def maxValue (sporks : Sporks) : Nat := min ((sporks.value .maxValue).toNat * coinUnits) (2 ^ 64 - 1)

/-- Whether a transaction can be locked as far as it can be seen from itself. -/
def isLockable (tx : Transaction) (sporks : Sporks) : Bool :=
  !tx.outputs.isEmpty && tx.lockTime = 0 && decide (tx.total ≤ maxValue sporks)

/-- The confirmations of the last of some outputs; none if one of them has too few. -/
def inputAge? (c : Chain) : (age : Nat) → List OutPoint → Option Nat
  | age, [] => some age
  | _, o :: rest =>
    let age := (c.confirmations? o).getD 0
    if age < minInputConfirmations then none else inputAge? c age rest

/-- The height at which the voters on a transaction are ranked. -/
def lockHeight? (c : Chain) (tx : Transaction) : Option Nat :=
  match inputAge? c 0 tx.spends, c.tip? with
  | some age, some tip => some (tip + heightOffset - age)
  | _, _ => none

/-- Opens the ballot on a transaction, or gives an open one its height, and keeps the request. -/
def openBallot (s : Locks) (tx : Transaction) (height : Nat) (now : Int) : Locks :=
  let lock := match s.ballots[tx.txid]? with
    | some l => { l with height := height }
    | none => Lock.create tx.txid height now
  { s with ballots := s.ballots.insert tx.txid lock, requests := s.requests.insert tx.txid tx }

/-- Adds a vote to a ballot. -/
def addVote (s : Locks) (v : LockVote) : Locks :=
  { s with ballots := s.ballots.modify v.txid fun l => { l with votes := l.votes ++ [v] } }

/-- Casts this node's own vote if it runs a masternode that is ranked high enough. -/
def castVote (s : LockState) (txid : Hash) (height : Nat) (env : LockEnv) : LockState × List Outbound :=
  match env.voter with
  | none => (s, [])
  | some (voter, key) =>
    let registry := s.registry.checkAll env.chain env.now false
    let s := { s with registry }
    match registry.rankOf? env.chain voter height minVoterProtocol with
    | none => (s, [])
    | some rank =>
      if voters < rank then (s, [])
      else
        let v := LockVote.create key voter txid height
        let locks := s.locks.addVote v
        ({ s with locks := { locks with votes := locks.votes.insert v.hash v } }, [.relay ⟨.lockVote, v.hash⟩])

/-- Cancels two conflicting locks and takes both transactions out of the pool. -/
def cancel (s : LockState) (tx : Transaction) (now : Int) : LockState × Option (Hash × Hash) :=
  match s.locks.cancelConflict tx now with
  | (locks, none) => ({ s with locks }, none)
  | (locks, some (ours, theirs)) =>
    ({ s with locks, mempool := (s.mempool.remove ours).remove theirs }, some (ours, theirs))

/-- What follows when the pool refuses a requested transaction: its inputs are held, and if its lock is
complete without a rival, a rollback is asked for. Names the locks that were cancelled. -/
def refuse (s : LockState) (tx : Transaction) (env : LockEnv) : LockState × Option (Hash × Hash) :=
  let locks := { s.locks with
    requests := s.locks.requests.erase tx.txid
    rejected := s.locks.rejected.insert tx.txid tx }
  let s := { s with locks := locks.hold tx.txid tx.spends }
  if (s.locks.ballots[tx.txid]?).any Lock.isComplete then
    match cancel s tx env.now with
    | (s, some pair) => (s, some pair)
    | (s, none) =>
      let locks := s.locks.askRollback rollbackBlocks
      ({ s with locks := { locks with requests := locks.requests.insert tx.txid tx } }, none)
  else (s, none)

/-- Whether locks are handled now. -/
def checkSwitch (env : LockEnv) : Except Reject Unit := do
  demand (env.sporks.isActive .instantX env.now) (.ignored "instantsend is disabled")
  demand env.chain.synced (.ignored "chain not synced")

/-- Whether a request can be taken, and the height of its lock. -/
def checkRequest (s : Locks) (tx : Transaction) (env : LockEnv) : Except Reject Nat := do
  let name := "lock request " ++ tx.txid.text
  checkSwitch env
  demand (¬ s.isRequested tx.txid) (.stale (name ++ " already seen"))
  demand (isLockable tx env.sporks) (.ignored (name ++ " is not lockable"))
  demand (env.chain.transactionAge tx.txid ≤ maxTransactionAge) (.ignored (name ++ " is too old"))
  match lockHeight? env.chain tx with
  | some height => .ok height
  | none => .error (.ignored (name ++ " spends young inputs"))

/-- Takes a request. -/
def processRequest (s : LockState) (tx : Transaction) (env : LockEnv) : Handled LockState :=
  match s.locks.checkRequest tx env with
  | .error e => ⟨s, [], .error e⟩
  | .ok height =>
    let s := { s with locks := s.locks.openBallot tx height env.now }
    match s.mempool.accept tx with
    | .error _ => ⟨(refuse s tx env).1, [], .ok .served⟩
    | .ok mempool =>
      let (s, sent) := castVote { s with mempool } tx.txid height env
      ⟨s, .relay ⟨.lockRequest, tx.txid⟩ :: sent, .ok .added⟩

/-! ## Votes -/

/-- The mean of the times at which voters may vote next. -/
def averageVoteTime (s : Locks) : Int :=
  if s.unknownVotes.isEmpty then 0 else Int.tdiv (s.unknownVotes.values.foldr (· + ·) 0) s.unknownVotes.size

/-- Whether a voter may vote without a request now; an allowed vote moves the time of the next one. -/
def allowUnknown (s : Locks) (voter : OutPoint) (now : Int) : Locks × Bool :=
  let s := { s with unknownVotes := s.unknownVotes.insertIfNew voter.txid (now + unknownVoteWindow) }
  let next := s.unknownVotes.getD voter.txid 0
  if now < next ∧ unknownVoteWindow < next - s.averageVoteTime then (s, false)
  else ({ s with unknownVotes := s.unknownVotes.insert voter.txid (now + unknownVoteWindow) }, true)

/-- Marks a ballot as completed; true the first time. -/
def markCompleted (s : Locks) (txid : Hash) : Locks × Bool :=
  match s.ballots[txid]? with
  | some l =>
    if l.completed then (s, false)
    else
      ({ s with ballots := s.ballots.insert txid { l with completed := true }, completed := s.completed + 1 }, true)
  | none => (s, false)

/-- What follows when a ballot has its votes. -/
def complete (s : LockState) (txid : Hash) (env : LockEnv) : LockState × Verdict :=
  let (locks, first) := s.locks.markCompleted txid
  let s := { s with locks }
  let finish := fun (s : LockState) =>
    let s := if s.locks.rejected.contains txid then { s with locks := s.locks.askRollback rollbackBlocks } else s
    (s, (.ok (if first then .quorumReached else .updated) : Verdict))
  match s.locks.requested? txid with
  | none => finish s
  | some tx =>
    match cancel s tx env.now with
    | (s, some (ours, theirs)) => (s, .error (.conflict ours theirs))
    | (s, none) =>
      if s.locks.requests.contains txid then finish { s with locks := s.locks.hold txid tx.spends } else finish s

/-- Whether a vote is signed with the registered key of its voter. -/
def isSigned (r : Registry) (v : LockVote) : Bool :=
  match r.find? v.voter with
  | some e => decide (e.operatorKey.Signed v.signature (LockVote.signedText v.txid v.height))
  | none => false

/-- Whether a rank entitles to a vote and the vote is signed. -/
def checkVoter (r : Registry) (v : LockVote) (rank : Option Nat) : Except Reject Unit :=
  match rank with
  | none => .error (.unknownSigner v.voter)
  | some rank =>
    if voters < rank then
      .error (.ignored (v.voter.text ++ " not in the top " ++ toString voters ++ " (" ++ toString rank ++ ")"))
    else if isSigned r v then .ok ()
    else .error (.badSignature ("lock vote from " ++ v.voter.text) 0)

/-- Whether a refusal calls for asking after the voter. -/
def asksForVoter : Reject → Bool
  | .unknownSigner _ | .badSignature .. => true
  | _ => false

/-- Counts a vote of an entitled voter in its ballot. -/
def count (s : LockState) (v : LockVote) (env : LockEnv) : LockState × Verdict :=
  let ballots := s.locks.ballots.insertIfNew v.txid (Lock.create v.txid 0 env.now)
  let s := { s with locks := { s.locks with ballots }.addVote v }
  if lockVotesRequired ≤ (s.locks.signatures? v.txid).getD 0 then complete s v.txid env else (s, .ok .added)

/-- Whether a vote is looked at. -/
def checkVote (s : Locks) (v : LockVote) (env : LockEnv) : Except Reject Unit := do
  checkSwitch env
  demand (¬ s.votes.contains v.hash) (.stale ("lock vote " ++ v.hash.text ++ " already seen"))
  demand (env.chain.transactionAge v.txid ≤ maxTransactionAge)
    (.ignored ("transaction " ++ v.txid.text ++ " is too old to lock"))

/-- Announces a counted vote, unless its voter votes too fast on requests that are not known. -/
def announce (s : LockState) (v : LockVote) (verdict : Verdict) (env : LockEnv) : Handled LockState :=
  let relay := [Outbound.relay ⟨.lockVote, v.hash⟩]
  if s.locks.isRequested v.txid then ⟨s, relay, verdict⟩
  else match s.locks.allowUnknown v.voter env.now with
    | (locks, true) => ⟨{ s with locks }, relay, verdict⟩
    | (locks, false) =>
      ⟨{ s with locks }, [], .error (.ignored (v.voter.text ++ " exceeds the unknown vote rate"))⟩

/-- Takes a vote. It is remembered as soon as it is looked at; a conflict still leaves it counted. -/
def processVote (s : LockState) (peer : PeerId) (v : LockVote) (env : LockEnv) : Handled LockState :=
  match s.locks.checkVote v env with
  | .error e => ⟨s, [], .error e⟩
  | .ok () =>
    let registry := s.registry.checkAll env.chain env.now false
    let s := { s with registry, locks := { s.locks with votes := s.locks.votes.insert v.hash v } }
    match checkVoter registry v (registry.rankOf? env.chain v.voter v.height minVoterProtocol) with
    | .error e =>
      if asksForVoter e then
        let (registry, sent) := s.registry.askForEntry peer v.voter env.now
        ⟨{ s with registry }, sent, .error e⟩
      else ⟨s, [], .error e⟩
    | .ok () =>
      let (s, verdict) := count s v env
      announce s v verdict env

end Locks
end NodeQuorum
