/-
  NodeQuorum.Payment.Votes — the payment votes of one class and the ballots they make up.

  A vote is stored under its hash and counted in the ballot of its height. Of each voter only the
  height voted for last is remembered. Old votes are dropped together with the ballots of their
  heights.
-/

import NodeQuorum.Payment.Ballot
import NodeQuorum.Registry.Queue
import NodeQuorum.Spork.Store

namespace NodeQuorum

/-- The votes and ballots of one class. -/
structure Payments where
  params : ClassParams
  votes : Table Hash PaymentVote
  ballots : Table Nat Ballot
  /-- The height that a voter voted for last. -/
  lastVote : Table OutPoint Nat
  lastOwnHeight : Nat

/-- The lowest protocol of a node that is paid. -/
def ClassParams.minPaymentProtocol (p : ClassParams) (sporks : Sporks) (now : Int) : Nat :=
  if sporks.isActive p.dontPayOld now then 70058 else 70057

namespace Payments

/-- How far ahead of the tip votes are taken. -/
def lookahead : Nat := 20

/-- A node voted for in one of so many blocks is not paid again. -/
def scheduledWindow : Nat := 8

/-- Votes of so many blocks are kept at least. -/
def minRetention : Nat := 1000

/-- The votes that show that a node was paid. -/
def lastPaidVotes : Nat := 2

/-- Nodes never paid count as unpaid for a month and a little more. -/
def neverPaidSeconds : Int := 30 * 24 * 60 * 60

def neverPaidSpread : Nat := 150

def empty (params : ClassParams) : Payments := ⟨params, ∅, ∅, ∅, 0⟩

def nodeClass (p : Payments) : NodeClass := p.params.nodeClass

/-- Five quarters of a count of nodes, rounded down: the blocks in which each is paid once or more. -/
def cycle (nodes : Nat) : Nat := nodes * 5 / 4

/-- Notes that a voter votes for a height; false if that is the height voted for last. -/
def canVote (p : Payments) (voter : OutPoint) (height : Nat) : Payments × Bool :=
  if p.lastVote[voter]? = some height then (p, false)
  else ({ p with lastVote := p.lastVote.insert voter height }, true)

/-- Stores and counts a vote; none if it is known or its rank cannot be told. -/
def addVote (p : Payments) (c : Chain) (v : PaymentVote) (weight : Nat) : Option Payments :=
  match Ranking.seenHash c (v.height - paymentRankOffset) with
  | .error _ => none
  | .ok _ =>
    if p.votes.contains v.hash then none
    else
      let ballot := p.ballots.getD v.height (.empty v.height)
      some { p with
        votes := p.votes.insert v.hash v
        ballots := p.ballots.insert v.height (ballot.add v.payee weight) }

/-- The votes for a script at a height. -/
def votesFor (p : Payments) (height : Nat) (script : Script) : Nat :=
  match p.ballots[height]? with
  | some b => b.votesFor script
  | none => 0

/-- Whether counting a vote makes the count of its payee run over. -/
def overruns (p : Payments) (v : PaymentVote) (weight : Nat) : Bool :=
  (p.ballots.getD v.height (.empty v.height)).overruns v.payee weight

/-- The payee with the most votes for a height. -/
def payee? (p : Payments) (height : Nat) : Option Script :=
  match p.ballots[height]? with
  | some b => b.winner?.map Payee.script
  | none => none

/-- Whether a script leads the ballot of a block from the tip on, other than `notHeight`. -/
def isScheduled (p : Payments) (script : Script) (tip notHeight : Nat) : Bool :=
  (List.range (scheduledWindow + 1)).any fun i => tip + i != notHeight && p.payee? (tip + i) == some script

/-- Whether a coinbase honours the ballot of its height. -/
def isTransactionValid (p : Payments) (tx : Transaction) (height : Nat) (value : UInt64) (posStartHeight : Nat) :
    Bool :=
  match p.ballots[height]? with
  | some b => b.isSatisfied tx (p.params.payment value) p.params.slot (decide (posStartHeight ≤ height))
  | none => true

def requiredText (p : Payments) (height : Nat) : String :=
  match p.ballots[height]? with
  | some b => b.text
  | none => "Unknown"

/-! ## When a node was paid last -/

/-- A number of the node's own below `neverPaidSpread`. -/
def spread (e : NodeEntry) : Nat :=
  Bytes.toNatLE ((blake3 (e.outpoint.toBytes ++ Bytes.ofIntLE 8 e.sigTime)).toBytes.take 8) % neverPaidSpread

/-- The newest of so many heights, from `height` down to one, whose ballot shows that a script was
paid. -/
def paidHeight? (p : Payments) (script : Script) : (depth height : Nat) → Option Nat
  | 0, _ => none
  | _ + 1, 0 => none
  | depth + 1, height + 1 =>
    match p.ballots[height + 1]? with
    | some b => if b.hasPayee script lastPaidVotes then some (height + 1) else p.paidHeight? script depth height
    | none => p.paidHeight? script depth height

/-- The time at which a node was paid last, and a little more; zero if no ballot shows it. -/
def lastPaid (p : Payments) (c : Chain) (e : NodeEntry) (enabled : Nat) : Int :=
  match c.tip? with
  | none => 0
  | some tip =>
    match p.paidHeight? e.payee (cycle enabled) tip with
    | some height => (c.timeAt? height).getD 0 + spread e
    | none => 0

/-- The seconds since a node was paid, a month and a little more if that is long ago. -/
def secondsSincePayment (p : Payments) (c : Chain) (e : NodeEntry) (enabled : Nat) (now : Int) : Int :=
  let seconds := now - p.lastPaid c e enabled
  if seconds < neverPaidSeconds then seconds else neverPaidSeconds + spread e

/-! ## Upkeep -/

/-- Sends every vote for recent and coming blocks, and then their number. -/
def sync (p : Payments) (peer : PeerId) (needed tip enabled : Nat) : List Outbound :=
  let low := tip - min needed (cycle enabled)
  let high := tip + lookahead
  let votes := p.votes.values.filter fun v => low ≤ v.height ∧ v.height ≤ high
  votes.map (fun v => .push peer (.paymentVote p.nodeClass v)) ++
    [.push peer (.syncCount p.nodeClass .winners votes.length)]

/-- Drops the votes that are too old, with the ballots of their heights, and names the dropped. -/
def sweep (p : Payments) (tip registrySize : Nat) : Payments × List Hash :=
  let limit := max (cycle registrySize) minRetention
  let old := p.votes.filter fun _ v => limit < tip - v.height
  let heights := old.values.map PaymentVote.height
  ({ p with
      votes := p.votes.filter fun _ v => ¬ limit < tip - v.height
      ballots := p.ballots.filter fun height _ => height ∉ heights },
   old.keys)

def oldest? (p : Payments) : Option Nat := p.ballots.minKey?

def newest? (p : Payments) : Option Nat := p.ballots.maxKey?

/-- Forgets everything but the height of this node's own last vote. -/
def clear (p : Payments) : Payments := { p with votes := ∅, ballots := ∅, lastVote := ∅ }

/-- The state in one line. -/
def summary (p : Payments) : String :=
  p.nodeClass.name ++ " votes: " ++ toString p.votes.size ++ ", blocks: " ++ toString p.ballots.size

end Payments
end NodeQuorum
