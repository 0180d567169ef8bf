/-
  NodeQuorum.Registry.Queue — who ranks how high, and whose turn it is to be paid.

  Ranks are given to enabled nodes. The queue holds enabled nodes that are not about to be paid, whose
  collateral is at least as old as the network is large, and that were announced long enough ago
  (unless too few would be left). Of the tenth of the network that waited longest, the one with the
  best score is paid.
-/

import NodeQuorum.Ranking
import NodeQuorum.Registry.Basic

namespace NodeQuorum

/-- Votes for the payee of a block are ranked this far below it. -/
def paymentRankOffset : Nat := 100

namespace Registry

/-- The enabled nodes at `minProtocol` or above, best score first. -/
def ranked (r : Registry) (c : Chain) (height minProtocol : Nat) : List Scored :=
  Ranking.rank c ((r.list.filter fun e => e.isEnabled && decide (minProtocol ≤ e.protocol)).map NodeEntry.outpoint)
    r.params.minConfirmations height

/-- The place of a node in the ranking, counted from one. -/
def rankOf? (r : Registry) (c : Chain) (o : OutPoint) (height minProtocol : Nat) : Option Nat :=
  ((r.ranked c height minProtocol).findIdx? fun s => s.outpoint = o).map (· + 1)

/-- The node with the best score. -/
def currentWinner? (r : Registry) (c : Chain) (height minProtocol : Nat) : Option NodeEntry :=
  match r.ranked c height minProtocol with
  | [] => none
  | best :: _ => r.find? best.outpoint

/-- A node of the queue, and how long it has waited. -/
structure Waiting where
  seconds : Int
  outpoint : OutPoint
  deriving DecidableEq, Repr

/-- The longer wait goes first, then the smaller outpoint; a node goes before itself. -/
def Waiting.before (a b : Waiting) : Bool :=
  b.seconds < a.seconds || (a.seconds = b.seconds && (compare a.outpoint b.outpoint).isLE)

/-- Who decides on the queue: whether a node is about to be paid, and how long ago it was paid. -/
structure QueueRules where
  isScheduled : NodeEntry → Bool
  secondsSincePaid : NodeEntry → Int

/-- Whether a node may be paid now in a network of `size` nodes. -/
def isEligible (c : Chain) (minProtocol : Nat) (now : Int) (rules : QueueRules) (size : Nat) (bySigTime : Bool)
    (e : NodeEntry) : Bool :=
  e.isEnabled && decide (minProtocol ≤ e.protocol) && !rules.isScheduled e &&
    (!bySigTime || decide (e.sigTime + size * 60 ≤ now)) &&
    (match e.inputAge? c with
     | some age => decide (size ≤ age)
     | none => false)

/-- The nodes that may be paid; how long ago they were announced counts only if a third of the network
is left then. -/
def eligible (r : Registry) (c : Chain) (minProtocol : Nat) (now : Int) (rules : QueueRules) : List NodeEntry :=
  let size := r.countEnabled 0
  let strict := r.list.filter (isEligible c minProtocol now rules size true)
  if strict.length < size / 3 then r.list.filter (isEligible c minProtocol now rules size false) else strict

/-- The first tenth of the queue, at least one node. -/
def shortlist (r : Registry) (queue : List NodeEntry) (rules : QueueRules) : List OutPoint :=
  let waiting := queue.map fun e => (⟨rules.secondsSincePaid e, e.outpoint⟩ : Waiting)
  ((sortBy Waiting.before waiting).take (max (r.countEnabled 0 / 10) 1)).map Waiting.outpoint

/-- The node to pay at a height, and how many could have been. -/
def nextInQueue (r : Registry) (c : Chain) (height minProtocol : Nat) (now : Int) (rules : QueueRules) :
    Option OutPoint × Nat :=
  let queue := r.eligible c minProtocol now rules
  let ranked := Ranking.rank c (r.shortlist queue rules) r.params.minConfirmations (height - paymentRankOffset)
  (ranked.head?.map Scored.outpoint, queue.length)

end Registry
end NodeQuorum
