/-
  NodeQuorum.Sync.Tracker — how far the lists of one class were pulled from peers.

  Sporks come first, then the list of nodes, then the payment votes. A stage ends when its items stop
  arriving. A stage in which nothing ever arrives is given up, and then the synchronisation fails if
  payments are enforced; a failed one starts again a minute later.

  Peers also report how many items they have. Sum and number of their counts have 32 bits, and the program
  stops where one of them would run over (`overruns`).
-/

import NodeQuorum.Message.Basic

namespace NodeQuorum

/-- The stages of a synchronisation. -/
inductive SyncStage where
  | initial
  | sporks
  | list
  | winners
  | finished
  | failed
  deriving DecidableEq, Repr

namespace SyncStage

def name : SyncStage → String
  | initial => "initial"
  | sporks => "sporks"
  | list => "list"
  | winners => "winners"
  | finished => "finished"
  | failed => "failed"

/-- The stage that comes next; a failed synchronisation starts over with the sporks. -/
def next : SyncStage → SyncStage
  | initial | failed => sporks
  | sporks => list
  | list => winners
  | winners | finished => finished

/-- A stage as it is shown. -/
def text : SyncStage → String
  | initial => "Synchronization pending..."
  | sporks => "Synchronizing sporks..."
  | list => "Synchronizing node list..."
  | winners => "Synchronizing payment winners..."
  | finished => "Synchronization finished"
  | failed => "Synchronization failed"

end SyncStage

/-- The stage in which counts of an item are taken. -/
def SyncItem.stage : SyncItem → SyncStage
  | .list => .list
  | .winners => .winners

/-- What arrived of one kind of item, and how many of them peers said they have. -/
structure ItemProgress where
  /-- How often an item counted as progress. -/
  seen : Table Hash Nat
  /-- The time of the last progress, zero if there was none. -/
  last : Int
  /-- The sum of the counts that peers reported. -/
  sum : Nat
  reports : Nat

namespace ItemProgress

/-- An item that comes again counts so many times. -/
def threshold : Nat := 2

def empty : ItemProgress := ⟨∅, 0, 0, 0⟩

/-- Notes an item. One that is known and was noted often enough is no progress. -/
def note (p : ItemProgress) (hash : Hash) (known : Bool) (now : Int) : ItemProgress :=
  match p.seen[hash]? with
  | some count =>
    if ¬ known then { p with seen := p.seen.insert hash 1, last := now }
    else if count < threshold then { p with seen := p.seen.insert hash (count + 1), last := now }
    else p
  | none => { p with seen := p.seen.insert hash 1, last := now }

/-- Adds a count that a peer reported. -/
def report (p : ItemProgress) (count : Nat) : ItemProgress := { p with sum := p.sum + count, reports := p.reports + 1 }

/-- The counters of reports have 32 bits each and hold what they count. -/
def Fits (p : ItemProgress) : Prop := p.sum < 2 ^ 32 ∧ p.reports < 2 ^ 32

instance (p : ItemProgress) : Decidable p.Fits := inferInstanceAs (Decidable (_ ∧ _))

/-- The mean of the reported counts, rounded down. -/
def average? (p : ItemProgress) : Option Nat := if p.reports = 0 then none else some (p.sum / p.reports)

end ItemProgress

/-- The synchronisation of one class. -/
structure SyncTracker where
  stage : SyncStage
  /-- When the stage began. -/
  started : Int
  lastFailure : Int
  failures : Nat
  list : ItemProgress
  winners : ItemProgress

namespace SyncTracker

/-- Seconds; a stage ends after two without an item, and is given up after five without any. -/
def interval : Int := 5

/-- A failed synchronisation starts again after so many seconds. -/
def retrySeconds : Int := 60

def start (now : Int) : SyncTracker := ⟨.initial, now, 0, 0, .empty, .empty⟩

/-- Starts again and keeps only what is known of failures. -/
def restart (t : SyncTracker) (now : Int) : SyncTracker :=
  { start now with lastFailure := t.lastFailure, failures := t.failures }

def isFinished (t : SyncTracker) : Bool := t.stage = .finished

def progress (t : SyncTracker) : SyncItem → ItemProgress
  | .list => t.list
  | .winners => t.winners

def setProgress (t : SyncTracker) (item : SyncItem) (p : ItemProgress) : SyncTracker :=
  match item with
  | .list => { t with list := p }
  | .winners => { t with winners := p }

/-- Goes on to the next stage. -/
def advance (t : SyncTracker) (now : Int) : SyncTracker := { t with stage := t.stage.next, started := now }

def fail (t : SyncTracker) (now : Int) : SyncTracker :=
  { t with stage := .failed, lastFailure := now, failures := t.failures + 1 }

/-- Ends the stage of an item when the item stops arriving, or gives it up if it never came. -/
def settle (t : SyncTracker) (item : SyncItem) (now : Int) (enforced : Bool) : SyncTracker :=
  let last := (t.progress item).last
  if 0 < last ∧ last < now - 2 * interval then t.advance now
  else if last = 0 ∧ 5 * interval < now - t.started then if enforced then t.fail now else t.advance now
  else t

/-- Moves a stage on by the time that has passed. -/
def proceed (t : SyncTracker) (now : Int) (enforced : Bool) : SyncTracker :=
  match t.stage with
  | .sporks => if 2 * interval ≤ now - t.started then t.advance now else t
  | .list => t.settle .list now enforced
  | .winners => t.settle .winners now enforced
  | .initial | .finished | .failed => t

/-- What a passing moment does; without the chain there is nothing but a start. -/
def tick (t : SyncTracker) (now : Int) (chainSynced enforced : Bool) : SyncTracker :=
  if t.isFinished ∨ t.stage = .failed ∧ now ≤ t.lastFailure + retrySeconds then t
  else
    let t := if t.stage = .failed then t.restart now else t
    let t := if t.stage = .initial then t.advance now else t
    if chainSynced then t.proceed now enforced else t

/-- Notes an item; `known` says that it was stored before. -/
def note (t : SyncTracker) (item : SyncItem) (hash : Hash) (known : Bool) (now : Int) : SyncTracker :=
  t.setProgress item ((t.progress item).note hash known now)

/-- Takes the count that a peer reports, if this is the item's stage. -/
def count? (t : SyncTracker) (item : SyncItem) (count : Nat) : Option SyncTracker :=
  if t.stage = item.stage then some (t.setProgress item ((t.progress item).report count)) else none

/-- Whether a count is taken that makes a counter run over. The program stops there. -/
def overruns (t : SyncTracker) (item : SyncItem) (count : Nat) : Bool :=
  t.stage = item.stage ∧ ¬ ((t.progress item).report count).Fits

end SyncTracker
end NodeQuorum
