/-
  NodeQuorum.Payment.Ballot — the votes for the payee of one block.

  A payee with six votes is decided, and several can be. A coinbase is held to a ballot only once
  somebody is decided: then it has to pay a decided payee the exact amount, and from some height on in
  the one output that belongs to the class.

  Weights and counts have 32 bits, and the program stops where a count would run over (`overruns`).
-/

import NodeQuorum.Message.Vote
import NodeQuorum.Transaction

namespace NodeQuorum

/-- The votes that decide on a payee. -/
def paymentVotesRequired : Nat := 6

/-- A payee and the votes for it. -/
structure Payee where
  script : Script
  votes : Nat
  deriving DecidableEq, Repr

/-- The payees named for one block, in the order in which they were first named. -/
structure Ballot where
  height : Nat
  payees : List Payee
  deriving DecidableEq, Repr

namespace Ballot

def empty (height : Nat) : Ballot := ⟨height, []⟩

/-- Adds votes to the payee with a script, or names a new payee. -/
def tally (script : Script) (weight : Nat) : List Payee → List Payee
  | [] => [⟨script, weight⟩]
  | p :: rest => if p.script = script then ⟨p.script, p.votes + weight⟩ :: rest else p :: tally script weight rest

def add (b : Ballot) (script : Script) (weight : Nat) : Ballot := { b with payees := tally script weight b.payees }

/-- The votes for a script. -/
def votesFor (b : Ballot) (script : Script) : Nat :=
  match b.payees.find? fun p => p.script = script with
  | some p => p.votes
  | none => 0

/-- Whether votes make the count of a script run over. The program stops there. -/
def overruns (b : Ballot) (script : Script) (weight : Nat) : Bool := 2 ^ 32 ≤ b.votesFor script + weight

/-- The payee with the most votes, the first named on a tie. -/
def winner? (b : Ballot) : Option Payee :=
  b.payees.foldl (fun best p => match best with
    | some q => if p.votes ≤ q.votes then some q else some p
    | none => some p) none

/-- Whether a script is named with at least so many votes. -/
def hasPayee (b : Ballot) (script : Script) (votes : Nat) : Bool :=
  b.payees.any fun p => p.script = script && decide (votes ≤ p.votes)

/-- The payees that are decided. -/
def decided (b : Ballot) : List Payee := b.payees.filter fun p => paymentVotesRequired ≤ p.votes

def isDecided (b : Ballot) : Bool := b.payees.any fun p => paymentVotesRequired ≤ p.votes

/-- The first output that pays a script an amount. -/
def position? (outputs : List TxOutput) (script : Script) (payment : UInt64) : Option Nat :=
  outputs.findIdx? fun o => o.script = script ∧ o.value = payment

/-- Whether outputs pay one of some payees: the first that is paid at all has to be paid in its place. -/
def paysOneOf (outputs : List TxOutput) (payment : UInt64) (slot : Nat) (enforceSlot : Bool) : List Payee → Bool
  | [] => false
  | p :: rest =>
    match position? outputs p.script payment with
    | some position => !enforceSlot || position == slot
    | none => paysOneOf outputs payment slot enforceSlot rest

/-- Whether a coinbase honours the ballot. -/
def isSatisfied (b : Ballot) (tx : Transaction) (payment : UInt64) (slot : Nat) (enforceSlot : Bool) : Bool :=
  !b.isDecided || paysOneOf tx.outputs payment slot enforceSlot b.decided

/-- The payees with their votes. -/
def text (b : Ballot) : String :=
  if b.payees = [] then "Unknown"
  else ", ".intercalate (b.payees.map fun p => p.script.text ++ ":" ++ toString p.votes)

end Ballot
end NodeQuorum
