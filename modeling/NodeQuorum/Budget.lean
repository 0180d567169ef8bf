/-
  NodeQuorum.Budget — which blocks pay the budget, and which transactions pay it right.
-/

import NodeQuorum.Transaction

namespace NodeQuorum

/-- The budget's payment blocks and the transactions it approves. -/
structure Budget where
  paymentBlocks : Roster Nat
  approved : Roster Hash
  clears : Nat

namespace Budget

def empty : Budget := ⟨∅, ∅, 0⟩

def addPaymentBlock (b : Budget) (height : Nat) : Budget :=
  { b with paymentBlocks := b.paymentBlocks.insert height () }

def approve (b : Budget) (txid : Hash) : Budget := { b with approved := b.approved.insert txid () }

def clear (b : Budget) : Budget := ⟨∅, ∅, b.clears + 1⟩

def isPaymentBlock (b : Budget) (height : Nat) : Bool := b.paymentBlocks.contains height

def isValid (b : Budget) (tx : Transaction) : Bool := b.approved.contains tx.txid

def requiredText (b : Budget) (height : Nat) : String := if b.isPaymentBlock height then "budget" else "Unknown"

end Budget
end NodeQuorum
