/-
  NodeQuorum.Mempool — the pool of unconfirmed transactions.

  No two transactions of the pool spend the same output; an index says which transaction spends which
  output.
-/

import NodeQuorum.Transaction

namespace NodeQuorum

/-- The pool and its index. -/
structure Mempool where
  transactions : Table Hash Transaction
  spentBy : Table OutPoint Hash

namespace Mempool

/-- An output that another transaction of the pool spends. -/
structure DoubleSpend where
  output : OutPoint
  spender : Hash
  deriving DecidableEq, Repr

/-- The text of a refusal. -/
def DoubleSpend.message (e : DoubleSpend) : String :=
  "input " ++ e.output.text ++ " already spent by " ++ e.spender.text

def empty : Mempool := ⟨∅, ∅⟩

/-- The first of some outputs that a transaction other than `txid` spends. -/
def conflict? (m : Mempool) (txid : Hash) : List OutPoint → Option DoubleSpend
  | [] => none
  | o :: rest =>
    match m.spentBy[o]? with
    | some spender => if spender = txid then m.conflict? txid rest else some ⟨o, spender⟩
    | none => m.conflict? txid rest

/-- Adds a transaction unless the pool spends one of its inputs already. -/
def accept (m : Mempool) (tx : Transaction) : Except DoubleSpend Mempool :=
  let txid := tx.txid
  match m.conflict? txid tx.spends with
  | some e => .error e
  | none =>
    .ok { transactions := m.transactions.insert txid tx
          spentBy := tx.spends.foldl (fun t o => t.insert o txid) m.spentBy }

/-- Takes a transaction out and frees its inputs. -/
def remove (m : Mempool) (txid : Hash) : Mempool :=
  if m.transactions.contains txid then
    { transactions := m.transactions.erase txid
      spentBy := m.spentBy.filter fun _ spender => spender ≠ txid }
  else m

end Mempool
end NodeQuorum
