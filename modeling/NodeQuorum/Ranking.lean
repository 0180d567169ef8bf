/-
  NodeQuorum.Ranking — the order of nodes at a height.

  The score of a node hashes its collateral output, the block that confirmed the collateral and the
  block that a voter for the height already sees. The highest score comes first, and equal scores go
  by outpoint, so the order depends on nothing but the chain and the set of nodes. A node whose score
  cannot be computed has no place.
-/

import NodeQuorum.Chain.Basic
import NodeQuorum.Reject
import NodeQuorum.Sorted

namespace NodeQuorum

/-- A node and its score at some height. -/
structure Scored where
  outpoint : OutPoint
  score : Hash
  deriving DecidableEq, Repr

namespace Scored

/-- The higher score goes first, then the smaller outpoint; a node goes before itself. -/
def before (a b : Scored) : Bool :=
  b.score < a.score || (a.score = b.score && (compare a.outpoint b.outpoint).isLE)

end Scored

namespace Ranking

/-- The block a voter for `height` already sees: its parent, and the first block for height zero. -/
def seenHash (c : Chain) (height : Nat) : Except Failure Hash :=
  match c.tip? with
  | none => .error (.notFound "chain has no tip")
  | some tip =>
    if tip + 1 < height then
      .error (.notFound ("height " ++ toString height ++ " is beyond tip " ++ toString tip ++ " + 1"))
    else match c.hashAt? (height - 1) with
      | some hash => .ok hash
      | none => .error (.notFound ("no block at height " ++ toString (height - 1)))

/-- The block at which the collateral had its confirmations. -/
def confirmationHash (c : Chain) (o : OutPoint) (minConfirmations : Nat) : Except Failure Hash :=
  match c.coins[o]? with
  | none => .error (.notFound ("collateral " ++ o.text ++ " not in the UTXO set"))
  | some coin =>
    let height := coin.height + (minConfirmations - 1)
    match c.hashAt? height with
    | some hash => .ok hash
    | none => .error (.notFound ("collateral " ++ o.text ++ " not yet confirmed at height " ++ toString height))

/-- The score of a node at a height. -/
def score (c : Chain) (o : OutPoint) (minConfirmations height : Nat) : Except Failure Hash :=
  match confirmationHash c o minConfirmations with
  | .error e => .error e
  | .ok confirmation =>
    match seenHash c height with
    | .error e => .error e
    | .ok seen => .ok (blake3 (o.toBytes ++ confirmation.toBytes ++ seen.toBytes))

/-- A candidate with its score, if it has one. -/
def scored? (c : Chain) (minConfirmations height : Nat) (o : OutPoint) : Option Scored :=
  match score c o minConfirmations height with
  | .ok s => some ⟨o, s⟩
  | .error _ => none

/-- The candidates that have a score, best first. -/
def rank (c : Chain) (candidates : List OutPoint) (minConfirmations height : Nat) : List Scored :=
  sortBy Scored.before (candidates.filterMap (scored? c minConfirmations height))

end Ranking
end NodeQuorum
