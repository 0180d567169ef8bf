/-
  NodeQuorum.Chain.Basic — the active chain, its unspent outputs and the transactions known of.

  Heights and hashes are looked up when they are needed, so nothing outlives a change of the chain.
-/

import NodeQuorum.Transaction

namespace NodeQuorum

/-- A block of the chain. -/
structure Block where
  hash : Hash
  time : Int
  deriving DecidableEq, Repr

/-- The hash of a made-up block; `salt` tells blocks of one height apart. -/
def Block.hashFor (height salt : Nat) : Hash :=
  blake3 (Bytes.ofText "block" ++ Bytes.ofNatLE 8 height ++ Bytes.ofNatLE 8 salt)

/-- An unspent output. -/
structure Coin where
  value : UInt64
  script : Script
  /-- The height of the block that made the output. -/
  height : Nat
  deriving DecidableEq, Repr

/-- The chain as far as the quorum layer looks at it. -/
structure Chain where
  /-- The active blocks, from height zero. -/
  blocks : Array Block
  coins : Table OutPoint Coin
  /-- Known transactions and the heights of those that are confirmed. -/
  transactions : Table Hash (Transaction × Option Nat)
  /-- Blocks that were found invalid, and when. -/
  failed : List (Block × Int)
  /-- Blocks whose failure was taken back. -/
  reconsidered : List Block
  /-- Disconnected blocks, the last one first. -/
  detached : List Block
  synced : Bool
  refusesDisconnect : Bool
  disconnects : Nat
  activations : Nat
  resyncs : Nat

namespace Chain

/-- A chain without a block. -/
def empty : Chain := ⟨#[], ∅, ∅, [], [], [], false, false, 0, 0, 0⟩

/-- A synchronised chain with blocks from zero to `tip`, `spacing` seconds apart. -/
def generate (tip : Nat) (start spacing : Int) : Chain :=
  { empty with
    blocks := (Array.range (tip + 1)).map fun h => ⟨Block.hashFor h 0, start + h * spacing⟩
    synced := true }

/-- The height of the newest block. -/
def tip? (c : Chain) : Option Nat := if c.blocks.size = 0 then none else some (c.blocks.size - 1)

def hashAt? (c : Chain) (height : Nat) : Option Hash := c.blocks[height]?.map Block.hash

def timeAt? (c : Chain) (height : Nat) : Option Int := c.blocks[height]?.map Block.time

def heightOf? (c : Chain) (hash : Hash) : Option Nat := c.blocks.findIdx? fun b => b.hash = hash

/-- Confirmations of a transaction, zero if it is unconfirmed or unknown. -/
def transactionAge (c : Chain) (txid : Hash) : Nat :=
  match c.tip?, c.transactions[txid]? with
  | some tip, some (_, some height) => if height ≤ tip then tip - height + 1 else 0
  | _, _ => 0

def transaction? (c : Chain) (txid : Hash) : Option Transaction := c.transactions[txid]?.map Prod.fst

/-- Confirmations of an unspent output. -/
def confirmations? (c : Chain) (o : OutPoint) : Option Nat :=
  match c.coins[o]?, c.tip? with
  | some coin, some tip => some (tip - coin.height + 1)
  | _, _ => none

/-! ## Changes from outside -/

/-- Adds a block on top. -/
def pushBlock (c : Chain) (time : Int) : Chain :=
  { c with blocks := c.blocks.push ⟨Block.hashFor c.blocks.size c.disconnects, time⟩ }

def addCoin (c : Chain) (o : OutPoint) (coin : Coin) : Chain := { c with coins := c.coins.insert o coin }

def spendCoin (c : Chain) (o : OutPoint) : Chain := { c with coins := c.coins.erase o }

def addTransaction (c : Chain) (tx : Transaction) (height : Option Nat) : Chain :=
  { c with transactions := c.transactions.insert tx.txid (tx, height) }

/-- Records that a block was found invalid, and takes it off the chain if it is the tip. -/
def markFailed (c : Chain) (block : Block) (failedAt : Int) : Chain :=
  { c with
    blocks := if c.blocks.back? = some block then c.blocks.pop else c.blocks
    failed := c.failed ++ [(block, failedAt)] }

end Chain
end NodeQuorum
