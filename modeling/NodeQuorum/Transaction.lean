/-
  NodeQuorum.Transaction — transactions, their canonical bytes and their identity.

  The bytes name the shape of the transaction, then hold its fields in order: numbers least
  significant byte first, and the number of items in eight bytes before each list. The identity is
  the BLAKE3 hash of the bytes.
-/

import NodeQuorum.OutPoint

namespace NodeQuorum

/-- An input: the output it spends. -/
structure TxInput where
  previous : OutPoint
  scriptSig : Script
  sequence : UInt32
  deriving DecidableEq, Repr

/-- An output: an amount and the script that locks it. -/
structure TxOutput where
  value : UInt64
  script : Script
  deriving DecidableEq, Repr

/-- The shapes of transaction that matter here. -/
inductive Transaction where
  | standard (version : UInt32) (inputs : List TxInput) (outputs : List TxOutput) (lockTime : UInt32)
  | coinbase (version : UInt32) (height : UInt64) (outputs : List TxOutput) (lockTime : UInt32)
  deriving DecidableEq, Repr

/-- A byte string behind its length. -/
def Bytes.counted (bytes : Bytes) : Bytes := Bytes.ofNatLE 8 bytes.length ++ bytes

namespace TxInput

def toBytes (i : TxInput) : Bytes :=
  i.previous.toBytes ++ Bytes.counted i.scriptSig ++ Bytes.ofNatLE 4 i.sequence.toNat

end TxInput

namespace TxOutput

def toBytes (o : TxOutput) : Bytes := Bytes.ofNatLE 8 o.value.toNat ++ Bytes.counted o.script

end TxOutput

namespace Transaction

/-- The inputs; a coinbase has none. -/
def inputs : Transaction → List TxInput
  | .standard _ inputs _ _ => inputs
  | .coinbase .. => []

def outputs : Transaction → List TxOutput
  | .standard _ _ outputs _ => outputs
  | .coinbase _ _ outputs _ => outputs

/-- The transaction with other outputs. -/
def withOutputs (outputs : List TxOutput) : Transaction → Transaction
  | .standard version inputs _ lockTime => .standard version inputs outputs lockTime
  | .coinbase version height _ lockTime => .coinbase version height outputs lockTime

def lockTime : Transaction → UInt32
  | .standard _ _ _ lockTime => lockTime
  | .coinbase _ _ _ lockTime => lockTime

def isCoinbase : Transaction → Bool
  | .standard .. => false
  | .coinbase .. => true

/-- The outpoints that the transaction spends. -/
def spends (tx : Transaction) : List OutPoint := tx.inputs.map TxInput.previous

/-- The sum of the output values, at most the largest amount that 64 bits hold. -/
def total (tx : Transaction) : Nat :=
  min (tx.outputs.foldr (fun o total => o.value.toNat + total) 0) (2 ^ 64 - 1)

/-- A list behind its length. -/
def listBytes {α : Type} (item : α → Bytes) (items : List α) : Bytes :=
  Bytes.ofNatLE 8 items.length ++ items.flatMap item

/-- The canonical bytes. -/
def toBytes : Transaction → Bytes
  | .standard version inputs outputs lockTime =>
    Bytes.ofNatLE 4 0 ++ Bytes.ofNatLE 4 version.toNat ++ listBytes TxInput.toBytes inputs ++
      listBytes TxOutput.toBytes outputs ++ Bytes.ofNatLE 4 lockTime.toNat
  | .coinbase version height outputs lockTime =>
    Bytes.ofNatLE 4 1 ++ Bytes.ofNatLE 4 version.toNat ++ Bytes.ofNatLE 8 height.toNat ++
      listBytes TxOutput.toBytes outputs ++ Bytes.ofNatLE 4 lockTime.toNat

/-- The hash that names the transaction. -/
def txid (tx : Transaction) : Hash := blake3 tx.toBytes

@[simp] theorem outputs_withOutputs (outputs : List TxOutput) (tx : Transaction) :
    (tx.withOutputs outputs).outputs = outputs := by cases tx <;> rfl

end Transaction
end NodeQuorum
