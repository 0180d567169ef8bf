/-
  NodeQuorum.Message.Vote — the two votes a node casts.

  A payment vote names the payee of one block. A lock vote backs the inputs of one transaction; its
  hash leaves out the height, so a voter has one lock vote for each transaction.
-/

import NodeQuorum.OutPoint
import NodeQuorum.Signature.Message

namespace NodeQuorum

/-- A vote for the payee of one block. -/
structure PaymentVote where
  voter : OutPoint
  height : Nat
  payee : Script
  signature : Bytes
  deriving DecidableEq, Repr

namespace PaymentVote

def hash (v : PaymentVote) : Hash :=
  blake3 (Bytes.ofText "winner" ++ v.payee ++ Bytes.ofNatLE 8 v.height ++ v.voter.toBytes)

/-- The text that the voter signs. -/
def signedText (voter : OutPoint) (height : Nat) (payee : Script) : String :=
  voter.text ++ toString height ++ payee.text

def create (operator : KeyPair) (voter : OutPoint) (height : Nat) (payee : Script) : PaymentVote :=
  ⟨voter, height, payee, operator.sign (signedText voter height payee)⟩

end PaymentVote

/-- A vote to lock the inputs of one transaction. -/
structure LockVote where
  voter : OutPoint
  txid : Hash
  height : Nat
  signature : Bytes
  deriving DecidableEq, Repr

namespace LockVote

def hash (v : LockVote) : Hash := blake3 (Bytes.ofText "lockvote" ++ v.voter.toBytes ++ v.txid.toBytes)

/-- The text that the voter signs. -/
def signedText (txid : Hash) (height : Nat) : String := txid.text ++ toString height

def create (operator : KeyPair) (voter : OutPoint) (txid : Hash) (height : Nat) : LockVote :=
  ⟨voter, txid, height, operator.sign (signedText txid height)⟩

end LockVote
end NodeQuorum
