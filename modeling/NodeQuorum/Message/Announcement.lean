/-
  NodeQuorum.Message.Announcement — how a node makes itself known and stays known.

  An announcement ties a collateral output to an address and to the key the running node signs with;
  the holder of the collateral signs it. A ping is signed by the running node and names a recent
  block. The hash of an announcement covers the collateral output, the signing time and the collateral
  key only; the hash of a ping covers the collateral output and the signing time only.
-/

import NodeQuorum.NetAddress.Basic
import NodeQuorum.OutPoint
import NodeQuorum.Signature.Message

namespace NodeQuorum

/-- Proof that a node is online and follows the chain. -/
structure Ping where
  outpoint : OutPoint
  blockHash : Hash
  sigTime : Int
  signature : Bytes
  deriving DecidableEq, Repr

namespace Ping

def hash (p : Ping) : Hash :=
  blake3 (Bytes.ofText "ping" ++ p.outpoint.toBytes ++ Bytes.ofIntLE 8 p.sigTime)

/-- The text that the node signs. -/
def signedText (outpoint : OutPoint) (blockHash : Hash) (sigTime : Int) : String :=
  outpoint.text ++ blockHash.text ++ toString sigTime

def create (operator : KeyPair) (outpoint : OutPoint) (blockHash : Hash) (now : Int) : Ping :=
  ⟨outpoint, blockHash, now, operator.sign (signedText outpoint blockHash now)⟩

end Ping

/-- A node's announcement. -/
structure Announcement where
  outpoint : OutPoint
  address : NetAddress
  /-- The key that controls the collateral; the node is paid at its script. -/
  collateralKey : PublicKey
  /-- The key that the running node signs pings and votes with. -/
  operatorKey : PublicKey
  signature : Bytes
  sigTime : Int
  protocol : Nat
  lastPing : Ping
  deriving DecidableEq, Repr

namespace Announcement

def hash (a : Announcement) : Hash :=
  blake3 (Bytes.ofText "broadcast" ++ a.outpoint.toBytes ++ Bytes.ofIntLE 8 a.sigTime ++ a.collateralKey.toBytes)

/-- The text that the holder of the collateral signs. -/
def signedText (address : NetAddress) (sigTime : Int) (collateralKey operatorKey : PublicKey) (protocol : Nat) :
    String :=
  address.text ++ toString sigTime ++ collateralKey.text ++ operatorKey.text ++ toString protocol

/-- A signed announcement with a first ping. -/
def create (collateral operator : KeyPair) (outpoint : OutPoint) (address : NetAddress) (protocol : Nat)
    (blockHash : Hash) (now : Int) : Announcement where
  outpoint
  address
  collateralKey := collateral.publicKey
  operatorKey := operator.publicKey
  signature := collateral.sign (signedText address now collateral.publicKey operator.publicKey protocol)
  sigTime := now
  protocol
  lastPing := Ping.create operator outpoint blockHash now

end Announcement
end NodeQuorum
