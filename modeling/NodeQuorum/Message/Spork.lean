/-
  NodeQuorum.Message.Spork — a network-wide setting, signed with the network's one key.
-/

import NodeQuorum.Signature.Message

namespace NodeQuorum

/-- A setting and the time it was signed. -/
structure SporkRecord where
  id : Nat
  value : Int
  signedAt : Int
  signature : Bytes
  deriving DecidableEq, Repr

namespace SporkRecord

def hash (r : SporkRecord) : Hash :=
  blake3 (Bytes.ofText "spork" ++ Bytes.ofNatLE 4 r.id ++ Bytes.ofIntLE 8 r.value ++ Bytes.ofIntLE 8 r.signedAt)

/-- The text that the network key signs: the three numbers in decimal, one behind the other. -/
def signedText (id : Nat) (value signedAt : Int) : String := toString id ++ toString value ++ toString signedAt

def create (signer : KeyPair) (id : Nat) (value now : Int) : SporkRecord :=
  ⟨id, value, now, signer.sign (signedText id value now)⟩

/-- Whether the record carries a signature of its own text. -/
def verify (r : SporkRecord) (key : PublicKey) : Except SignatureError Unit :=
  key.verify r.signature (signedText r.id r.value r.signedAt)

end SporkRecord
end NodeQuorum
