/-
  NodeQuorum.Signature.Message — text messages signed by the keys of nodes.

  A message is prefixed with the network's magic words, hashed twice with SHA-256, and the digest is
  signed. Checking parses the key first and the signature next: a signature has 64 bytes, of which
  the last has its three top bits clear.
-/

import NodeQuorum.Hash
import NodeQuorum.Signature.Ed25519
import NodeQuorum.Text.Blank

namespace NodeQuorum

/-- Why a key or a signature is not accepted. -/
inductive SignatureError where
  | publicKey
  | secretKey
  | encoding (length : Nat)
  | mismatch
  | hex (cause : Text.Hex.Error)
deriving DecidableEq, Repr

namespace SignatureError

/-- The name of the kind of error. -/
def name : SignatureError → String
  | publicKey => "invalid_public_key"
  | secretKey => "invalid_secret_key"
  | encoding _ => "invalid_signature"
  | mismatch => "verification_failed"
  | hex _ => "hex"

/-- The text of an error. -/
def message : SignatureError → String
  | publicKey => "invalid public key"
  | secretKey => "invalid secret key"
  | encoding length => "invalid signature encoding (length " ++ toString length ++ ")"
  | mismatch => "signature verification failed"
  | hex cause => "hex decoding failed: " ++ cause.message

end SignatureError

namespace SignedMessage

/-- The words in front of every signed message. -/
def magic : String := "Crown Signed Message:\n"

/-- What a signature of `message` signs. -/
def digest (message : String) : Hash := doubleSha256 (Bytes.ofText magic ++ Bytes.ofText message)

end SignedMessage

namespace PublicKey

/-- The point of a key, if it has one. -/
def point? (key : PublicKey) : Option Signature.Edwards.Point :=
  Signature.Edwards.Point.decompress key.toBytes

def isValid (key : PublicKey) : Bool := key.point?.isSome

/-- A key of 32 bytes that name a point of the curve. -/
def parse (bytes : Bytes) : Except SignatureError PublicKey :=
  if bytes.length = 32 ∧ (ofBytes bytes).isValid then .ok (ofBytes bytes) else .error .publicKey

/-- A key in hexadecimal, blanks around it allowed. -/
def parseHex (text : String) : Except SignatureError PublicKey :=
  match Text.Hex.decode (Text.trim text) with
  | .error e => .error (.hex e)
  | .ok bytes => parse bytes

/-- Checks a signature of `message`. -/
def verify (key : PublicKey) (signature : Bytes) (message : String) : Except SignatureError Unit :=
  match key.point? with
  | none => .error .publicKey
  | some point =>
    if signature.length ≠ 64 ∨ 32 ≤ (signature.getLastD 0).toNat then .error (.encoding signature.length)
    else if Signature.Ed25519.verify key.toBytes point signature (SignedMessage.digest message).toBytes then
      .ok ()
    else .error .mismatch

/-- Whether a signature of `message` checks out. -/
def Signed (key : PublicKey) (signature : Bytes) (message : String) : Prop :=
  key.verify signature message = .ok ()

instance (key : PublicKey) (signature : Bytes) (message : String) :
    Decidable (key.Signed signature message) :=
  match h : key.verify signature message with
  | .ok () => isTrue h
  | .error _ => isFalse (by simp [Signed, h])

end PublicKey

/-- A secret with its public key. -/
structure KeyPair where
  secret : Bytes
  publicKey : PublicKey
  publicKey_eq : publicKey = PublicKey.ofBytes (Signature.Ed25519.publicKey secret)

namespace KeyPair

/-- The pair of a secret of 32 bytes. -/
def ofSecret (secret : Bytes) : Except SignatureError KeyPair :=
  if secret.length = 32 then .ok ⟨secret, _, rfl⟩ else .error .secretKey

/-- The pair of a secret in hexadecimal, blanks around it allowed. -/
def ofSecretHex (text : String) : Except SignatureError KeyPair :=
  match Text.Hex.decode (Text.trim text) with
  | .error e => .error (.hex e)
  | .ok bytes => ofSecret bytes

/-- Signs a text message. -/
def sign (pair : KeyPair) (message : String) : Bytes :=
  Signature.Ed25519.sign pair.secret pair.publicKey.toBytes (SignedMessage.digest message).toBytes

end KeyPair

-- As with digests, no proof looks into a signature.
attribute [irreducible] PublicKey.verify KeyPair.sign

end NodeQuorum
