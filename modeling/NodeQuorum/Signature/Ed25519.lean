/-
  NodeQuorum.Signature.Ed25519 — signing with a 32-byte secret and checking a signature.

  Signing is that of RFC 8032. A signature is accepted if `s` is below the order of the base point and
  the bytes of `s·B - k·A` are the first half of the signature; the cofactor is not multiplied in.
-/

import NodeQuorum.Digest.Sha512
import NodeQuorum.Signature.Edwards

namespace NodeQuorum.Signature.Ed25519

open Edwards

/-- The scalar of a secret: its hashed first half with the low three bits and the top bit cleared and
the second highest bit set. -/
def secretScalar (hashed : Bytes) : Nat :=
  let n := Bytes.toNatLE (hashed.take 32)
  n % 2 ^ 254 / 8 * 8 + 2 ^ 254

/-- The public key of a secret. -/
def publicKey (secret : Bytes) : Bytes :=
  (Point.base.times 255 (secretScalar (Digest.Sha512.digest secret))).compress

/-- The number that ties a signature to its nonce, key and message. -/
def challenge (nonce key message : Bytes) : Nat :=
  Bytes.toNatLE (Digest.Sha512.digest (nonce ++ key ++ message)) % order

/-- The 64 bytes of a signature with a secret and its public key. -/
def sign (secret key message : Bytes) : Bytes :=
  let hashed := Digest.Sha512.digest secret
  let a := secretScalar hashed
  let r := Bytes.toNatLE (Digest.Sha512.digest (hashed.drop 32 ++ message)) % order
  let nonce := (Point.base.times 255 r).compress
  nonce ++ Bytes.ofNatLE 32 ((r + challenge nonce key message * a) % order)

/-- Whether 64 bytes are a signature of the message under the key `key`, whose point is `a`. -/
def verify (key : Bytes) (a : Point) (signature message : Bytes) : Bool :=
  let nonce := signature.take 32
  let s := Bytes.toNatLE (signature.drop 32)
  s < order &&
    ((Point.base.times 255 s).plus (a.neg.times 255 (challenge nonce key message))).compress == nonce

end NodeQuorum.Signature.Ed25519
