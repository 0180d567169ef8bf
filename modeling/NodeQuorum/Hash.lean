/-
  NodeQuorum.Hash — the hashes that name objects, and the keys and scripts made from them.

  A `Hash` is 256 bits. Its bytes are written most significant first, so the order of hashes as
  numbers is the order of their bytes from the left.
-/

import NodeQuorum.Digest.Blake3
import NodeQuorum.Digest.Ripemd160
import NodeQuorum.Digest.Sha256
import NodeQuorum.Text.Hex

namespace NodeQuorum

/-- A 32-byte hash. -/
abbrev Hash := BitVec 256

namespace Hash

def toBytes (h : Hash) : Bytes := Bytes.ofNatBE 32 h.toNat

/-- The hash of 32 bytes. -/
def ofBytes (bytes : Bytes) : Hash := BitVec.ofNat 256 (Bytes.toNatBE bytes)

/-- The 64 digits of a hash. -/
def text (h : Hash) : String := Text.Hex.encode h.toBytes

@[simp] theorem length_toBytes (h : Hash) : h.toBytes.length = 32 := by simp [toBytes]

@[simp] theorem ofBytes_toBytes (h : Hash) : ofBytes h.toBytes = h := by
  apply BitVec.eq_of_toNat_eq
  have := h.isLt
  simp only [ofBytes, toBytes, Bytes.toNatBE_ofNatBE, BitVec.toNat_ofNat]
  omega

theorem toBytes_inj {a b : Hash} (h : a.toBytes = b.toBytes) : a = b := by
  rw [← ofBytes_toBytes a, h, ofBytes_toBytes]

end Hash

/-- The hash that names messages and transactions. -/
def blake3 (bytes : Bytes) : Hash := Hash.ofBytes (Digest.Blake3.digest bytes)

def sha256 (bytes : Bytes) : Hash := Hash.ofBytes (Digest.Sha256.digest bytes)

-- No proof looks into a digest; unfolding one while terms are compared would not end.
attribute [irreducible] blake3 sha256

/-- SHA-256 applied twice, the digest that signed messages commit to. -/
def doubleSha256 (bytes : Bytes) : Hash := sha256 (sha256 bytes).toBytes

/-- A 32-byte public key, as it was announced. -/
abbrev PublicKey := BitVec 256

namespace PublicKey

def toBytes (key : PublicKey) : Bytes := Hash.toBytes key

def ofBytes (bytes : Bytes) : PublicKey := Hash.ofBytes bytes

def text (key : PublicKey) : String := Hash.text key

end PublicKey

/-- A locking script. -/
abbrev Script := Bytes

namespace Script

/-- The 20 bytes that a script names a key by. -/
def keyHash (bytes : Bytes) : Bytes := Digest.Ripemd160.digest (Digest.Sha256.digest bytes)

/-- Pays to the key with this hash: duplicate, hash, push, compare, check the signature. -/
def payToKeyHash (hash : Bytes) : Script := [0x76, 0xa9, 0x14] ++ hash ++ [0x88, 0xac]

/-- Pays to a public key by its hash. -/
def ofPublicKey (key : PublicKey) : Script := payToKeyHash (keyHash key.toBytes)

/-- The key hash a script pays to, if it has the form of `payToKeyHash`. -/
def keyHash? (script : Script) : Option Bytes :=
  if script.length = 25 ∧ script.take 3 = [0x76, 0xa9, 0x14] ∧ script.drop 23 = [0x88, 0xac] then
    some ((script.drop 3).take 20)
  else none

def text (script : Script) : String := Text.Hex.encode script

theorem keyHash?_payToKeyHash {hash : Bytes} (h : hash.length = 20) :
    keyHash? (payToKeyHash hash) = some hash := by
  simp [keyHash?, payToKeyHash, h, List.drop_append, List.take_append]

end Script
end NodeQuorum
