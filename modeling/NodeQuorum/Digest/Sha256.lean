/-
  NodeQuorum.Digest.Sha256 — the SHA-256 digest of FIPS 180-4.

  The padded message is absorbed in blocks of 64 bytes; each block is stretched to 64 words, and
  every word drives one round over eight registers.
-/

import NodeQuorum.Bytes

namespace NodeQuorum.Digest.Sha256

/-- The round constants: the first 32 fractional bits of the cube roots of the first 64 primes. -/
def roundConstants : List UInt32 :=
  [0x428a2f98, 0x71374491, 0xb5c0fbcf, 0xe9b5dba5, 0x3956c25b, 0x59f111f1, 0x923f82a4, 0xab1c5ed5,
   0xd807aa98, 0x12835b01, 0x243185be, 0x550c7dc3, 0x72be5d74, 0x80deb1fe, 0x9bdc06a7, 0xc19bf174,
   0xe49b69c1, 0xefbe4786, 0x0fc19dc6, 0x240ca1cc, 0x2de92c6f, 0x4a7484aa, 0x5cb0a9dc, 0x76f988da,
   0x983e5152, 0xa831c66d, 0xb00327c8, 0xbf597fc7, 0xc6e00bf3, 0xd5a79147, 0x06ca6351, 0x14292967,
   0x27b70a85, 0x2e1b2138, 0x4d2c6dfc, 0x53380d13, 0x650a7354, 0x766a0abb, 0x81c2c92e, 0x92722c85,
   0xa2bfe8a1, 0xa81a664b, 0xc24b8b70, 0xc76c51a3, 0xd192e819, 0xd6990624, 0xf40e3585, 0x106aa070,
   0x19a4c116, 0x1e376c08, 0x2748774c, 0x34b0bcb5, 0x391c0cb3, 0x4ed8aa4a, 0x5b9cca4f, 0x682e6ff3,
   0x748f82ee, 0x78a5636f, 0x84c87814, 0x8cc70208, 0x90befffa, 0xa4506ceb, 0xbef9a3f7, 0xc67178f2]

/-- The eight working registers. -/
structure Registers where
  a : UInt32
  b : UInt32
  c : UInt32
  d : UInt32
  e : UInt32
  f : UInt32
  g : UInt32
  h : UInt32

/-- The start value: the fractional bits of the square roots of the first eight primes. -/
def start : Registers :=
  ⟨0x6a09e667, 0xbb67ae85, 0x3c6ef372, 0xa54ff53a, 0x510e527f, 0x9b05688c, 0x1f83d9ab, 0x5be0cd19⟩

def rotr (x : UInt32) (n : UInt32) : UInt32 := (x >>> n) ||| (x <<< (32 - n))

/-- The message with a one bit, zeros and its length in bits, a whole number of blocks long. -/
def pad (message : Bytes) : Bytes :=
  let zeros := (119 - message.length % 64) % 64
  message ++ 0x80 :: List.replicate zeros 0 ++ Bytes.ofNatBE 8 (8 * message.length)

def words (block : Bytes) : List UInt32 :=
  (Bytes.pieces 4 block).map fun w => UInt32.ofNat (Bytes.toNatBE w)

/-- The first `count` words of the stretched block, from a window of the next sixteen. -/
def schedule : (count : Nat) → List UInt32 → List UInt32
  | 0, _ => []
  | _ + 1, [] => []
  | count + 1, w :: rest =>
    let x := rest.getD 0 0
    let y := rest.getD 13 0
    let s0 := rotr x 7 ^^^ rotr x 18 ^^^ (x >>> 3)
    let s1 := rotr y 17 ^^^ rotr y 19 ^^^ (y >>> 10)
    w :: schedule count (rest ++ [w + s0 + rest.getD 8 0 + s1])

def round (r : Registers) (kw : UInt32 × UInt32) : Registers :=
  let s1 := rotr r.e 6 ^^^ rotr r.e 11 ^^^ rotr r.e 25
  let choice := (r.e &&& r.f) ^^^ ((~~~r.e) &&& r.g)
  let t1 := r.h + s1 + choice + kw.1 + kw.2
  let s0 := rotr r.a 2 ^^^ rotr r.a 13 ^^^ rotr r.a 22
  let majority := (r.a &&& r.b) ^^^ (r.a &&& r.c) ^^^ (r.b &&& r.c)
  ⟨t1 + (s0 + majority), r.a, r.b, r.c, r.d + t1, r.e, r.f, r.g⟩

def absorb (r : Registers) (block : Bytes) : Registers :=
  let t := (roundConstants.zip (schedule 64 (words block))).foldl round r
  ⟨r.a + t.a, r.b + t.b, r.c + t.c, r.d + t.d, r.e + t.e, r.f + t.f, r.g + t.g, r.h + t.h⟩

def Registers.toBytes (r : Registers) : Bytes :=
  [r.a, r.b, r.c, r.d, r.e, r.f, r.g, r.h].flatMap fun w => Bytes.ofNatBE 4 w.toNat

/-- The 32 bytes of the digest. -/
def digest (message : Bytes) : Bytes :=
  ((Bytes.pieces 64 (pad message)).foldl absorb start).toBytes

@[simp] theorem length_digest (message : Bytes) : (digest message).length = 32 := by
  simp [digest, Registers.toBytes]

end NodeQuorum.Digest.Sha256
