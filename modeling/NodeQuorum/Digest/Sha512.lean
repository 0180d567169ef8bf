/-
  NodeQuorum.Digest.Sha512 — the SHA-512 digest of FIPS 180-4.

  As SHA-256, with words of 64 bits, blocks of 128 bytes and eighty rounds.
-/

import NodeQuorum.Bytes

namespace NodeQuorum.Digest.Sha512

/-- The round constants: the first 64 fractional bits of the cube roots of the first 80 primes. -/
def roundConstants : List UInt64 :=
  [0x428a2f98d728ae22, 0x7137449123ef65cd, 0xb5c0fbcfec4d3b2f, 0xe9b5dba58189dbbc,
   0x3956c25bf348b538, 0x59f111f1b605d019, 0x923f82a4af194f9b, 0xab1c5ed5da6d8118,
   0xd807aa98a3030242, 0x12835b0145706fbe, 0x243185be4ee4b28c, 0x550c7dc3d5ffb4e2,
   0x72be5d74f27b896f, 0x80deb1fe3b1696b1, 0x9bdc06a725c71235, 0xc19bf174cf692694,
   0xe49b69c19ef14ad2, 0xefbe4786384f25e3, 0x0fc19dc68b8cd5b5, 0x240ca1cc77ac9c65,
   0x2de92c6f592b0275, 0x4a7484aa6ea6e483, 0x5cb0a9dcbd41fbd4, 0x76f988da831153b5,
   0x983e5152ee66dfab, 0xa831c66d2db43210, 0xb00327c898fb213f, 0xbf597fc7beef0ee4,
   0xc6e00bf33da88fc2, 0xd5a79147930aa725, 0x06ca6351e003826f, 0x142929670a0e6e70,
   0x27b70a8546d22ffc, 0x2e1b21385c26c926, 0x4d2c6dfc5ac42aed, 0x53380d139d95b3df,
   0x650a73548baf63de, 0x766a0abb3c77b2a8, 0x81c2c92e47edaee6, 0x92722c851482353b,
   0xa2bfe8a14cf10364, 0xa81a664bbc423001, 0xc24b8b70d0f89791, 0xc76c51a30654be30,
   0xd192e819d6ef5218, 0xd69906245565a910, 0xf40e35855771202a, 0x106aa07032bbd1b8,
   0x19a4c116b8d2d0c8, 0x1e376c085141ab53, 0x2748774cdf8eeb99, 0x34b0bcb5e19b48a8,
   0x391c0cb3c5c95a63, 0x4ed8aa4ae3418acb, 0x5b9cca4f7763e373, 0x682e6ff3d6b2b8a3,
   0x748f82ee5defb2fc, 0x78a5636f43172f60, 0x84c87814a1f0ab72, 0x8cc702081a6439ec,
   0x90befffa23631e28, 0xa4506cebde82bde9, 0xbef9a3f7b2c67915, 0xc67178f2e372532b,
   0xca273eceea26619c, 0xd186b8c721c0c207, 0xeada7dd6cde0eb1e, 0xf57d4f7fee6ed178,
   0x06f067aa72176fba, 0x0a637dc5a2c898a6, 0x113f9804bef90dae, 0x1b710b35131c471b,
   0x28db77f523047d84, 0x32caab7b40c72493, 0x3c9ebe0a15c9bebc, 0x431d67c49c100d4c,
   0x4cc5d4becb3e42b6, 0x597f299cfc657e2a, 0x5fcb6fab3ad6faec, 0x6c44198c4a475817]

/-- The eight working registers. -/
structure Registers where
  a : UInt64
  b : UInt64
  c : UInt64
  d : UInt64
  e : UInt64
  f : UInt64
  g : UInt64
  h : UInt64

/-- The start value: the fractional bits of the square roots of the first eight primes. -/
def start : Registers :=
  ⟨0x6a09e667f3bcc908, 0xbb67ae8584caa73b, 0x3c6ef372fe94f82b, 0xa54ff53a5f1d36f1,
   0x510e527fade682d1, 0x9b05688c2b3e6c1f, 0x1f83d9abfb41bd6b, 0x5be0cd19137e2179⟩

def rotr (x : UInt64) (n : UInt64) : UInt64 := (x >>> n) ||| (x <<< (64 - n))

/-- The message with a one bit, zeros and its length in bits, a whole number of blocks long. -/
def pad (message : Bytes) : Bytes :=
  let zeros := (239 - message.length % 128) % 128
  message ++ 0x80 :: List.replicate zeros 0 ++ Bytes.ofNatBE 16 (8 * message.length)

def words (block : Bytes) : List UInt64 :=
  (Bytes.pieces 8 block).map fun w => UInt64.ofNat (Bytes.toNatBE w)

/-- The first `count` words of the stretched block, from a window of the next sixteen. -/
def schedule : (count : Nat) → List UInt64 → List UInt64
  | 0, _ => []
  | _ + 1, [] => []
  | count + 1, w :: rest =>
    let x := rest.getD 0 0
    let y := rest.getD 13 0
    let s0 := rotr x 1 ^^^ rotr x 8 ^^^ (x >>> 7)
    let s1 := rotr y 19 ^^^ rotr y 61 ^^^ (y >>> 6)
    w :: schedule count (rest ++ [w + s0 + rest.getD 8 0 + s1])

def round (r : Registers) (kw : UInt64 × UInt64) : Registers :=
  let s1 := rotr r.e 14 ^^^ rotr r.e 18 ^^^ rotr r.e 41
  let choice := (r.e &&& r.f) ^^^ ((~~~r.e) &&& r.g)
  let t1 := r.h + s1 + choice + kw.1 + kw.2
  let s0 := rotr r.a 28 ^^^ rotr r.a 34 ^^^ rotr r.a 39
  let majority := (r.a &&& r.b) ^^^ (r.a &&& r.c) ^^^ (r.b &&& r.c)
  ⟨t1 + (s0 + majority), r.a, r.b, r.c, r.d + t1, r.e, r.f, r.g⟩

def absorb (r : Registers) (block : Bytes) : Registers :=
  let t := (roundConstants.zip (schedule 80 (words block))).foldl round r
  ⟨r.a + t.a, r.b + t.b, r.c + t.c, r.d + t.d, r.e + t.e, r.f + t.f, r.g + t.g, r.h + t.h⟩

def Registers.toBytes (r : Registers) : Bytes :=
  [r.a, r.b, r.c, r.d, r.e, r.f, r.g, r.h].flatMap fun w => Bytes.ofNatBE 8 w.toNat

/-- The 64 bytes of the digest. -/
def digest (message : Bytes) : Bytes :=
  ((Bytes.pieces 128 (pad message)).foldl absorb start).toBytes

@[simp] theorem length_digest (message : Bytes) : (digest message).length = 64 := by
  simp [digest, Registers.toBytes]

end NodeQuorum.Digest.Sha512
