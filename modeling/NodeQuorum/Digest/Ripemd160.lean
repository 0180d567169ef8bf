/-
  NodeQuorum.Digest.Ripemd160 — the RIPEMD-160 digest.

  Each block runs through two lines of eighty steps that take the sixteen words in different orders;
  the lines meet when their registers are added crosswise to the state.
-/

import NodeQuorum.Bytes

namespace NodeQuorum.Digest.Ripemd160

/-- Which word of the block each step of the left line takes. -/
def leftOrder : List Nat :=
  [0, 1, 2, 3, 4, 5, 6, 7, 8, 9, 10, 11, 12, 13, 14, 15,
   7, 4, 13, 1, 10, 6, 15, 3, 12, 0, 9, 5, 2, 14, 11, 8,
   3, 10, 14, 4, 9, 15, 8, 1, 2, 7, 0, 6, 13, 11, 5, 12,
   1, 9, 11, 10, 0, 8, 12, 4, 13, 3, 7, 15, 14, 5, 6, 2,
   4, 0, 5, 9, 7, 12, 2, 10, 14, 1, 3, 8, 11, 6, 15, 13]

/-- Which word of the block each step of the right line takes. -/
def rightOrder : List Nat :=
  [5, 14, 7, 0, 9, 2, 11, 4, 13, 6, 15, 8, 1, 10, 3, 12,
   6, 11, 3, 7, 0, 13, 5, 10, 14, 15, 8, 12, 4, 9, 1, 2,
   15, 5, 1, 3, 7, 14, 6, 9, 11, 8, 12, 2, 10, 0, 4, 13,
   8, 6, 4, 1, 3, 11, 15, 0, 5, 12, 2, 13, 9, 7, 10, 14,
   12, 15, 10, 4, 1, 5, 8, 7, 6, 2, 13, 14, 0, 3, 9, 11]

/-- How far each step of the left line rotates. -/
def leftShift : List UInt32 :=
  [11, 14, 15, 12, 5, 8, 7, 9, 11, 13, 14, 15, 6, 7, 9, 8,
   7, 6, 8, 13, 11, 9, 7, 15, 7, 12, 15, 9, 11, 7, 13, 12,
   11, 13, 6, 7, 14, 9, 13, 15, 14, 8, 13, 6, 5, 12, 7, 5,
   11, 12, 14, 15, 14, 15, 9, 8, 9, 14, 5, 6, 8, 6, 5, 12,
   9, 15, 5, 11, 6, 8, 13, 12, 5, 12, 13, 14, 11, 8, 5, 6]

/-- How far each step of the right line rotates. -/
def rightShift : List UInt32 :=
  [8, 9, 9, 11, 13, 15, 15, 5, 7, 7, 8, 11, 14, 14, 12, 6,
   9, 13, 15, 7, 12, 8, 9, 11, 7, 7, 12, 7, 6, 15, 13, 11,
   9, 7, 15, 11, 8, 6, 6, 14, 12, 13, 5, 14, 13, 13, 7, 5,
   15, 5, 8, 11, 14, 14, 6, 14, 6, 9, 12, 9, 12, 5, 15, 8,
   8, 5, 12, 9, 12, 5, 14, 6, 8, 13, 6, 5, 15, 13, 11, 11]

/-- The five boolean functions, one for each stretch of sixteen steps. -/
def mix (stretch : Nat) (x y z : UInt32) : UInt32 :=
  match stretch with
  | 0 => x ^^^ y ^^^ z
  | 1 => (x &&& y) ||| ((~~~x) &&& z)
  | 2 => (x ||| ~~~y) ^^^ z
  | 3 => (x &&& z) ||| (y &&& ~~~z)
  | _ => x ^^^ (y ||| ~~~z)

def leftConstant (stretch : Nat) : UInt32 :=
  [0x00000000, 0x5a827999, 0x6ed9eba1, 0x8f1bbcdc, 0xa953fd4e].getD stretch 0

def rightConstant (stretch : Nat) : UInt32 :=
  [0x50a28be6, 0x5c4dd124, 0x6d703ef3, 0x7a6d76e9, 0x00000000].getD stretch 0

/-- The five registers of one line. -/
structure Registers where
  a : UInt32
  b : UInt32
  c : UInt32
  d : UInt32
  e : UInt32

def start : Registers := ⟨0x67452301, 0xefcdab89, 0x98badcfe, 0x10325476, 0xc3d2e1f0⟩

def rotl (x : UInt32) (n : UInt32) : UInt32 := (x <<< n) ||| (x >>> (32 - n))

def words (block : Bytes) : List UInt32 :=
  (Bytes.pieces 4 block).map fun w => UInt32.ofNat (Bytes.toNatLE w)

/-- One step: the boolean value and the word enter `a`, and the registers turn by one place. -/
def step (value constant word shift : UInt32) (r : Registers) : Registers :=
  ⟨r.e, rotl (r.a + value + word + constant) shift + r.e, r.b, rotl r.c 10, r.d⟩

/-- Runs the steps of one line, numbered from `index`. -/
def line (ws : List UInt32) (func : Nat → UInt32 → UInt32 → UInt32 → UInt32)
    (constant : Nat → UInt32) : (index : Nat) → List (Nat × UInt32) → Registers → Registers
  | _, [], r => r
  | index, (word, shift) :: rest, r =>
    let stretch := index / 16
    line ws func constant (index + 1) rest
      (step (func stretch r.b r.c r.d) (constant stretch) (ws.getD word 0) shift r)

def absorb (r : Registers) (block : Bytes) : Registers :=
  let ws := words block
  let left := line ws mix leftConstant 0 (leftOrder.zip leftShift) r
  let right := line ws (fun stretch => mix (4 - stretch)) rightConstant 0 (rightOrder.zip rightShift) r
  ⟨r.b + left.c + right.d, r.c + left.d + right.e, r.d + left.e + right.a,
   r.e + left.a + right.b, r.a + left.b + right.c⟩

/-- The message with a one bit, zeros and its length in bits, a whole number of blocks long. -/
def pad (message : Bytes) : Bytes :=
  let zeros := (119 - message.length % 64) % 64
  message ++ 0x80 :: List.replicate zeros 0 ++ Bytes.ofNatLE 8 (8 * message.length)

def Registers.toBytes (r : Registers) : Bytes :=
  [r.a, r.b, r.c, r.d, r.e].flatMap fun w => Bytes.ofNatLE 4 w.toNat

/-- The 20 bytes of the digest. -/
def digest (message : Bytes) : Bytes :=
  ((Bytes.pieces 64 (pad message)).foldl absorb start).toBytes

@[simp] theorem length_digest (message : Bytes) : (digest message).length = 20 := by
  simp [digest, Registers.toBytes]

end NodeQuorum.Digest.Ripemd160
