/-
  NodeQuorum.Digest.Blake3 — the BLAKE3 hash with a 32-byte output.

  The input is cut into chunks of 1024 bytes, each hashed block by block to a chaining value; the
  chaining values are joined in pairs to a binary tree whose left halves are full. The stack of
  finished subtrees holds one value for each set bit of the number of chunks already hashed.
-/

import NodeQuorum.Bytes

namespace NodeQuorum.Digest.Blake3

/-- Four words that one step of the mixing handles side by side. -/
structure Row where
  w0 : UInt32
  w1 : UInt32
  w2 : UInt32
  w3 : UInt32

namespace Row

def add (x y : Row) : Row := ⟨x.w0 + y.w0, x.w1 + y.w1, x.w2 + y.w2, x.w3 + y.w3⟩

def rotrWord (x : UInt32) (n : UInt32) : UInt32 := (x >>> n) ||| (x <<< (32 - n))

/-- Exclusive or, then a rotation of every word. -/
def xorRotr (x y : Row) (n : UInt32) : Row :=
  ⟨rotrWord (x.w0 ^^^ y.w0) n, rotrWord (x.w1 ^^^ y.w1) n,
   rotrWord (x.w2 ^^^ y.w2) n, rotrWord (x.w3 ^^^ y.w3) n⟩

def xor (x y : Row) : Row := ⟨x.w0 ^^^ y.w0, x.w1 ^^^ y.w1, x.w2 ^^^ y.w2, x.w3 ^^^ y.w3⟩

/-- The words moved left by one place. -/
def turn1 (x : Row) : Row := ⟨x.w1, x.w2, x.w3, x.w0⟩

/-- The words moved left by two places. -/
def turn2 (x : Row) : Row := ⟨x.w2, x.w3, x.w0, x.w1⟩

/-- The words moved left by three places. -/
def turn3 (x : Row) : Row := ⟨x.w3, x.w0, x.w1, x.w2⟩

def toBytes (x : Row) : Bytes :=
  [x.w0, x.w1, x.w2, x.w3].flatMap fun w => Bytes.ofNatLE 4 w.toNat

end Row

/-- A chaining value: eight words. -/
structure Chain where
  low : Row
  high : Row

def Chain.toBytes (v : Chain) : Bytes := v.low.toBytes ++ v.high.toBytes

/-- The sixteen words of a block, in the order in which the next round takes them: `even` and `odd`
feed the columns, `evenHigh` and `oddHigh` the diagonals. -/
structure Block where
  even : Row
  odd : Row
  evenHigh : Row
  oddHigh : Row

def startLow : Row := ⟨0x6a09e667, 0xbb67ae85, 0x3c6ef372, 0xa54ff53a⟩

def startHigh : Row := ⟨0x510e527f, 0x9b05688c, 0x1f83d9ab, 0x5be0cd19⟩

def start : Chain := ⟨startLow, startHigh⟩

/-- The words of a block, short ones filled up with zeros. -/
def Block.ofBytes (bytes : Bytes) : Block :=
  let ws := (Bytes.pieces 4 bytes).map fun w => UInt32.ofNat (Bytes.toNatLE w)
  let w := fun i => ws.getD i 0
  ⟨⟨w 0, w 2, w 4, w 6⟩, ⟨w 1, w 3, w 5, w 7⟩, ⟨w 8, w 10, w 12, w 14⟩, ⟨w 9, w 11, w 13, w 15⟩⟩

/-- The block of a parent node: its two children side by side. -/
def Block.ofChildren (left right : Chain) : Block :=
  ⟨⟨left.low.w0, left.low.w2, left.high.w0, left.high.w2⟩,
   ⟨left.low.w1, left.low.w3, left.high.w1, left.high.w3⟩,
   ⟨right.low.w0, right.low.w2, right.high.w0, right.high.w2⟩,
   ⟨right.low.w1, right.low.w3, right.high.w1, right.high.w3⟩⟩

/-- The fixed permutation of the sixteen words between two rounds. -/
def Block.permute (m : Block) : Block :=
  let ⟨⟨m0, m2, m4, m6⟩, ⟨m1, m3, m5, m7⟩, ⟨m8, m10, m12, m14⟩, ⟨m9, m11, m13, m15⟩⟩ := m
  -- word order after the permutation: 2 6 3 10 7 0 4 13 1 11 12 5 9 14 15 8
  ⟨⟨m2, m3, m7, m4⟩, ⟨m6, m10, m0, m13⟩, ⟨m1, m12, m9, m15⟩, ⟨m11, m5, m14, m8⟩⟩

/-- The four rows of the mixing state. -/
structure State where
  a : Row
  b : Row
  c : Row
  d : Row

/-- Mixes the four columns with two message words each. -/
def State.mix (s : State) (x y : Row) : State :=
  let a := (s.a.add s.b).add x
  let d := s.d.xorRotr a 16
  let c := s.c.add d
  let b := s.b.xorRotr c 12
  let a := (a.add b).add y
  let d := d.xorRotr a 8
  let c := c.add d
  let b := b.xorRotr c 7
  ⟨a, b, c, d⟩

/-- A round: the columns, then the diagonals. -/
def State.round (s : State) (m : Block) : State :=
  let s := s.mix m.even m.odd
  let s := State.mix ⟨s.a, s.b.turn1, s.c.turn2, s.d.turn3⟩ m.evenHigh m.oddHigh
  ⟨s.a, s.b.turn3, s.c.turn2, s.d.turn1⟩

def State.rounds : (count : Nat) → State → Block → State
  | 0, s, _ => s
  | count + 1, s, m => State.rounds count (s.round m) m.permute

def flagChunkStart : UInt32 := 1
def flagChunkEnd : UInt32 := 2
def flagParent : UInt32 := 4
def flagRoot : UInt32 := 8

/-- Seven rounds over the state made of the chaining value and the block's place in the tree. -/
def compress (v : Chain) (m : Block) (counter length : Nat) (flags : UInt32) : Chain :=
  let s : State :=
    ⟨v.low, v.high, startLow,
     ⟨UInt32.ofNat counter, UInt32.ofNat (counter / 2 ^ 32), UInt32.ofNat length, flags⟩⟩
  let s := s.rounds 7 m
  ⟨s.a.xor s.c, s.b.xor s.d⟩

/-- The last compression of a node, held back until it is known whether the node is the root. -/
structure Node where
  chain : Chain
  block : Block
  counter : Nat
  length : Nat
  flags : UInt32

def Node.value (n : Node) : Chain := compress n.chain n.block n.counter n.length n.flags

def Node.root (n : Node) : Chain := compress n.chain n.block 0 n.length (n.flags ||| flagRoot)

/-- Hashes the blocks of one chunk; the last one is held back. -/
def chunkNode (counter : Nat) : Chain → (startFlag : UInt32) → List Bytes → Node
  | v, startFlag, [] => ⟨v, Block.ofBytes [], counter, 0, startFlag ||| flagChunkEnd⟩
  | v, startFlag, [last] =>
    ⟨v, Block.ofBytes last, counter, last.length, startFlag ||| flagChunkEnd⟩
  | v, startFlag, block :: next :: rest =>
    chunkNode counter (compress v (Block.ofBytes block) counter block.length startFlag) 0 (next :: rest)

def chunk (counter : Nat) (bytes : Bytes) : Node :=
  chunkNode counter start flagChunkStart (Bytes.pieces 64 bytes)

def parent (left right : Chain) : Node := ⟨start, Block.ofChildren left right, 0, 64, flagParent⟩

/-- Adds a finished subtree of `2 ^ level` chunks, joining equals as a binary counter carries. -/
def carry : Nat → Chain → List (Nat × Chain) → List (Nat × Chain)
  | level, v, [] => [(level, v)]
  | level, v, (l, left) :: rest =>
    if l = level then carry (level + 1) (parent left v).value rest else (level, v) :: (l, left) :: rest

/-- Joins the last node with every finished subtree to its left. -/
def close (last : Node) : List (Nat × Chain) → Node
  | [] => last
  | (_, left) :: rest => close (parent left last.value) rest

/-- Hashes the chunks from the left; the last is joined with what was finished before it. -/
def tree : (counter : Nat) → List (Nat × Chain) → List Bytes → Node
  | counter, stack, [] => close (chunk counter []) stack
  | counter, stack, [last] => close (chunk counter last) stack
  | counter, stack, piece :: next :: rest =>
    tree (counter + 1) (carry 0 (chunk counter piece).value stack) (next :: rest)

/-- The 32 bytes of the hash. -/
def digest (message : Bytes) : Bytes :=
  (tree 0 [] (Bytes.pieces 1024 message)).root.toBytes

@[simp] theorem length_digest (message : Bytes) : (digest message).length = 32 := by
  simp [digest, Chain.toBytes, Row.toBytes]

end NodeQuorum.Digest.Blake3
