/-
  NodeQuorum.Bytes — byte strings, and numbers written as a fixed count of bytes.

  A number is written least significant byte first (`ofNatLE`) or most significant byte first
  (`ofNatBE`); what does not fit in the count is dropped. Reading back gives the number modulo
  `256 ^ count` (`toNatLE_ofNatLE`, `toNatBE_ofNatBE`).
-/

namespace NodeQuorum

/-- A power of a number is the number's own, whatever algebra stands beside it. -/
@[default_instance 20000]
instance (priority := 20000) natPow : Pow Nat Nat := instPowNat

/-- A string of bytes: a script, a signature, an encoded object. -/
abbrev Bytes := List UInt8

namespace Bytes

/-- The low `count` bytes of a number, least significant first. -/
def ofNatLE : (count : Nat) → Nat → Bytes
  | 0, _ => []
  | count + 1, n => UInt8.ofNat n :: ofNatLE count (n / 256)

/-- The number whose bytes are given, least significant first. -/
def toNatLE : Bytes → Nat
  | [] => 0
  | b :: rest => b.toNat + 256 * toNatLE rest

/-- The low `count` bytes of a number, most significant first. -/
def ofNatBE (count n : Nat) : Bytes := (ofNatLE count n).reverse

/-- The number whose bytes are given, most significant first. -/
def toNatBE (bytes : Bytes) : Nat := toNatLE bytes.reverse

/-- A signed number in two's complement, least significant byte first. -/
def ofIntLE (count : Nat) (i : Int) : Bytes := ofNatLE count (i % (256 ^ count : Nat)).toNat

/-- Cuts a byte string into pieces of `size` bytes; the last piece may be shorter. -/
def pieces (size : Nat) (bytes : Bytes) : List Bytes :=
  go bytes.length bytes
where
  /-- Each piece takes at least one byte, so as many steps as there are bytes suffice. -/
  go : Nat → Bytes → List Bytes
    | 0, _ => []
    | _ + 1, [] => []
    | fuel + 1, b :: rest => (b :: rest).take size :: go fuel ((b :: rest).drop size)

/-- The bytes a text is stored as. -/
def ofText (text : String) : Bytes := text.toUTF8.data.toList

@[simp] theorem length_ofNatLE (count n : Nat) : (ofNatLE count n).length = count := by
  induction count generalizing n with
  | zero => rfl
  | succ count ih => simp [ofNatLE, ih]

@[simp] theorem length_ofNatBE (count n : Nat) : (ofNatBE count n).length = count := by
  simp [ofNatBE]

@[simp] theorem length_ofIntLE (count : Nat) (i : Int) : (ofIntLE count i).length = count := by
  simp [ofIntLE]

/-- Reading back what was written gives the number modulo `256 ^ count`. -/
theorem toNatLE_ofNatLE (count n : Nat) : toNatLE (ofNatLE count n) = n % 256 ^ count := by
  induction count generalizing n with
  | zero => simp [ofNatLE, toNatLE, Nat.mod_one]
  | succ count ih =>
    simp only [ofNatLE, toNatLE, ih, UInt8.toNat_ofNat']
    rw [show 256 ^ (count + 1) = 256 * 256 ^ count by rw [Nat.pow_succ, Nat.mul_comm], Nat.mod_mul]

theorem toNatBE_ofNatBE (count n : Nat) : toNatBE (ofNatBE count n) = n % 256 ^ count := by
  simp [toNatBE, ofNatBE, toNatLE_ofNatLE]

theorem toNatLE_lt (bytes : Bytes) : toNatLE bytes < 256 ^ bytes.length := by
  induction bytes with
  | nil => simp [toNatLE]
  | cons b rest ih =>
    have hb := b.toNat_lt
    simp only [toNatLE, List.length_cons, Nat.pow_succ]
    omega

/-- A byte string is the number it stands for, written in as many bytes. -/
theorem ofNatLE_toNatLE (bytes : Bytes) : ofNatLE bytes.length (toNatLE bytes) = bytes := by
  induction bytes with
  | nil => rfl
  | cons b rest ih =>
    have hb := b.toNat_lt
    have hq : (b.toNat + 256 * toNatLE rest) / 256 = toNatLE rest := by omega
    have hr : UInt8.ofNat (b.toNat + 256 * toNatLE rest) = b := by
      apply UInt8.toNat_inj.mp
      simp only [UInt8.toNat_ofNat']
      omega
    simp only [toNatLE, List.length_cons, ofNatLE, hq, hr, ih]

end Bytes
end NodeQuorum
