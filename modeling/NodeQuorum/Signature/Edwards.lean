/-
  NodeQuorum.Signature.Edwards — the twisted Edwards curve of Ed25519.

  The curve is `-x² + y² = 1 + d·x²·y²` over the integers modulo `2^255 - 19`. Points are kept in
  extended coordinates, so adding needs no division. The text of a point is its `y`, with the parity
  of `x` in the top bit of 32 bytes written least significant first.
-/

import NodeQuorum.Bytes

namespace NodeQuorum.Signature.Edwards

/-- The field prime. -/
def p : Nat := 57896044618658097711785492504343953926634992332820282019728792003956564819949

/-- The order of the base point. -/
def order : Nat := 7237005577332262213973186563042994240857116359379907606001950938285454250989

/-- The curve constant `-121665/121666`. -/
def d : Nat := 37095705934669439343138083508754565189542113879843219016388785533085940283555

/-- A square root of `-1`. -/
def sqrtMinusOne : Nat :=
  19681161376707505956807079304988542015446066515923890162744021073123829784752

def add (x y : Nat) : Nat := (x + y) % p

def sub (x y : Nat) : Nat := (x + (p - y)) % p

def mul (x y : Nat) : Nat := x * y % p

/-- `x ^ n` by squaring, over the low `bits` bits of `n`. -/
def pow : (bits : Nat) → Nat → (n : Nat) → Nat
  | 0, _, _ => 1
  | bits + 1, x, n =>
    let half := pow bits x (n / 2)
    let square := mul half half
    if n % 2 = 1 then mul square x else square

/-- The inverse of a number other than zero. -/
def inv (x : Nat) : Nat := pow 255 x (p - 2)

/-- A point `(x / z, y / z)` with `t = x·y / z`. -/
structure Point where
  x : Nat
  y : Nat
  z : Nat
  t : Nat
deriving DecidableEq, Repr

namespace Point

def zero : Point := ⟨0, 1, 1, 0⟩

/-- The base point, whose `y` is `4/5`. -/
def base : Point :=
  ⟨15112221349535400772501151409588531511454012693041857206046113283949847762202,
   46316835694926478169428394003475163141307993866256225615783033603165251855960, 1,
   46827403850823179245072216630277197565144205554125654976674165829533817101731⟩

def plus (u v : Point) : Point :=
  let a := mul (sub u.y u.x) (sub v.y v.x)
  let b := mul (add u.y u.x) (add v.y v.x)
  let c := mul (mul u.t (add d d)) v.t
  let z := mul (add u.z u.z) v.z
  let e := sub b a
  let f := sub z c
  let g := add z c
  let h := add b a
  ⟨mul e f, mul g h, mul f g, mul e h⟩

def double (u : Point) : Point :=
  let a := mul u.x u.x
  let b := mul u.y u.y
  let zz := mul u.z u.z
  let c := add zz zz
  let h := add a b
  let s := add u.x u.y
  let e := sub h (mul s s)
  let g := sub a b
  let f := add c g
  ⟨mul e f, mul g h, mul f g, mul e h⟩

def neg (u : Point) : Point := ⟨sub 0 u.x, u.y, u.z, sub 0 u.t⟩

/-- `n` times a point, over the low `bits` bits of `n`. -/
def times : (bits : Nat) → (n : Nat) → Point → Point
  | 0, _, _ => zero
  | bits + 1, n, u =>
    let twice := (times bits (n / 2) u).double
    if n % 2 = 1 then twice.plus u else twice

/-- The 32 bytes of a point. -/
def compress (u : Point) : Bytes :=
  let zInv := inv u.z
  let x := mul u.x zInv
  let y := mul u.y zInv
  Bytes.ofNatLE 32 (y + x % 2 * 2 ^ 255)

/-- The point with the given `y` and parity of `x`; none if no `x` belongs to `y`. The number `y` is
taken modulo the prime, and the parity is ignored where `x` is zero. -/
def decompress (bytes : Bytes) : Option Point :=
  let n := Bytes.toNatLE bytes
  let y := n % 2 ^ 255 % p
  let yy := mul y y
  let u := sub yy 1
  let v := add (mul d yy) 1
  let v3 := mul (mul v v) v
  let v7 := mul (mul v3 v3) v
  let r := mul (mul u v3) (pow 255 (mul u v7) ((p - 5) / 8))
  let check := mul v (mul r r)
  let root := if check = u then some r else if check = sub 0 u then some (mul r sqrtMinusOne) else none
  root.map fun x =>
    let x := if x % 2 = n / 2 ^ 255 % 2 then x else sub 0 x
    ⟨x, y, 1, mul x y⟩

end Point
end NodeQuorum.Signature.Edwards
