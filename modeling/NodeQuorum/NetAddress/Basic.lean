/-
  NodeQuorum.NetAddress.Basic — network addresses, their text and what kind of host they name.

  An IPv4 address is written as four decimal octets. An IPv6 address is written as eight groups of
  lower-case hexadecimal digits, the longest run of two or more zero groups as a double colon (the
  first such run on a tie); an IPv4 address mapped into IPv6 keeps its octets.
-/

import NodeQuorum.Bytes
import NodeQuorum.Table

namespace NodeQuorum

/-- The address of a host. -/
inductive IpAddress where
  | v4 (bits : BitVec 32)
  | v6 (bits : BitVec 128)
  deriving DecidableEq, Repr

namespace IpAddress

/-- A number of its own for every address; IPv4 comes first. -/
def key : IpAddress → Nat
  | v4 bits => bits.toNat
  | v6 bits => 2 ^ 32 + bits.toNat

theorem key_inj {a b : IpAddress} (h : a.key = b.key) : a = b := by
  cases a with
  | v4 x =>
    cases b with
    | v4 y => exact congrArg v4 (BitVec.eq_of_toNat_eq h)
    | v6 y => have := x.isLt; simp only [key] at h; omega
  | v6 x =>
    cases b with
    | v4 y => have := y.isLt; simp only [key] at h; omega
    | v6 y => exact congrArg v6 (BitVec.eq_of_toNat_eq (by simp only [key] at h; omega))

instance : Ord IpAddress := ⟨compareOn key⟩

instance : Std.TransOrd IpAddress := inferInstanceAs (Std.TransCmp (compareOn key))

instance : Std.LawfulEqOrd IpAddress where
  compare_self := Std.ReflOrd.compare_self (α := Nat)
  eq_of_compare h := key_inj (Std.LawfulEqOrd.eq_of_compare (α := Nat) h)

/-- The four octets of an IPv4 address. -/
def octets (bits : BitVec 32) : List Nat :=
  [bits.toNat / 2 ^ 24, bits.toNat / 2 ^ 16 % 256, bits.toNat / 2 ^ 8 % 256, bits.toNat % 256]

def ofOctets (octets : List Nat) : BitVec 32 := BitVec.ofNat 32 (octets.foldl (fun n o => 256 * n + o) 0)

/-- The eight groups of an IPv6 address. -/
def groups (bits : BitVec 128) : List Nat :=
  [7, 6, 5, 4, 3, 2, 1, 0].map fun i => bits.toNat / 2 ^ (16 * i) % 2 ^ 16

def ofGroups (groups : List Nat) : BitVec 128 :=
  BitVec.ofNat 128 (groups.foldl (fun n g => 2 ^ 16 * n + g) 0)

def octetsText (bits : BitVec 32) : String := ".".intercalate ((octets bits).map toString)

def groupText (group : Nat) : String := String.ofList (Nat.toDigits 16 group)

def groupsText (groups : List Nat) : String := ":".intercalate (groups.map groupText)

/-- The start and length of the longest run of zeros, the first one on a tie. -/
def longestZeros (groups : List Nat) : Nat × Nat :=
  go 0 (0, 0) (0, 0) groups
where
  /-- `run` is the run that ends before `index`. -/
  go (index : Nat) (run best : Nat × Nat) : List Nat → Nat × Nat
    | [] => best
    | group :: rest =>
      if group = 0 then
        let run := if run.2 = 0 then (index, 1) else (run.1, run.2 + 1)
        go (index + 1) run (if best.2 < run.2 then run else best) rest
      else go (index + 1) (0, 0) best rest

/-- The text of an address. -/
def text : IpAddress → String
  | v4 bits => octetsText bits
  | v6 bits =>
    if bits.toNat / 2 ^ 32 = 0xffff then "::ffff:" ++ octetsText (bits.truncate 32)
    else
      let gs := groups bits
      let (start, length) := longestZeros gs
      if 1 < length then groupsText (gs.take start) ++ "::" ++ groupsText (gs.drop (start + length))
      else groupsText gs

/-- Loopback, unspecified, or in one of the private IPv4 ranges. -/
def isLocal : IpAddress → Bool
  | v4 bits =>
    let n := bits.toNat
    n / 2 ^ 24 = 127 || n / 2 ^ 24 = 10 || n / 2 ^ 20 = 172 * 16 + 1 || n / 2 ^ 16 = 192 * 256 + 168 || n = 0
  | v6 bits => bits.toNat = 1 || bits.toNat = 0

/-- An IPv4 address that the public network routes to one host. -/
def isPublicV4 (ip : IpAddress) : Bool :=
  match ip with
  | v4 bits => !ip.isLocal && bits.toNat != 2 ^ 32 - 1 && bits.toNat / 2 ^ 16 != 169 * 256 + 254
  | v6 _ => false

end IpAddress

/-- Where a node listens: a host, a port and, for IPv6, the zone the address is meant in. -/
structure NetAddress where
  ip : IpAddress
  port : UInt16
  zone : UInt32
  deriving DecidableEq, Repr

namespace NetAddress

/-- The text of an address; IPv6 stands in brackets, and a zone other than zero follows a percent
sign. -/
def text (a : NetAddress) : String :=
  match a.ip with
  | .v4 _ => a.ip.text ++ ":" ++ toString a.port.toNat
  | .v6 _ =>
    let zone := if a.zone = 0 then "" else "%" ++ toString a.zone.toNat
    "[" ++ a.ip.text ++ zone ++ "]:" ++ toString a.port.toNat

end NetAddress
end NodeQuorum
