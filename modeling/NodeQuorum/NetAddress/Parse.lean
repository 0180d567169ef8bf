/-
  NodeQuorum.NetAddress.Parse — addresses read from text.

  Octets have at most three digits and no leading zero. Groups have at most four hexadecimal digits.
  One double colon stands for one or more zero groups, and the last two groups may be written as an
  IPv4 address. The whole text has to be an address.
-/

import NodeQuorum.NetAddress.Basic
import NodeQuorum.Text.Reader

namespace NodeQuorum

namespace NetAddress.Parse

open Text Text.Reader

/-- At most three digits, and a leading zero only alone. -/
def octet : Reader Nat := number 10 256 fun ds => ds.length ≤ 3 && (ds.head? != some 0 || ds.length == 1)

/-- At most four hexadecimal digits. -/
def group : Reader Nat := number 16 (2 ^ 16) fun ds => ds.length ≤ 4

/-- A separator, unless this is the first item. -/
def separator (first : Bool) (c : Char) : Reader Unit := fun text => if first then some ((), text) else char c text

def v4 : Reader (List Nat) := fun text => do
  let (a, text) ← octet text
  let (_, text) ← char '.' text
  let (b, text) ← octet text
  let (_, text) ← char '.' text
  let (c, text) ← octet text
  let (_, text) ← char '.' text
  let (d, text) ← octet text
  some ([a, b, c, d], text)

/-- An IPv4 address behind the separator, as two groups. -/
def v4Groups (first : Bool) : Reader (List Nat) := fun text => do
  let (_, text) ← separator first ':' text
  let (octets, text) ← v4 text
  let n := (IpAddress.ofOctets octets).toNat
  some ([n / 2 ^ 16, n % 2 ^ 16], text)

/-- As many groups as there are, at most `limit`; true if the last two were an IPv4 address. -/
def groups : (limit : Nat) → (first : Bool) → List Char → List Nat × Bool × List Char
  | 0, _, text => ([], false, text)
  | limit + 1, first, text =>
    match if 1 ≤ limit then v4Groups first text else none with
    | some (pair, rest) => (pair, true, rest)
    | none =>
      match do let (_, text) ← separator first ':' text; group text with
      | none => ([], false, text)
      | some (g, rest) =>
        let (gs, isV4, rest) := groups limit false rest
        (g :: gs, isV4, rest)

def v6 : Reader (BitVec 128) := fun text => do
  let (head, isV4, text) := groups 8 true text
  if head.length = 8 then return (IpAddress.ofGroups head, text)
  if isV4 then failure
  let (_, text) ← char ':' text
  let (_, text) ← char ':' text
  let (tail, _, text) := groups (7 - head.length) true text
  let zeros := List.replicate (8 - head.length - tail.length) 0
  return (IpAddress.ofGroups (head ++ zeros ++ tail), text)

def port : Reader UInt16 := fun text => do
  let (_, text) ← char ':' text
  let (n, text) ← number 10 (2 ^ 16) (fun _ => true) text
  return (UInt16.ofNat n, text)

/-- The zone behind a percent sign, zero if there is none. -/
def zone (text : List Char) : UInt32 × List Char :=
  match do let (_, text) ← char '%' text; number 10 (2 ^ 32) (fun _ => true) text with
  | some (n, text) => (UInt32.ofNat n, text)
  | none => (0, text)

def socketV4 : Reader NetAddress := fun text => do
  let (octets, text) ← v4 text
  let (port, text) ← port text
  return (⟨.v4 (IpAddress.ofOctets octets), port, 0⟩, text)

def socketV6 : Reader NetAddress := fun text => do
  let (_, text) ← char '[' text
  let (bits, text) ← v6 text
  let (zone, text) := zone text
  let (_, text) ← char ']' text
  let (port, text) ← port text
  return (⟨.v6 bits, port, zone⟩, text)

end NetAddress.Parse

/-- Reads an address with its port. -/
def NetAddress.parse? (text : String) : Option NetAddress :=
  match NetAddress.Parse.socketV4 text.toList <|> NetAddress.Parse.socketV6 text.toList with
  | some (address, []) => some address
  | _ => none

/-- Reads the address of a host. -/
def IpAddress.parse? (text : String) : Option IpAddress :=
  match NetAddress.Parse.v4 text.toList with
  | some (octets, []) => some (.v4 (ofOctets octets))
  | some _ => none
  | none =>
    match NetAddress.Parse.v6 text.toList with
    | some (bits, []) => some (.v6 bits)
    | _ => none

end NodeQuorum
