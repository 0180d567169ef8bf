/-
  NodeQuorum.Text.Hex — byte strings written as pairs of hexadecimal digits.

  Writing uses lower case; reading takes either case. Reading looks at the length first and then
  at the digits from the left, and it counts positions in bytes of the text.
-/

import NodeQuorum.Bytes

namespace NodeQuorum.Text.Hex

/-- The digit of a half byte. -/
def digit (n : Nat) : Char := Nat.digitChar n

/-- A byte as two digits, high half first. -/
def encodeByte (b : UInt8) : List Char := [digit (b.toNat / 16), digit (b.toNat % 16)]

def encodeChars (bytes : Bytes) : List Char := bytes.flatMap encodeByte

/-- Lower-case hexadecimal text of a byte string. -/
def encode (bytes : Bytes) : String := String.ofList (encodeChars bytes)

/-- The value of a digit of either case. -/
def digitValue? (b : UInt8) : Option Nat :=
  let n := b.toNat
  if 48 ≤ n ∧ n ≤ 57 then some (n - 48)
  else if 97 ≤ n ∧ n ≤ 102 then some (n - 87)
  else if 65 ≤ n ∧ n ≤ 70 then some (n - 55)
  else none

/-- Why a text is not a byte string in hexadecimal. -/
inductive Error where
  | oddLength
  | badDigit (byte : UInt8) (position : Nat)
deriving DecidableEq, Repr

/-- Reads pairs of digits; `position` is the place of the first of them. -/
def decodeBytes : (position : Nat) → Bytes → Except Error Bytes
  | _, [] => .ok []
  | _, [_] => .error .oddLength
  | position, high :: low :: rest =>
    match digitValue? high, digitValue? low with
    | none, _ => .error (.badDigit high position)
    | some _, none => .error (.badDigit low (position + 1))
    | some h, some l =>
      match decodeBytes (position + 2) rest with
      | .error e => .error e
      | .ok bytes => .ok (UInt8.ofNat (16 * h + l) :: bytes)

/-- Reads a hexadecimal text. -/
def decode (text : String) : Except Error Bytes :=
  let bytes := Bytes.ofText text
  if bytes.length % 2 = 1 then .error .oddLength else decodeBytes 0 bytes

/-- How a character is shown between quotes in an error text: a control character by its code, a
quote or a backslash behind a backslash. -/
def quoted (b : UInt8) : String :=
  let n := b.toNat
  if n = 0 then "\\0"
  else if n = 9 then "\\t"
  else if n = 10 then "\\n"
  else if n = 13 then "\\r"
  else if n = 39 then "\\'"
  else if n = 92 then "\\\\"
  else if n < 32 ∨ (127 ≤ n ∧ n ≤ 160) ∨ n = 173 then
    "\\u\x7b" ++ String.ofList (Nat.toDigits 16 n) ++ "\x7d"
  else String.singleton (Char.ofNat n)

/-- The text of an error. -/
def Error.message : Error → String
  | .oddLength => "Odd number of digits"
  | .badDigit byte position =>
    "Invalid character '" ++ quoted byte ++ "' at position " ++ toString position

end NodeQuorum.Text.Hex
