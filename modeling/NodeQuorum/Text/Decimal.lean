/-
  NodeQuorum.Text.Decimal — a 32-bit number read from decimal text.

  One plus sign may lead; then only digits follow, at least one. Reading goes from the left and stops
  at the first character that is no digit or at the first digit that makes the number too large.
-/

import NodeQuorum.Bytes

namespace NodeQuorum.Text.Decimal

/-- Why a text is not a 32-bit number. -/
inductive Error where
  | empty
  | badDigit
  | tooLarge
deriving DecidableEq, Repr

/-- The text of an error. -/
def Error.message : Error → String
  | .empty => "cannot parse integer from empty string"
  | .badDigit => "invalid digit found in string"
  | .tooLarge => "number too large to fit in target type"

/-- Reads digits behind a value already read. -/
def readDigits : (value : Nat) → List Char → Except Error Nat
  | value, [] => .ok value
  | value, c :: rest =>
    if c.isDigit then
      let next := 10 * value + (c.toNat - 48)
      if next < 2 ^ 32 then readDigits next rest else .error .tooLarge
    else .error .badDigit

/-- Reads an unsigned 32-bit number. -/
def readWord (text : List Char) : Except Error UInt32 :=
  match text with
  | [] => .error .empty
  | ['+'] => .error .badDigit
  | '+' :: digits => UInt32.ofNat <$> readDigits 0 digits
  | digits => UInt32.ofNat <$> readDigits 0 digits

end NodeQuorum.Text.Decimal
