/-
  NodeQuorum.Text.Reader — values read off the front of a text.

  A reader gives its value with the rest of the text, or nothing. What is repeated stops where an item
  cannot be read or reads nothing.
-/

namespace NodeQuorum.Text

/-- Reads a value off the front of a text. -/
abbrev Reader (α : Type) := List Char → Option (α × List Char)

namespace Reader

variable {α : Type}

/-- One given character. -/
def char (c : Char) : Reader Unit
  | [] => none
  | x :: rest => if x = c then some ((), rest) else none

/-- One character of a kind. -/
def satisfy (p : Char → Bool) : Reader Char
  | [] => none
  | c :: rest => if p c then some (c, rest) else none

/-- The characters of a word, one by one. -/
def word : List Char → Reader Unit
  | [], text => some ((), text)
  | c :: cs, text => match char c text with
    | some (_, rest) => word cs rest
    | none => none

/-- As many items as there are. -/
def many (item : Reader α) (text : List Char) : List α × List Char :=
  go text.length text
where
  /-- Each item takes at least one character, so as many steps as there are characters suffice. -/
  go : Nat → List Char → List α × List Char
    | 0, text => ([], text)
    | fuel + 1, text =>
      match item text with
      | some (a, rest) =>
        if rest.length < text.length then
          let (items, rest) := go fuel rest
          (a :: items, rest)
        else ([], text)
      | none => ([], text)

/-- A reader that may read nothing. -/
def optional (item : Reader α) (text : List Char) : Option α × List Char :=
  match item text with
  | some (a, rest) => (some a, rest)
  | none => (none, text)

/-! ## Numbers -/

/-- The value of a digit in a base up to sixteen. -/
def digitValue? (base : Nat) (c : Char) : Option Nat :=
  let n := c.toNat
  let value :=
    if 48 ≤ n ∧ n ≤ 57 then n - 48
    else if 97 ≤ n ∧ n ≤ 102 then n - 87
    else if 65 ≤ n ∧ n ≤ 70 then n - 55
    else 16
  if value < base then some value else none

/-- One digit. -/
def digit (base : Nat) : Reader Nat
  | [] => none
  | c :: rest => (digitValue? base c).map fun value => (value, rest)

/-- The digits at the front of a text. -/
def digits (base : Nat) : List Char → List Nat × List Char
  | [] => ([], [])
  | c :: rest =>
    match digitValue? base c with
    | some value => let (values, rest) := digits base rest; (value :: values, rest)
    | none => ([], c :: rest)

/-- The number that digits stand for, the first one weighing most. -/
def ofDigits (base : Nat) (values : List Nat) : Nat := values.foldl (fun n d => base * n + d) 0

/-- A number below `bound`, taking every digit there is. -/
def number (base bound : Nat) (fits : List Nat → Bool) : Reader Nat := fun text =>
  let (values, rest) := digits base text
  let n := ofDigits base values
  if values ≠ [] ∧ fits values ∧ n < bound then some (n, rest) else none

/-- The number of so many digits, no more and no fewer. -/
def fixed (base : Nat) : (count : Nat) → (value : Nat) → Reader Nat
  | 0, value, text => some (value, text)
  | count + 1, value, text => match digit base text with
    | some (d, rest) => fixed base count (base * value + d) rest
    | none => none

end Reader
end NodeQuorum.Text
