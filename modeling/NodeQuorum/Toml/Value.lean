/-
  NodeQuorum.Toml.Value — values of a TOML document.

  Texts, whole numbers and lists keep what they hold. Other values are read and checked, but nothing
  here asks for what they hold: a number with a fraction or exponent is refused where binary64 would
  round it up to infinity, and a time where the calendar or the clock does not have it.
-/

import NodeQuorum.Bytes
import NodeQuorum.Toml.Quoted

namespace NodeQuorum.Toml

open Text Text.Reader

/-- A value. -/
inductive Value where
  | text (text : String)
  | integer (value : Int)
  | list (items : List Value)
  /-- A number with a fraction or exponent, a truth value, a time or a table. -/
  | other

/-! ## Numbers -/

/-- Digits, with single underscores between them. -/
def digitRun (base : Nat) : Reader (List Nat) := fun text => do
  let (first, rest) ← digit base text
  let next : Reader Nat := fun text => digit base (optional (char '_') text).2
  let (others, rest) := many next rest
  some (first :: others, rest)

/-- True behind a minus sign; a plus sign may stand there too. -/
def sign : List Char → Bool × List Char
  | '-' :: rest => (true, rest)
  | '+' :: rest => (false, rest)
  | text => (false, text)

/-- Decimal digits without a leading zero. -/
def decimal : Reader (List Nat) := fun text => do
  let (values, rest) ← digitRun 10 text
  if values.head? = some 0 ∧ values.length ≠ 1 then none else some (values, rest)

/-- A whole number of 64 bits. -/
def integer : Reader Int := fun text =>
  let inBase (base : Nat) (text : List Char) : Option (Int × List Char) := do
    let (values, rest) ← digitRun base text
    let n := ofDigits base values
    if n < 2 ^ 63 then some ((n : Int), rest) else none
  match text with
  | '0' :: 'x' :: rest => inBase 16 rest
  | '0' :: 'o' :: rest => inBase 8 rest
  | '0' :: 'b' :: rest => inBase 2 rest
  | _ => do
    let (negative, rest) := sign text
    let (values, rest) ← decimal rest
    let n := ofDigits 10 values
    if negative then if n ≤ 2 ^ 63 then some (-(n : Int), rest) else none
    else if n < 2 ^ 63 then some ((n : Int), rest) else none

/-- An exponent. One of 65536 or more is beyond any number in use, so digits that follow do not count. -/
def exponent : Reader Int := fun text => do
  let (_, rest) ← satisfy (fun c => c == 'e' || c == 'E') text
  let (negative, rest) := sign rest
  let (values, rest) ← digitRun 10 rest
  let n : Nat := values.foldl (fun n d => if n < 65536 then 10 * n + d else n) 0
  some (if negative then -(n : Int) else n, rest)

/-- The least number that binary64 rounds to infinity, half a step above its largest finite number. -/
def leastOverflow : Nat := 2 ^ 1024 - 2 ^ 970

/-- How many digits `leastOverflow` has. -/
def overflowDigits : Nat := 309

/-- Whether binary64 rounds the number with these digits before and behind its point to infinity.
    `leastOverflow` is a whole number, so where as many digits stand before the point they decide alone. -/
def overflows (whole fraction : List Nat) (exponent : Int) : Bool :=
  let values := (whole ++ fraction).dropWhile fun d => d == 0
  let beforePoint : Int := values.length - fraction.length + exponent
  let leading := (values ++ List.replicate overflowDigits 0).take overflowDigits
  !values.isEmpty &&
    (overflowDigits < beforePoint || beforePoint = overflowDigits && leastOverflow ≤ ofDigits 10 leading)

/-- A number with a fraction or an exponent, or one of the words for infinity and no number. Below
    zero a number may be of any size. -/
def float : Reader Unit := fun text =>
  let (negative, text) := sign text
  let fraction : Reader (List Nat) := fun text => do
    let (_, rest) ← char '.' text
    digitRun 10 rest
  word ['i', 'n', 'f'] text <|> word ['n', 'a', 'n'] text <|> do
    let (whole, rest) ← decimal text
    let (behind, rest) := optional fraction rest
    let (scale, rest) := optional exponent rest
    if behind.isNone ∧ scale.isNone then none
    else if !negative ∧ overflows whole (behind.getD []) (scale.getD 0) then none
    else some ((), rest)

/-! ## Times -/

def isLeapYear (year : Nat) : Bool := year % 4 = 0 && (year % 100 ≠ 0 || year % 400 = 0)

def daysOfMonth (year month : Nat) : Nat :=
  if month = 2 then if isLeapYear year then 29 else 28
  else if month = 4 ∨ month = 6 ∨ month = 9 ∨ month = 11 then 30
  else 31

def date : Reader Unit := fun text => do
  let (year, rest) ← fixed 10 4 0 text
  let (_, rest) ← char '-' rest
  let (month, rest) ← fixed 10 2 0 rest
  let (_, rest) ← char '-' rest
  let (day, rest) ← fixed 10 2 0 rest
  if 1 ≤ month ∧ month ≤ 12 ∧ 1 ≤ day ∧ day ≤ daysOfMonth year month then some ((), rest) else none

/-- Hours and minutes with a colon between them. -/
def hourMinute : Reader Unit := fun text => do
  let (hour, rest) ← fixed 10 2 0 text
  let (_, rest) ← char ':' rest
  let (minute, rest) ← fixed 10 2 0 rest
  if hour < 24 ∧ minute < 60 then some ((), rest) else none

/-- The time of a day; a minute may have a leap second. -/
def clock : Reader Unit := fun text => do
  let (_, rest) ← hourMinute text
  let (_, rest) ← char ':' rest
  let (second, rest) ← fixed 10 2 0 rest
  let fraction : Reader Unit := fun text => do
    let (_, rest) ← char '.' text
    let (_, rest) ← number 10 (10 ^ rest.length) (fun _ => true) rest
    some ((), rest)
  if second ≤ 60 then some ((), (optional fraction rest).2) else none

/-- The distance from universal time. -/
def offset : Reader Unit := fun text =>
  char 'Z' text <|> char 'z' text <|> do
    let (_, rest) ← satisfy (fun c => c == '+' || c == '-') text
    hourMinute rest

/-- A date, a time of a day, or both with or without an offset. -/
def moment : Reader Unit := fun text =>
  let behindDate : Reader Unit := fun text => do
    let (_, rest) ← satisfy (fun c => c == 'T' || c == 't' || c == ' ') text
    let (_, rest) ← clock rest
    some ((), (optional offset rest).2)
  match date text with
  | some (_, rest) => some ((), (optional behindDate rest).2)
  | none => clock text

/-! ## Blanks and comments -/

def skipBlanks (text : List Char) : List Char := text.dropWhile fun c => c == ' ' || c == '\t'

/-- A comment up to the end of its line. -/
def comment : Reader Unit := fun text => do
  let (_, rest) ← char '#' text
  some ((), rest.dropWhile isPlain)

/-- Skips blanks, comments and line breaks. -/
def skipLines (text : List Char) : List Char :=
  let blank : Reader Unit := fun text => lineBreak text <|> char ' ' text <|> char '\t' text <|> comment text
  (many blank text).2

/-! ## Lists -/

/-- The items of a list behind its opening bracket; a comma may stand behind the last one. -/
def listItems (item : Reader Value) : (fuel : Nat) → Reader (List Value)
  | 0, _ => none
  | fuel + 1, text =>
    match skipLines text with
    | ']' :: rest => some ([], rest)
    | text =>
      match item text with
      | none => none
      | some (v, rest) =>
        match skipLines rest with
        | ']' :: rest => some ([v], rest)
        | ',' :: rest => (listItems item fuel rest).map fun (vs, rest) => (v :: vs, rest)
        | _ => none

end NodeQuorum.Toml
