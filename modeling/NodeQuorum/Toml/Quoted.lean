/-
  NodeQuorum.Toml.Quoted — quoted texts of a TOML document.

  Double quotes allow escapes, single quotes do not. Three quotes of either kind let a text go over
  several lines; the line break behind the opening quotes is no part of the text. A text is written in
  the first of these forms that needs no escapes: double quotes, single quotes, three double quotes,
  three single quotes; and with escapes if there is none.
-/

import NodeQuorum.Text.Reader

namespace NodeQuorum.Toml

open Text Text.Reader

/-! ## Reading -/

/-- A character that may stand for itself: a tab, or no control character. -/
def isPlain (c : Char) : Bool := c = '\t' || (' ' ≤ c && c ≠ '\x7f')

/-- The end of a line. -/
def lineBreak : Reader Unit
  | '\n' :: rest => some ((), rest)
  | '\r' :: '\n' :: rest => some ((), rest)
  | _ => none

/-- The character that so many hexadecimal digits name. -/
def codePoint (count : Nat) : Reader Char := fun text => do
  let (n, rest) ← fixed 16 count 0 text
  if n.isValidChar then some (Char.ofNat n, rest) else none

/-- What stands behind a backslash. -/
def escape : Reader Char
  | 'b' :: rest => some ('\x08', rest)
  | 't' :: rest => some ('\t', rest)
  | 'n' :: rest => some ('\n', rest)
  | 'f' :: rest => some ('\x0c', rest)
  | 'r' :: rest => some ('\r', rest)
  | '"' :: rest => some ('"', rest)
  | '\\' :: rest => some ('\\', rest)
  | 'u' :: rest => codePoint 4 rest
  | 'U' :: rest => codePoint 8 rest
  | _ => none

/-- A character between double quotes on one line. -/
def basicChar : Reader Char
  | '\\' :: rest => escape rest
  | text => satisfy (fun c => isPlain c && c != '"') text

/-- A character between single quotes on one line. -/
def literalChar : Reader Char := satisfy fun c => isPlain c && c != '\''

/-- A text on one line. -/
def short : Reader (List Char)
  | '"' :: rest => do
    let (cs, rest) := many basicChar rest
    let (_, rest) ← char '"' rest
    some (cs, rest)
  | '\'' :: rest => do
    let (cs, rest) := many literalChar rest
    let (_, rest) ← char '\'' rest
    some (cs, rest)
  | _ => none

/-- The quotes at the front of a text, if there are at least `low` and at most `high`. -/
def quotes (q : Char) (low high : Nat) : Reader Nat := fun text =>
  let count := (text.takeWhile (· == q)).length
  if low ≤ count ∧ count ≤ high then some (count, text.drop count) else none

/-- A line that goes on behind a backslash: the blanks and line breaks up to the next other character
are no part of the text. -/
def joint : Reader (List Char)
  | '\\' :: rest =>
    match lineBreak (rest.dropWhile fun c => c == ' ' || c == '\t') with
    | some (_, rest) =>
      let blank : Reader Unit := fun text => lineBreak text <|> char ' ' text <|> char '\t' text
      some ([], (many blank rest).2)
    | none => none
  | _ => none

/-- A piece of a long text; one or two quotes do not end it. -/
def longPiece (q : Char) : Reader (List Char) := fun text =>
  (lineBreak text).map (fun (_, rest) => (['\n'], rest)) <|>
  (quotes q 1 2 text).map (fun (count, rest) => (List.replicate count q, rest)) <|>
  (if q = '"' then joint text else none) <|>
  ((if q = '"' then basicChar else literalChar) text).map fun (c, rest) => ([c], rest)

/-- A long text behind its opening quotes; up to two quotes may stand before the closing ones. -/
def longBody (q : Char) : Reader (List Char) := fun text => do
  let text := (optional lineBreak text).2
  let (pieces, rest) := many (longPiece q) text
  let (count, rest) ← quotes q 3 5 rest
  some (pieces.flatten ++ List.replicate (count - 3) q, rest)

/-- A quoted text. -/
def quoted : Reader (List Char)
  | '"' :: '"' :: '"' :: rest => longBody '"' rest
  | '\'' :: '\'' :: '\'' :: rest => longBody '\'' rest
  | text => short text

/-! ## Writing -/

/-- A control character other than tab and line break; only an escape can stand for it. -/
def isControl (c : Char) : Bool := !isPlain c && c != '\n'

/-- The length of the longest run of a character. -/
def longestRun (q : Char) (text : List Char) : Nat :=
  go 0 0 text
where
  go (run best : Nat) : List Char → Nat
    | [] => best
    | c :: rest => if c = q then go (run + 1) (max best (run + 1)) rest else go 0 best rest

/-- A character as it is written between double quotes, quotes apart. -/
def escaped (long : Bool) (c : Char) : List Char :=
  if c = '\x08' then ['\\', 'b']
  else if c = '\t' then ['\\', 't']
  else if c = '\n' then if long then ['\n'] else ['\\', 'n']
  else if c = '\x0c' then ['\\', 'f']
  else if c = '\r' then ['\\', 'r']
  else if c = '\\' then ['\\', '\\']
  else if isControl c then
    ['\\', 'u', '0', '0', Nat.digitChar (c.toNat / 16), (Nat.digitChar (c.toNat % 16)).toUpper]
  else [c]

/-- A text as it is written between double quotes. `run` quotes stand before it; in a long text two in a
row need no escape. -/
def escapeAll (long : Bool) : (run : Nat) → List Char → List Char
  | _, [] => []
  | run, c :: rest =>
    if c = '"' then
      if long ∧ run < 2 then '"' :: escapeAll long (run + 1) rest else '\\' :: '"' :: escapeAll long 0 rest
    else escaped long c ++ escapeAll long 0 rest

/-- A text between quotes of its own. -/
def encode (text : List Char) : List Char :=
  let control := text.any isControl
  let lines := text.contains '\n'
  let backslash := text.contains '\\'
  let long (q : Char) (body : List Char) := [q, q, q] ++ (if lines then ['\n'] else []) ++ body ++ [q, q, q]
  let single := ['"'] ++ escapeAll false 0 text ++ ['"']
  if ¬ control ∧ ¬ backslash ∧ ¬ lines ∧ longestRun '"' text = 0 then single
  else if ¬ control ∧ ¬ lines ∧ longestRun '\'' text = 0 then ['\''] ++ text ++ ['\'']
  else if ¬ control ∧ ¬ backslash ∧ longestRun '"' text ≤ 2 then long '"' (escapeAll true 0 text)
  else if ¬ control ∧ longestRun '\'' text ≤ 2 then long '\'' text
  else if lines then long '"' (escapeAll true 0 text)
  else single

end NodeQuorum.Toml
