/-
  NodeQuorum.Toml.Document — a TOML document, as what it defines under which names.

  A header names a table or one more table of an array of tables, and passes through the tables before
  it; a dotted key makes tables of its own. No name is defined twice: a table may be named by one
  header only, and a dotted key does not reach into a table that a header named.
-/

import NodeQuorum.Toml.Value

namespace NodeQuorum.Toml

open Text Text.Reader

/-- A step into a document: to a key, or to one of an array of tables. -/
inductive Step where
  | key (name : String)
  | place (index : Nat)
  deriving DecidableEq, Repr

abbrev Path := List Step

/-- What a path leads to. -/
inductive Item where
  | value (v : Value)
  /-- A table that a header names. -/
  | named
  /-- A table that headers only pass through. -/
  | passed
  /-- A table that a dotted key makes. -/
  | dotted
  /-- So many tables under one name. -/
  | tables (count : Nat)

/-- Everything that is defined. -/
abbrev Document := List (Path × Item)

namespace Document

def item? (d : Document) (p : Path) : Option Item := (d.find? fun e => e.1 = p).map Prod.snd

/-- Defines a path, or defines it anew. -/
def define (d : Document) (p : Path) (i : Item) : Document := (p, i) :: d.filter fun e => e.1 ≠ p

/-- The value of a key at the top. -/
def top? (d : Document) (name : String) : Option Item := d.item? [.key name]

/-- Goes through tables to the one that the last key names. -/
def descend (dotted : Bool) : Document → Path → List String → Option (Document × Path)
  | d, p, [] => some (d, p)
  | d, p, k :: ks =>
    let p := p ++ [.key k]
    match d.item? p with
    | none => descend dotted (d.define p (if dotted then .dotted else .passed)) p ks
    | some (.value _) => none
    | some .named => if dotted then none else descend dotted d p ks
    | some .passed | some .dotted => descend dotted d p ks
    | some (.tables count) => descend dotted d (p ++ [.place (count - 1)]) ks

/-- Defines a value in a table; a dotted key has to end in a table of dotted keys. -/
def addValue (d : Document) (table : Path) (tables : List String) (last : String) (v : Value) : Option Document := do
  let (d, p) ← d.descend true table tables
  let inPlace := match d.item? p with
    | some .dotted => !tables.isEmpty
    | _ => tables.isEmpty
  let p := p ++ [.key last]
  if inPlace && (d.item? p).isNone then some (d.define p (.value v)) else none

/-- Goes to a table that a header names. -/
def addTable (d : Document) (tables : List String) (last : String) : Option (Document × Path) := do
  let (d, p) ← d.descend false [] tables
  let p := p ++ [.key last]
  match d.item? p with
  | none | some .passed => some (d.define p .named, p)
  | _ => none

/-- Goes to one more table of an array. -/
def addToArray (d : Document) (tables : List String) (last : String) : Option (Document × Path) := do
  let (d, p) ← d.descend false [] tables
  let p := p ++ [.key last]
  match d.item? p with
  | none => some (d.define p (.tables 1), p ++ [.place 0])
  | some (.tables count) => some (d.define p (.tables (count + 1)), p ++ [.place count])
  | _ => none

end Document

/-! ## Keys -/

/-- A character of a key that stands without quotes. -/
def isBare (c : Char) : Bool := c.isAlphanum || c == '-' || c == '_'

def bareKey : Reader (List Char) := fun text => do
  let (first, rest) ← satisfy isBare text
  let (others, rest) := many (satisfy isBare) rest
  some (first :: others, rest)

def simpleKey : Reader String := fun text =>
  (short text <|> bareKey text).map fun (cs, rest) => (String.ofList cs, rest)

/-- The most names that a key may have. -/
def maxKeyNames : Nat := 79

/-- A key: the tables on the way, and the last name. -/
def key : Reader (List String × String) := fun text => do
  let next : Reader String := fun text => do
    let (_, rest) ← char '.' (skipBlanks text)
    simpleKey (skipBlanks rest)
  let (first, rest) ← simpleKey text
  let (others, rest) := many next rest
  let names := first :: others
  if maxKeyNames < names.length then none
  else match names.reverse with
    | last :: before => some ((before.reverse, last), rest)
    | [] => none

/-! ## Values and tables in a line -/

/-- A key, an equals sign and a value. -/
def entry (value : Reader Value) : Reader (List String × String × Value) := fun text => do
  let ((tables, last), rest) ← key text
  let (_, rest) ← char '=' (skipBlanks rest)
  let (v, rest) ← value (skipBlanks rest)
  some ((tables, last, v), rest)

/-- The entries of a table in a line, behind its first brace or a comma. -/
def tableEntries (value : Reader Value) : (fuel : Nat) → Document → Reader Unit
  | 0, _, _ => none
  | fuel + 1, d, text =>
    match entry value (skipBlanks text) with
    | none => none
    | some ((tables, last, v), rest) =>
      match d.addValue [] tables last v with
      | none => none
      | some d =>
        match skipBlanks rest with
        | '\x7d' :: rest => some ((), rest)
        | ',' :: rest => tableEntries value fuel d rest
        | _ => none

/-- A table in a line, behind its first brace. -/
def tableBody (value : Reader Value) : Reader Unit := fun text =>
  match skipBlanks text with
  | '\x7d' :: rest => some ((), rest)
  | text => tableEntries value text.length [] text

/-- A value that is no list and no table. -/
def plainValue : Reader Value := fun text =>
  let dropped : Reader Unit := fun text =>
    word ['t', 'r', 'u', 'e'] text <|> word ['f', 'a', 'l', 's', 'e'] text <|> moment text <|> float text
  (quoted text).map (fun (cs, rest) => (.text (String.ofList cs), rest)) <|>
  (dropped text).map (fun (_, rest) => (.other, rest)) <|>
  (integer text).map fun (i, rest) => (.integer i, rest)

/-- A value; lists and tables stand at most so deep in one another. -/
def value : (depth : Nat) → Reader Value
  | 0, text => plainValue text
  | depth + 1, text =>
    match text with
    | '[' :: rest => (listItems (value depth) text.length rest).map fun (vs, rest) => (.list vs, rest)
    | '\x7b' :: rest => (tableBody (value depth) rest).map fun (_, rest) => (.other, rest)
    | _ => plainValue text

/-- The deepest that lists and tables may stand in one another. -/
def maxDepth : Nat := 79

/-! ## Lines -/

/-- A document as far as it is read, and the table that the next entries go to. -/
structure Section where
  document : Document
  table : Path

/-- A header, behind its first bracket. -/
def header (s : Section) : Reader Section
  | '[' :: rest => do
    let ((tables, last), rest) ← key (skipBlanks rest)
    let (_, rest) ← word [']', ']'] (skipBlanks rest)
    let (document, table) ← s.document.addToArray tables last
    some (⟨document, table⟩, rest)
  | text => do
    let ((tables, last), rest) ← key (skipBlanks text)
    let (_, rest) ← char ']' (skipBlanks rest)
    let (document, table) ← s.document.addTable tables last
    some (⟨document, table⟩, rest)

/-- What a line says, up to a comment. -/
def statement (s : Section) : Reader Section := fun text =>
  match text with
  | [] => some (s, [])
  | '#' :: _ | '\n' :: _ | '\r' :: _ => some (s, text)
  | '[' :: rest => header s rest
  | _ => do
    let ((tables, last, v), rest) ← entry (value maxDepth) text
    let document ← s.document.addValue s.table tables last v
    some ({ s with document }, rest)

/-- The lines of a document. -/
def lines : (fuel : Nat) → Section → List Char → Option Document
  | 0, _, _ => none
  | fuel + 1, s, text =>
    match statement s (skipBlanks text) with
    | none => none
    | some (s, rest) =>
      match (optional comment (skipBlanks rest)).2 with
      | [] => some s.document
      | rest => match lineBreak rest with
        | some (_, rest) => lines fuel s rest
        | none => none

/-- Reads a document; a byte order mark may stand before it. -/
def parse? (text : String) : Option Document :=
  let text := (optional (char '\ufeff') text.toList).2
  lines (text.length + 1) ⟨[], []⟩ text

end NodeQuorum.Toml
