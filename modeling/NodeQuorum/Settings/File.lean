/-
  NodeQuorum.Settings.File — the file that keeps the settings.

  The file is a TOML document with an entry for each setting. Reading wants every setting that has no
  way of being absent, and takes no notice of entries it does not know. Writing leaves out what is
  absent.
-/

import NodeQuorum.Settings.Basic
import NodeQuorum.Toml.Document

namespace NodeQuorum.Settings

/-- Why a file is not read or not written. -/
inductive FileError where
  | notRead
  | notWritten
  deriving DecidableEq, Repr

/-- The text of an error. -/
def FileError.message : FileError → String
  | .notRead => "Bad TOML data"
  | .notWritten => "Failed to serialize configuration data into TOML"

/-! ## Reading -/

/-- A text that has to be there. -/
def readText (d : Toml.Document) (name : String) : Option String :=
  match d.top? name with
  | some (.value (.text text)) => some text
  | _ => none

/-- A text that may be absent. -/
def readOptional (d : Toml.Document) (name : String) : Option (Option String) :=
  match d.top? name with
  | some (.value (.text text)) => some (some text)
  | none => some none
  | _ => none

/-- A whole number that is not negative. -/
def readNat (d : Toml.Document) (name : String) : Option Nat :=
  match d.top? name with
  | some (.value (.integer i)) => if 0 ≤ i then some i.toNat else none
  | _ => none

def readTexts : List Toml.Value → Option (List String)
  | [] => some []
  | .text text :: rest => (readTexts rest).map (text :: ·)
  | _ :: _ => none

/-- A list of texts. -/
def readList (d : Toml.Document) (name : String) : Option (List String) :=
  match d.top? name with
  | some (.value (.list items)) => readTexts items
  | _ => none

/-- The settings that a document holds. -/
def ofDocument? (d : Toml.Document) : Option Settings := do
  return {
    network := ← readText d "network"
    logLevel := ← readText d "log_level"
    logFile := ← readOptional d "log_file"
    upkeepSeconds := ← readNat d "maintenance_interval_secs"
    sporkPublicKey := ← readOptional d "spork_pubkey"
    sporkSecret := ← readOptional d "spork_key"
    nodeClass := ← readText d "node_kind"
    operatorSecret := ← readOptional d "operator_key"
    references := ← readList d "reference_nodes" }

/-- The settings of a file; those of no file are the default ones. -/
def load (file : Option String) : Except FileError Settings :=
  match file with
  | none => .ok default
  | some text => match (Toml.parse? text).bind ofDocument? with
    | some s => .ok s
    | none => .error .notRead

/-! ## Writing -/

def writeText (name text : String) : String := name ++ " = " ++ String.ofList (Toml.encode text.toList) ++ "\n"

def writeOptional (name : String) : Option String → String
  | none => ""
  | some text => writeText name text

/-- A list; one of two or more texts has a line for each. -/
def writeList (name : String) (texts : List String) : String :=
  let items := texts.map fun text => String.ofList (Toml.encode text.toList)
  if texts.length ≤ 1 then name ++ " = [" ++ String.join items ++ "]\n"
  else name ++ " = [\n" ++ String.join (items.map fun item => "    " ++ item ++ ",\n") ++ "]\n"

/-- The file of settings; a number of seconds has to fit into 63 bits. -/
def store (s : Settings) : Except FileError String :=
  if s.upkeepSeconds < 2 ^ 63 then
    .ok (writeText "network" s.network ++
      writeText "log_level" s.logLevel ++
      writeOptional "log_file" s.logFile ++
      "maintenance_interval_secs = " ++ toString s.upkeepSeconds ++ "\n" ++
      writeOptional "spork_pubkey" s.sporkPublicKey ++
      writeOptional "spork_key" s.sporkSecret ++
      writeText "node_kind" s.nodeClass ++
      writeOptional "operator_key" s.operatorSecret ++
      writeList "reference_nodes" s.references)
  else .error .notWritten

end NodeQuorum.Settings
