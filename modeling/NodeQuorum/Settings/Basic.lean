/-
  NodeQuorum.Settings.Basic — the settings of a node, and what they mean.

  The settings are texts as they were written. Each is looked at when it is needed, so a wrong one is
  found only then.
-/

import NodeQuorum.Params

namespace NodeQuorum

/-- The settings of a node. -/
structure Settings where
  network : String
  logLevel : String
  logFile : Option String
  /-- The seconds between two passes of upkeep. -/
  upkeepSeconds : Nat
  /-- The public key that replaces the network's spork key. -/
  sporkPublicKey : Option String
  /-- The secret that sporks are signed with. -/
  sporkSecret : Option String
  nodeClass : String
  /-- The operator's secret of the node that this process runs. -/
  operatorSecret : Option String
  /-- More reference nodes, each as an outpoint, an equals sign and a weight. -/
  references : List String
  deriving DecidableEq, Repr

namespace Settings

def default : Settings where
  network := "mainnet"
  logLevel := "info"
  logFile := none
  upkeepSeconds := 1
  sporkPublicKey := none
  sporkSecret := none
  nodeClass := "masternode"
  operatorSecret := none
  references := []

/-- Why settings cannot be used. -/
inductive Error where
  | network (cause : Failure)
  | sporkPublicKey (cause : SignatureError)
  | sporkSecret (cause : SignatureError)
  | operatorSecret (cause : SignatureError)
  | nodeClass (text : String)
  | noWeight (entry : String)
  | badReference (entry : String) (cause : OutPoint.ParseError)
  | badWeight (entry : String) (cause : Text.Decimal.Error)
  deriving DecidableEq, Repr

/-- The text of an error, with its cause behind a colon. -/
def Error.message : Error → String
  | .network cause => cause.message
  | .sporkPublicKey cause => "spork pubkey: " ++ cause.message
  | .sporkSecret cause => "spork key: " ++ cause.message
  | .operatorSecret cause => "operator key: " ++ cause.message
  | .nodeClass text => "unknown node kind " ++ text
  | .noWeight entry => "reference node " ++ entry ++ " is not <outpoint>=<weight>"
  | .badReference entry cause => "reference node " ++ entry ++ ": " ++ cause.message
  | .badWeight entry cause => "reference weight " ++ entry ++ ": " ++ cause.message

/-- Reads a reference node; the first equals sign ends the outpoint. -/
def parseReference (entry : String) : Except Error (OutPoint × UInt32) :=
  match Text.splitFirst? '=' entry.toList with
  | none => .error (.noWeight entry)
  | some (outpoint, weight) =>
    match OutPoint.parse (String.ofList outpoint) with
    | .error e => .error (.badReference entry e)
    | .ok o => match Text.Decimal.readWord weight with
      | .error e => .error (.badWeight entry e)
      | .ok w => .ok (o, w)

/-- Reads every reference node; of two with one outpoint the later one counts. -/
def parseReferences : List String → Table OutPoint Nat → Except Error (Table OutPoint Nat)
  | [], table => .ok table
  | entry :: rest, table =>
    match parseReference entry with
    | .error e => .error e
    | .ok (o, w) => parseReferences rest (table.insert o w.toNat)

/-- The key that replaces the network's spork key. -/
def replacedSporkKey (s : Settings) : Except Error (Option PublicKey) :=
  match s.sporkPublicKey with
  | none => .ok none
  | some text => match PublicKey.parseHex text with
    | .ok key => .ok (some key)
    | .error e => .error (.sporkPublicKey e)

/-- What the quorum layer is run with; the network is looked at first, then the key. -/
def quorum (s : Settings) : Except Error QuorumSettings :=
  match Network.parse s.network with
  | .error e => .error (.network e)
  | .ok network => match s.replacedSporkKey with
    | .error e => .error e
    | .ok sporkKey => match parseReferences s.references ∅ with
      | .error e => .error e
      | .ok references => .ok { network, sporkKey, references }

/-- The class of the local node, in either case. -/
def parseClass (s : Settings) : Except Error NodeClass :=
  match NodeClass.all.find? fun c => c.name = s.nodeClass.map Char.toLower with
  | some c => .ok c
  | none => .error (.nodeClass s.nodeClass)

/-- The operator's keys, if there are any. -/
def operator (s : Settings) : Except Error (Option KeyPair) :=
  match s.operatorSecret with
  | none => .ok none
  | some text => match KeyPair.ofSecretHex text with
    | .ok pair => .ok (some pair)
    | .error e => .error (.operatorSecret e)

/-- The keys that sporks are signed with, if there are any. -/
def sporkSigner (s : Settings) : Except Error (Option KeyPair) :=
  match s.sporkSecret with
  | none => .ok none
  | some text => match KeyPair.ofSecretHex text with
    | .ok pair => .ok (some pair)
    | .error e => .error (.sporkSecret e)

end Settings
end NodeQuorum
