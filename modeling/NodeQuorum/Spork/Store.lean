/-
  NodeQuorum.Spork.Store — the newest signed record of every setting.

  A record is taken if it is newer than the one held and signed with the network's key. The index by
  hash holds the records held and no others.
-/

import NodeQuorum.Message.Basic
import NodeQuorum.Spork.Catalogue

namespace NodeQuorum

/-- The records held, and the network's secret if this node has it. -/
structure Sporks where
  key : PublicKey
  records : Table Nat SporkRecord
  byHash : Table Hash SporkRecord
  signer : Option KeyPair

namespace Sporks

/-- The punishment for a record that the network's key did not sign. -/
def badSignatureWeight : Nat := 100

def empty (key : PublicKey) : Sporks := ⟨key, ∅, ∅, none⟩

/-- Replaces the record of the same setting. -/
def store (s : Sporks) (r : SporkRecord) : Sporks :=
  let byHash := match s.records[r.id]? with
    | some previous => s.byHash.erase previous.hash
    | none => s.byHash
  { s with records := s.records.insert r.id r, byHash := byHash.insert r.hash r }

/-- Whether a received record is to be taken. -/
def check (s : Sporks) (r : SporkRecord) : Except Reject Unit :=
  match s.records[r.id]? with
  | some current =>
    if r.signedAt ≤ current.signedAt then
      .error (.stale ("spork " ++ toString r.id ++ " signed at " ++ toString r.signedAt ++ " is not newer than " ++
        toString current.signedAt))
    else checkSignature
  | none => checkSignature
where
  checkSignature : Except Reject Unit :=
    (r.verify s.key).mapError fun e =>
      .badSignature ("spork " ++ toString r.id ++ ": " ++ e.message) badSignatureWeight

/-- Takes a received record; the caller announces it and does what it asks for. -/
def process (s : Sporks) (r : SporkRecord) : Sporks × Except Reject SporkAction :=
  match s.check r with
  | .error e => (s, .error e)
  | .ok () => (s.store r, .ok (.of r.id r.value))

/-- The value of a setting by its number: the record's, else the default, else one that is off. -/
def valueOf (s : Sporks) (id : Nat) : Int :=
  match s.records[id]? with
  | some r => r.value
  | none => match SporkId.ofNumber? id with
    | some spork => spork.default
    | none => SporkId.farFuture

def value (s : Sporks) (spork : SporkId) : Int := s.valueOf spork.number

/-- Whether a switch is on. -/
def isActive (s : Sporks) (spork : SporkId) (now : Int) : Bool := s.value spork < now

/-- Takes the network's secret after comparing it with the network's key. -/
def setSigner (s : Sporks) (pair : KeyPair) : Except Failure Sporks :=
  if pair.publicKey = s.key then .ok { s with signer := some pair }
  else .error (.badSettings "spork key does not match the network spork pubkey")

/-- Signs and stores a new value; the caller announces the record. -/
def update (s : Sporks) (spork : SporkId) (value now : Int) : Except Failure (Sporks × SporkRecord) :=
  match s.signer with
  | none => .error (.badSettings "no spork key configured")
  | some signer =>
    let r := SporkRecord.create signer spork.number value now
    ((r.verify s.key).mapError Failure.signature).map fun () => (s.store r, r)

/-- The state in one line. -/
def summary (s : Sporks) : String :=
  "SporkEngine \x7b pubkey: \"" ++ s.key.text ++ "\", records: " ++ toString s.records.size ++ ", signer: " ++
    toString s.signer.isSome ++ " \x7d"

end Sporks
end NodeQuorum
