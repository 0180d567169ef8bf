/-
  NodeQuorum.LocalNode — the service node that this process runs.

  The collateral is kept in a wallet elsewhere, which announces the node. Once the registry has an
  enabled entry with this node's operator key and a collateral that is old enough, the node is started;
  from then on it pings. A node that is missing from the registry is stopped, but remembers its
  collateral.
-/

import NodeQuorum.Registry.Request

namespace NodeQuorum

/-- How far the local node is. -/
inductive LocalStatus where
  | initial
  /-- The chain and the lists are not synchronised. -/
  | waiting
  /-- The collateral has too few confirmations. -/
  | inputTooNew
  /-- No enabled entry has the operator key. -/
  | unlisted
  /-- The entry of the started node is gone. -/
  | vanished (outpoint : OutPoint)
  | started
  deriving DecidableEq, Repr

/-- The name of a status; a node without an entry is not capable, whether it had one or not. -/
def LocalStatus.name : LocalStatus → String
  | .initial => "initial"
  | .waiting => "sync_in_process"
  | .inputTooNew => "input_too_new"
  | .unlisted | .vanished _ => "not_capable"
  | .started => "started"

/-- The status of a node of a class as it is shown. -/
def LocalStatus.text (c : NodeClass) : LocalStatus → String
  | .initial => "node initializing"
  | .waiting => "sync in process, waiting for the chain"
  | .inputTooNew => "collateral needs more confirmations"
  | .unlisted => "not capable: not in the " ++ c.name ++ " list"
  | .vanished outpoint => "not capable: " ++ outpoint.text ++ " not in the " ++ c.name ++ " list"
  | .started => "node successfully started"

/-- The local node. -/
structure LocalNode where
  nodeClass : NodeClass
  operator : KeyPair
  outpoint : Option OutPoint
  address : Option NetAddress
  status : LocalStatus

namespace LocalNode

/-- Pings name the block so far below the tip. -/
def pingBlockDepth : Nat := 12

def create (c : NodeClass) (operator : KeyPair) : LocalNode := ⟨c, operator, none, none, .initial⟩

def isStarted (n : LocalNode) : Bool := n.status = .started

/-- Who votes: the collateral and the operator's key of a started node. -/
def voter? (n : LocalNode) : Option (OutPoint × KeyPair) :=
  if n.isStarted then n.outpoint.map fun o => (o, n.operator) else none

/-- Starts the node for a collateral, unless it is started. -/
def enable (n : LocalNode) (o : OutPoint) (a : NetAddress) : LocalNode :=
  if n.isStarted then n else { n with outpoint := some o, address := some a, status := .started }

/-- What looking after the node leaves behind, and the ping if one was sent. -/
structure Managed where
  node : LocalNode
  registry : Registry
  sent : List Outbound
  ping : Option Ping

/-- Puts this node's own ping into the registry. -/
def recordPing (r : Registry) (e : NodeEntry) (p : Ping) : Registry :=
  let r := match e.announcement? with
    | some a => r.refreshAnnouncement a.hash p
    | none => r
  (r.modify e.outpoint fun e => { e with lastPing := some p }).rememberPing p

/-- Sends a ping if one is due. -/
def sendPing (n : LocalNode) (r : Registry) (c : Chain) (now : Int) : Managed :=
  match n.outpoint with
  | none => ⟨n, r, [], none⟩
  | some o =>
    match r.find? o with
    | none => ⟨{ n with status := .vanished o }, r, [], none⟩
    | some e =>
      if e.isPingedWithin r.params.pingSeconds now then ⟨n, r, [], none⟩
      else match c.tip?.bind fun tip => c.hashAt? (tip - pingBlockDepth) with
        | none => ⟨n, r, [], none⟩
        | some blockHash =>
          let p := Ping.create n.operator o blockHash now
          ⟨n, recordPing r e p, [.relay ⟨.ping n.nodeClass, p.hash⟩], some p⟩

/-- Starts the node if the registry has it. -/
def tryStart (n : LocalNode) (r : Registry) (c : Chain) : LocalNode :=
  match (r.findByOperator? n.operator.publicKey).filter NodeEntry.isEnabled with
  | none => { n with status := .unlisted }
  | some e =>
    if (e.inputAge? c).any (r.params.minConfirmations ≤ ·) then n.enable e.outpoint e.address
    else { n with status := .inputTooNew }

/-- Looks after the node: starts it when it can be started, and pings when a ping is due. -/
def manage (n : LocalNode) (r : Registry) (c : Chain) (synced : Bool) (now : Int) : Managed :=
  if ¬ synced then ⟨{ n with status := .waiting }, r, [], none⟩
  else if n.isStarted then n.sendPing r c now
  else
    let n := n.tryStart r c
    if n.isStarted then n.sendPing r c now else ⟨n, r, [], none⟩

end LocalNode
end NodeQuorum
