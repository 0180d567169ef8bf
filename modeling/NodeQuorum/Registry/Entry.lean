/-
  NodeQuorum.Registry.Entry — a registered node and its life.

  A node is enabled while its last ping is recent and its collateral is unspent with the exact amount.
  Without pings it expires and is then to be removed. A node whose collateral was seen spent stays so.
-/

import NodeQuorum.Chain.Basic
import NodeQuorum.Message.Announcement
import NodeQuorum.Params

namespace NodeQuorum

/-- Where a node stands. -/
inductive NodeState where
  | enabled
  | expired
  | remove
  /-- The collateral was spent; no other state follows. -/
  | spent
  deriving DecidableEq, Repr

namespace NodeState

def all : List NodeState := [.enabled, .expired, .remove, .spent]

def name : NodeState → String
  | .enabled => "enabled"
  | .expired => "expired"
  | .remove => "remove"
  | .spent => "vin_spent"

theorem mem_all (s : NodeState) : s ∈ all := by cases s <;> simp [all]

end NodeState

/-- Whether a ping signed at `last` is less than `seconds` old. -/
def pingedWithin (last : Option Int) (seconds now : Int) : Bool :=
  match last with
  | some t => now - t < seconds
  | none => false

/-- The state that follows, from the time of the newest ping and the state of the collateral. -/
def NodeState.next (current : NodeState) (lastPing : Option Int) (now : Int) (collateralOk : Bool) (p : ClassParams) :
    NodeState :=
  if current = .spent then .spent
  else if ¬ pingedWithin lastPing p.removalSeconds now then .remove
  else if ¬ pingedWithin lastPing p.expirationSeconds now then .expired
  else if ¬ collateralOk then .spent
  else .enabled

/-- Whether an output is unspent and holds exactly the collateral of the class. -/
def Chain.holdsCollateral (c : Chain) (o : OutPoint) (p : ClassParams) : Bool :=
  match c.coins[o]? with
  | some coin => coin.value = p.collateral
  | none => false

/-- A registered node. -/
structure NodeEntry where
  nodeClass : NodeClass
  outpoint : OutPoint
  address : NetAddress
  collateralKey : PublicKey
  operatorKey : PublicKey
  signature : Bytes
  sigTime : Int
  protocol : Nat
  lastPing : Option Ping
  state : NodeState
  lastChecked : Int
  deriving DecidableEq, Repr

namespace NodeEntry

/-- The entry that an announcement makes. -/
def ofAnnouncement (c : NodeClass) (a : Announcement) : NodeEntry where
  nodeClass := c
  outpoint := a.outpoint
  address := a.address
  collateralKey := a.collateralKey
  operatorKey := a.operatorKey
  signature := a.signature
  sigTime := a.sigTime
  protocol := a.protocol
  lastPing := some a.lastPing
  state := .enabled
  lastChecked := 0

/-- Takes over everything a newer announcement says. -/
def update (e : NodeEntry) (a : Announcement) : NodeEntry :=
  { e with
    address := a.address
    collateralKey := a.collateralKey
    operatorKey := a.operatorKey
    signature := a.signature
    sigTime := a.sigTime
    protocol := a.protocol
    lastPing := some a.lastPing }

/-- The announcement that the entry stands for, with the newest ping in it. -/
def announcement? (e : NodeEntry) : Option Announcement :=
  e.lastPing.map fun ping =>
    { outpoint := e.outpoint
      address := e.address
      collateralKey := e.collateralKey
      operatorKey := e.operatorKey
      signature := e.signature
      sigTime := e.sigTime
      protocol := e.protocol
      lastPing := ping }

/-- The script that the node is paid at. -/
def payee (e : NodeEntry) : Script := Script.ofPublicKey e.collateralKey

def isEnabled (e : NodeEntry) : Bool := e.state = .enabled

def lastPingTime (e : NodeEntry) : Option Int := e.lastPing.map Ping.sigTime

def isPingedWithin (e : NodeEntry) (seconds now : Int) : Bool := pingedWithin e.lastPingTime seconds now

def isAnnouncedWithin (e : NodeEntry) (seconds now : Int) : Bool := now - e.sigTime < seconds

/-- Confirmations of the collateral. -/
def inputAge? (e : NodeEntry) (c : Chain) : Option Nat := c.confirmations? e.outpoint

/-- Looks at the state anew, unless it was looked at a short while ago and nothing forces it. -/
def check (e : NodeEntry) (c : Chain) (p : ClassParams) (now : Int) (force : Bool) : NodeEntry :=
  if ¬ force ∧ now - e.lastChecked < p.checkSeconds then e
  else
    { e with
      lastChecked := now
      state := e.state.next e.lastPingTime now (c.holdsCollateral e.outpoint p) p }

end NodeEntry
end NodeQuorum
