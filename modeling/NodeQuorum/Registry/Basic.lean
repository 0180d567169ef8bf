/-
  NodeQuorum.Registry.Basic — the known nodes of one class, by collateral output.

  Beside the entries the registry keeps the announcements and pings it has seen, and who asked for
  which list when. A sweep drops the nodes that are gone and what has become old.
-/

import NodeQuorum.Message.Basic
import NodeQuorum.Registry.Entry

namespace NodeQuorum

/-- The nodes of one class. -/
structure Registry where
  params : ClassParams
  entries : Table OutPoint NodeEntry
  /-- Hosts that asked this node for the full list, and when they may ask again. -/
  askedUs : Table IpAddress Int
  /-- Hosts that this node asked for the full list, and when it may ask again. -/
  askedThem : Table IpAddress Int
  /-- Nodes that this node asked for, and when it may ask again. -/
  askedEntries : Table OutPoint Int
  seenAnnouncements : Table Hash Announcement
  seenPings : Table Hash Ping

namespace Registry

def empty (params : ClassParams) : Registry := ⟨params, ∅, ∅, ∅, ∅, ∅, ∅⟩

def nodeClass (r : Registry) : NodeClass := r.params.nodeClass

/-- The entries in the order of their outpoints. -/
def list (r : Registry) : List NodeEntry := r.entries.values

def find? (r : Registry) (o : OutPoint) : Option NodeEntry := r.entries[o]?

/-- The first entry whose node signs with a key. -/
def findByOperator? (r : Registry) (key : PublicKey) : Option NodeEntry := r.list.find? fun e => e.operatorKey = key

def findByAddress? (r : Registry) (a : NetAddress) : Option NodeEntry := r.list.find? fun e => e.address = a

/-- Whether some node runs at a host. -/
def hasHost (r : Registry) (ip : IpAddress) : Bool := r.list.any fun e => e.address.ip = ip

/-- Adds an enabled entry under an outpoint that is not taken. -/
def add (r : Registry) (e : NodeEntry) : Option Registry :=
  if e.isEnabled ∧ ¬ r.entries.contains e.outpoint then some { r with entries := r.entries.insert e.outpoint e }
  else none

def remove (r : Registry) (o : OutPoint) : Registry := { r with entries := r.entries.erase o }

/-- Changes the entry of an outpoint, if there is one. -/
def modify (r : Registry) (o : OutPoint) (f : NodeEntry → NodeEntry) : Registry :=
  { r with entries := r.entries.modify o f }

def clear (r : Registry) : Registry := empty r.params

/-- Enabled entries whose protocol is not below a bound. -/
def countEnabled (r : Registry) (minProtocol : Nat) : Nat :=
  r.list.countP fun e => e.isEnabled && decide (minProtocol ≤ e.protocol)

/-- Looks at the state of every entry anew. -/
def checkAll (r : Registry) (c : Chain) (now : Int) (force : Bool) : Registry :=
  { r with entries := r.entries.map fun _ e => e.check c r.params now force }

/-! ## What was seen -/

def rememberAnnouncement (r : Registry) (a : Announcement) : Registry :=
  { r with seenAnnouncements := r.seenAnnouncements.insert a.hash a }

/-- Forgets an announcement, so that it is looked at again when it comes again. -/
def forgetAnnouncement (r : Registry) (hash : Hash) : Registry :=
  { r with seenAnnouncements := r.seenAnnouncements.erase hash }

/-- Puts a newer ping into a remembered announcement. -/
def refreshAnnouncement (r : Registry) (hash : Hash) (p : Ping) : Registry :=
  { r with seenAnnouncements := r.seenAnnouncements.modify hash fun a => { a with lastPing := p } }

def rememberPing (r : Registry) (p : Ping) : Registry := { r with seenPings := r.seenPings.insert p.hash p }

/-! ## The sweep -/

/-- Whether a sweep drops an entry. -/
def isDoomed (e : NodeEntry) (forceExpired : Bool) (minProtocol : Nat) : Bool :=
  match e.state with
  | .remove | .spent => true
  | .expired => forceExpired
  | .enabled => e.protocol < minProtocol

/-- Drops dead entries with what belongs to them, and what has become old; names the dropped. -/
def sweep (r : Registry) (c : Chain) (now : Int) (forceExpired : Bool) (minProtocol : Nat) :
    Registry × List OutPoint :=
  let r := r.checkAll c now false
  let doomed := (r.list.filter fun e => isDoomed e forceExpired minProtocol).map NodeEntry.outpoint
  let horizon := now - 2 * r.params.removalSeconds
  ({ r with
      entries := r.entries.filter fun o _ => o ∉ doomed
      askedUs := r.askedUs.filter fun _ till => now ≤ till
      askedThem := r.askedThem.filter fun _ till => now ≤ till
      askedEntries := r.askedEntries.filter fun o till => o ∉ doomed ∧ now ≤ till
      seenAnnouncements := r.seenAnnouncements.filter fun _ a => a.outpoint ∉ doomed ∧ horizon ≤ a.lastPing.sigTime
      seenPings := r.seenPings.filter fun _ p => horizon ≤ p.sigTime },
   doomed)

/-- The state in one line. -/
def summary (r : Registry) : String :=
  r.nodeClass.name ++ "s: " ++ toString r.entries.size ++ ", enabled: " ++ toString (r.countEnabled 0) ++
    ", seen broadcasts: " ++ toString r.seenAnnouncements.size ++ ", seen pings: " ++ toString r.seenPings.size

end Registry
end NodeQuorum
