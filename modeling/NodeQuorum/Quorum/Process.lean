/-
  NodeQuorum.Quorum.Process — what a node does with a message from a peer.

  A message goes to the part of the state that it is about. The sender of a refused message is
  penalised if the refusal has a weight. What was stored, or was known before, counts as progress of a
  synchronisation.
-/

import NodeQuorum.Quorum.Basic

namespace NodeQuorum.Quorum

/-- The punishment for asking for payment votes too soon. -/
def repeatedVotesRequestWeight : Nat := 20

/-! ## Sporks -/

/-- Does what a new record asks for. A rollback that stops is of no consequence here. -/
def act (q : Quorum) (action : SporkAction) (now : Int) : Quorum :=
  match action with
  | .none => q
  | .clearBudget => { q with budget := q.budget.clear }
  | .rollback blocks => (q.rollback blocks now).1

def onSpork (q : Quorum) (record : SporkRecord) (now : Int) : Handled Quorum :=
  match q.sporks.process record with
  | (sporks, .error e) => ⟨{ q with sporks }, [], .error e⟩
  | (sporks, .ok action) => ⟨{ q with sporks }.act action now, [.relay ⟨.spork, record.hash⟩], .ok .updated⟩

/-- Sends every record, in the order of the settings' numbers. -/
def onGetSporks (q : Quorum) (peer : PeerId) : Handled Quorum :=
  ⟨q, q.sporks.records.values.map fun r => .push peer (.spork r), .ok .served⟩

/-! ## Announcements, pings and lists -/

/-- Notes what became of an item: one that was taken is new, one that is stale was known. -/
def noteItem (q : Quorum) (c : NodeClass) (item : SyncItem) (hash : Hash) (verdict : Verdict) (now : Int) : Quorum :=
  match verdict with
  | .ok _ => q.setSync c ((q.syncs.get c).note item hash false now)
  | .error e => if e.isStale then q.setSync c ((q.syncs.get c).note item hash true now) else q

/-- Starts the local node if a taken announcement names its key and its protocol. -/
def enableLocal (q : Quorum) (c : NodeClass) (a : Announcement) : Quorum :=
  match q.localNode with
  | some n =>
    if n.nodeClass = c ∧ n.operator.publicKey = a.operatorKey ∧ a.protocol = protocolVersion then
      { q with localNode := some (n.enable a.outpoint a.address) }
    else q
  | none => q

def onAnnouncement (q : Quorum) (c : NodeClass) (a : Announcement) (now : Int) : Handled Quorum :=
  let masternodes := match c with
    | .masternode => none
    | .systemnode => some q.registries.masternode
  let h := (q.registries.get c).processAnnouncement masternodes a (q.announceEnv c now)
  let q := (q.setRegistry c h.state).noteItem c .list a.hash h.verdict now
  let q := match h.verdict with
    | .ok _ => q.enableLocal c a
    | .error _ => q
  ⟨q, h.sent, h.verdict⟩

/-- Whether a refused ping calls for asking after its signer. -/
def asksForSigner (r : Registry) (p : Ping) (e : Reject) : Bool :=
  !e.isStale && (decide (0 < e.weight) || (r.find? p.outpoint).isNone)

def onPing (q : Quorum) (peer : PeerId) (c : NodeClass) (p : Ping) (now : Int) : Handled Quorum :=
  let h := (q.registries.get c).processPing p (q.announceEnv c now)
  match h.verdict with
  | .ok _ => ⟨q.setRegistry c h.state, h.sent, h.verdict⟩
  | .error e =>
    if asksForSigner h.state p e then
      let (r, asked) := h.state.askForEntry peer p.outpoint now
      ⟨q.setRegistry c r, h.sent ++ asked, h.verdict⟩
    else ⟨q.setRegistry c h.state, h.sent, h.verdict⟩

def onGetList (q : Quorum) (peer : Peer) (c : NodeClass) (requested : Option OutPoint) (now : Int) : Handled Quorum :=
  let h := (q.registries.get c).processListRequest peer requested now q.params.isMainnet
  ⟨q.setRegistry c h.state, h.sent, h.verdict⟩

/-! ## Payment votes -/

def onPaymentVote (q : Quorum) (peer : Peer) (c : NodeClass) (v : PaymentVote) (now : Int) : Handled Quorum :=
  let h := (q.payments.get c).process (q.registries.get c) peer v (q.paymentEnv c now)
  let q := (q.setPayments c h.state.payments).setRegistry c h.state.registry
  ⟨q.noteItem c .winners v.hash h.verdict now, h.sent, h.verdict⟩

/-- Sends the votes of recent blocks, on the main network once an hour to a host. The request counts as
answered even without a chain. -/
def onGetPaymentVotes (q : Quorum) (peer : Peer) (c : NodeClass) (needed : Nat) (now : Int) : Handled Quorum :=
  if ¬ q.isSynced c then ⟨q, [], .error (.ignored (c.name ++ " winners not synced yet"))⟩
  else
    let command := (Message.getPaymentVotes c needed).command
    let host := peer.address.ip
    if q.params.isMainnet ∧ q.answered.isAnswered host command now then
      ⟨q, [], .error (.malformed (command ++ " requested again too soon") repeatedVotesRequestWeight)⟩
    else
      let q := { q with answered := q.answered.record host command now }
      match q.chain.tip? with
      | none => ⟨q, [], .error (.ignored "no chain tip")⟩
      | some tip =>
        ⟨q, (q.payments.get c).sync peer.id needed tip ((q.registries.get c).countEnabled 0), .ok .served⟩

def onSyncCount (q : Quorum) (c : NodeClass) (item : SyncItem) (count : Nat) : Handled Quorum :=
  match (q.syncs.get c).count? item count with
  | some t => ⟨q.setSync c t, [], .ok .served⟩
  | none => ⟨q, [], .error (.ignored (c.name ++ " sync count for " ++ item.label ++ " not expected"))⟩

/-! ## Locks -/

def lockState (q : Quorum) : LockState := ⟨q.locks, q.registries.masternode, q.mempool⟩

/-- Takes over what handling a lock message leaves, and runs the rollback that it asks for. -/
def settleLocks (q : Quorum) (h : Handled LockState) (now : Int) : Handled Quorum :=
  let (locks, pending) := h.state.locks.takeRollback
  let q := { q.setRegistry .masternode h.state.registry with locks, mempool := h.state.mempool }
  match pending with
  | some blocks => ⟨(q.rollback blocks now).1, h.sent, h.verdict⟩
  | none => ⟨q, h.sent, h.verdict⟩

def onLockRequest (q : Quorum) (tx : Transaction) (now : Int) : Handled Quorum :=
  q.settleLocks (Locks.processRequest q.lockState tx (q.lockEnv now)) now

def onLockVote (q : Quorum) (peer : PeerId) (v : LockVote) (now : Int) : Handled Quorum :=
  q.settleLocks (Locks.processVote q.lockState peer v (q.lockEnv now)) now

/-! ## Every message -/

/-- Takes a message to the part of the state that it is about. -/
def handle (q : Quorum) (peer : Peer) (m : Message) (now : Int) : Handled Quorum :=
  match m with
  | .spork record => q.onSpork record now
  | .getSporks => q.onGetSporks peer.id
  | .announcement c a => q.onAnnouncement c a now
  | .ping c p => q.onPing peer.id c p now
  | .getList c requested => q.onGetList peer c requested now
  | .paymentVote c v => q.onPaymentVote peer c v now
  | .getPaymentVotes c needed => q.onGetPaymentVotes peer c needed now
  | .syncCount c item count => q.onSyncCount c item count
  | .lockRequest tx => q.onLockRequest tx now
  | .lockVote v => q.onLockVote peer.id v now
  | .lockList => ⟨q, q.locks.announceVotes, .ok .served⟩

/-- The punishment that a refusal brings for the sender. -/
def penalty (peer : PeerId) : Verdict → List Outbound
  | .error e => if e.weight = 0 then [] else [.penalise peer e.weight]
  | .ok _ => []

/-- Takes a message and penalises its sender if it deserves that. -/
def process (q : Quorum) (peer : Peer) (m : Message) (now : Int) : Handled Quorum :=
  let h := q.handle peer m now
  { h with sent := h.sent ++ penalty peer.id h.verdict }

/-- Whether a message makes a counter of reported items or the count of a payee run over. -/
def overruns (q : Quorum) (peer : Peer) (m : Message) (now : Int) : Bool :=
  match m with
  | .syncCount c item count => (q.syncs.get c).overruns item count
  | .paymentVote c v => (q.payments.get c).stopsAt (q.registries.get c) peer v (q.paymentEnv c now)
  | _ => false

/-- Takes a message as `process` does, and nothing once a counter runs over: the program stops. -/
def receive? (q : Quorum) (peer : Peer) (m : Message) (now : Int) : Option (Handled Quorum) :=
  if q.overruns peer m now then none else some (q.process peer m now)

end NodeQuorum.Quorum
