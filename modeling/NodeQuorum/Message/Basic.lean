/-
  NodeQuorum.Message.Basic — every message nodes exchange, and the inventory that announces objects.
-/

import NodeQuorum.Message.Announcement
import NodeQuorum.Message.Spork
import NodeQuorum.Message.Vote
import NodeQuorum.NodeClass
import NodeQuorum.Reject
import NodeQuorum.Transaction

namespace NodeQuorum

/-- The kinds of object that can be announced by their hash. -/
inductive ItemKind where
  | lockRequest
  | lockVote
  | spork
  | paymentVote (c : NodeClass)
  | announcement (c : NodeClass)
  | ping (c : NodeClass)
  deriving DecidableEq, Repr

namespace ItemKind

/-- The class that an object belongs to, for objects that belong to one. -/
def nodeClass? : ItemKind → Option NodeClass
  | .lockRequest | .lockVote | .spork => none
  | .paymentVote c | .announcement c | .ping c => some c

/-- Every kind, with the kinds of a class side by side. -/
def all : List ItemKind :=
  [.lockRequest, .lockVote, .spork] ++ NodeClass.all.flatMap fun c => [.paymentVote c, .announcement c, .ping c]

def name : ItemKind → String
  | .lockRequest => "tx_lock_request"
  | .lockVote => "tx_lock_vote"
  | .spork => "spork"
  | .paymentVote c => c.name ++ "_winner"
  | .announcement c => c.name ++ "_announce"
  | .ping c => c.name ++ "_ping"

theorem mem_all (k : ItemKind) : k ∈ all := by
  rcases k with _ | _ | _ | c | c | c <;> simp [all, NodeClass.mem_all]

end ItemKind

/-- An object that the sender has. -/
structure Inventory where
  kind : ItemKind
  hash : Hash
  deriving DecidableEq, Repr

/-- What a count of synchronised items refers to. -/
inductive SyncItem where
  | list
  | winners
  deriving DecidableEq, Repr

namespace SyncItem

def all : List SyncItem := [.list, .winners]

def name : SyncItem → String
  | .list => "list"
  | .winners => "winners"

/-- The name that a refusal calls an item by. -/
def label : SyncItem → String
  | .list => "List"
  | .winners => "Winners"

theorem mem_all (i : SyncItem) : i ∈ all := by cases i <;> simp [all]

end SyncItem

/-- A message between nodes. -/
inductive Message where
  | lockRequest (tx : Transaction)
  | lockVote (vote : LockVote)
  /-- Asks for every known lock vote to be announced. -/
  | lockList
  | paymentVote (c : NodeClass) (vote : PaymentVote)
  /-- Asks for the payment votes of recent blocks, with the number of blocks wanted. -/
  | getPaymentVotes (c : NodeClass) (needed : Nat)
  | syncCount (c : NodeClass) (item : SyncItem) (count : Nat)
  | spork (record : SporkRecord)
  | getSporks
  | announcement (c : NodeClass) (announcement : Announcement)
  | ping (c : NodeClass) (ping : Ping)
  /-- Asks for the list of nodes, or for one node only. -/
  | getList (c : NodeClass) (outpoint : Option OutPoint)
  deriving DecidableEq, Repr

/-- The command word a message travels under. -/
def Message.command : Message → String
  | .lockRequest _ => "ix"
  | .lockVote _ => "txlvote"
  | .lockList => "ixlocklist"
  | .paymentVote .masternode _ => "mnw"
  | .paymentVote .systemnode _ => "snw"
  | .getPaymentVotes .masternode _ => "mnget"
  | .getPaymentVotes .systemnode _ => "snget"
  | .syncCount .masternode _ _ => "ssc"
  | .syncCount .systemnode _ _ => "snssc"
  | .spork _ => "spork"
  | .getSporks => "getsporks"
  | .announcement .masternode _ => "mnb"
  | .announcement .systemnode _ => "snb"
  | .ping .masternode _ => "mnp"
  | .ping .systemnode _ => "snp"
  | .getList .masternode _ => "dseg"
  | .getList .systemnode _ => "sndseg"

/-- The inventory that announces what a message carries, for messages that carry an object. -/
def Message.inventory? : Message → Option Inventory
  | .lockRequest tx => some ⟨.lockRequest, tx.txid⟩
  | .lockVote vote => some ⟨.lockVote, vote.hash⟩
  | .paymentVote c vote => some ⟨.paymentVote c, vote.hash⟩
  | .spork record => some ⟨.spork, record.hash⟩
  | .announcement c a => some ⟨.announcement c, a.hash⟩
  | .ping c p => some ⟨.ping c, p.hash⟩
  | _ => none

/-- The text that the signature of a message's object covers, for objects that are signed. -/
def Message.signedText? : Message → Option String
  | .lockVote vote => some (LockVote.signedText vote.txid vote.height)
  | .paymentVote _ vote => some (PaymentVote.signedText vote.voter vote.height vote.payee)
  | .spork record => some (SporkRecord.signedText record.id record.value record.signedAt)
  | .announcement _ a => some (Announcement.signedText a.address a.sigTime a.collateralKey a.operatorKey a.protocol)
  | .ping _ p => some (Ping.signedText p.outpoint p.blockHash p.sigTime)
  | _ => none

/-- The number a peer is known by. -/
abbrev PeerId := Nat

/-- A peer that messages come from and go to. -/
structure Peer where
  id : PeerId
  address : NetAddress
  protocol : Nat
  deriving DecidableEq, Repr

/-- A peer on this machine or in a private network; limits on list requests do not apply to it. -/
def Peer.isLocal (p : Peer) : Bool := p.address.ip.isLocal

/-- What leaves the node: an announcement to every peer, a message to one, or a penalty for one. -/
inductive Outbound where
  | relay (inventory : Inventory)
  | push (peer : PeerId) (message : Message)
  | penalise (peer : PeerId) (weight : Nat)
  deriving DecidableEq, Repr

/-- What leaves the node, sorted: announcements, the messages of every peer, and penalties. -/
structure Traffic where
  relays : List Inventory
  pushes : Table PeerId (List Message)
  /-- The penalties of every peer added up. -/
  penalties : Table PeerId Nat

namespace Traffic

def empty : Traffic := ⟨[], ∅, ∅⟩

/-- Adds one item behind what is there. -/
def add (t : Traffic) : Outbound → Traffic
  | .relay inventory => { t with relays := t.relays ++ [inventory] }
  | .push peer message => { t with pushes := t.pushes.insert peer (t.pushes.getD peer [] ++ [message]) }
  | .penalise peer weight => { t with penalties := t.penalties.insert peer (t.penalties.getD peer 0 + weight) }

def ofList (sent : List Outbound) : Traffic := sent.foldl add empty

end Traffic

/-- What handling a message leaves behind: the new state, what is sent, and how the message was
taken. The state may change even if the message is refused. -/
structure Handled (σ : Type) where
  state : σ
  sent : List Outbound
  verdict : Verdict

end NodeQuorum
