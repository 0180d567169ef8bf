/-
  NodeQuorum.Params — what differs between networks and between classes of node.

  Some outpoints are reference nodes: their payment votes weigh more than one, so that a young network
  can agree on payees.
-/

import NodeQuorum.NetAddress.Basic
import NodeQuorum.NodeClass
import NodeQuorum.Spork.Catalogue

namespace NodeQuorum

/-- The smallest units in one coin. -/
def coinUnits : Nat := 100000000

/-- The protocol that this node speaks. -/
def protocolVersion : Nat := 70058

/-- The networks there are. -/
inductive Network where
  | mainnet
  | testnet
  | regtest
  deriving DecidableEq, Repr

namespace Network

def name : Network → String
  | mainnet => "mainnet"
  | testnet => "testnet"
  | regtest => "regtest"

/-- The network of a name, in either case. -/
def parse (text : String) : Except Failure Network :=
  let lower := text.map Char.toLower
  if lower = "mainnet" ∨ lower = "main" then .ok mainnet
  else if lower = "testnet" ∨ lower = "test" then .ok testnet
  else if lower = "regtest" then .ok regtest
  else .error (.badSettings ("unknown network " ++ lower))

end Network

/-- The rules of one class of node. -/
structure ClassParams where
  nodeClass : NodeClass
  /-- The exact amount of the collateral output. -/
  collateral : UInt64
  /-- The output of a coinbase that pays the class. -/
  slot : Nat
  /-- The share of the block's value that the class is paid. -/
  percent : Nat
  minConfirmations : Nat
  checkSeconds : Int
  minAnnouncementSeconds : Int
  minPingSeconds : Int
  pingSeconds : Int
  expirationSeconds : Int
  removalSeconds : Int
  enforcement : SporkId
  dontPayOld : SporkId
  deriving DecidableEq, Repr

namespace ClassParams

def masternode : ClassParams where
  nodeClass := .masternode
  collateral := UInt64.ofNat (10000 * coinUnits)
  slot := 1
  percent := 45
  minConfirmations := 15
  checkSeconds := 5
  minAnnouncementSeconds := 5 * 60
  minPingSeconds := 10 * 60
  pingSeconds := 5 * 60
  expirationSeconds := 65 * 60
  removalSeconds := 75 * 60
  enforcement := .masternodePaymentEnforcement
  dontPayOld := .masternodeDontPayOldNodes

def systemnode : ClassParams where
  nodeClass := .systemnode
  collateral := UInt64.ofNat (500 * coinUnits)
  slot := 2
  percent := 10
  minConfirmations := 15
  checkSeconds := 5
  minAnnouncementSeconds := 5 * 60
  minPingSeconds := 10 * 60
  pingSeconds := 5 * 60
  expirationSeconds := 65 * 60
  removalSeconds := 75 * 60
  enforcement := .systemnodePaymentEnforcement
  dontPayOld := .systemnodeDontPayOldNodes

/-- The rules of a class on every network. -/
def of : NodeClass → ClassParams
  | .masternode => masternode
  | .systemnode => systemnode

/-- What the winner of a block of this value is paid, rounded down. -/
def payment (p : ClassParams) (value : UInt64) : UInt64 := UInt64.ofNat (value.toNat * p.percent / 100)

@[simp] theorem nodeClass_of (c : NodeClass) : (of c).nodeClass = c := by cases c <;> rfl

end ClassParams

/-- The rules of one network. -/
structure NetworkParams where
  network : Network
  defaultPort : Nat
  mainnetPort : Nat
  sporkKey : PublicKey
  /-- The height from which on payments have fixed places in the coinbase. -/
  posStartHeight : Nat
  /-- A block that comes this long after its parent may leave out the payments. -/
  stallSeconds : Int
  /-- The weights of the reference nodes' payment votes, numbers of 32 bits. -/
  referenceWeights : Table OutPoint Nat
  masternode : ClassParams
  systemnode : ClassParams

namespace NetworkParams

/-- The weight of a reference node that comes with the network. -/
def referenceWeight : Nat := 100

def mainnetReference : OutPoint := ⟨0x099c01bea63abd1692f60806bb646fa1d288e2d049281225f17e499024084e28, 0⟩

def testnetReference : OutPoint := ⟨0xfbc16ae5229d6d99181802fd76a4feee5e7640164dcebc7f8feb04a7bea026f8, 0⟩

def regtestReference : OutPoint := ⟨0xe466f5d8beb4c2d22a314310dc58e0ea89505c95409754d0d68fb874952608cc, 1⟩

def mainnetSporkKey : PublicKey := 0x3d4017c3e843895a92b70aa74d1b7ebc9c982ccf2ec4968cc0cd55f12af4660c

def testnetSporkKey : PublicKey := 0xfc51cd8e6218a1a38da47ed00230f0580816ed13ba3303ac5deb911548908025

def regtestSporkKey : PublicKey := 0xd75a980182b10ab7d54bfed3c964073a0ee172f3daa62325af021a68f707511a

/-- The rules that come with a network. -/
def of : Network → NetworkParams
  | .mainnet =>
    ⟨.mainnet, 9340, 9340, mainnetSporkKey, 2330000, 3600, reference mainnetReference, .masternode, .systemnode⟩
  | .testnet =>
    ⟨.testnet, 18333, 9340, testnetSporkKey, 5000, 3600, reference testnetReference, .masternode, .systemnode⟩
  | .regtest =>
    ⟨.regtest, 18444, 9340, regtestSporkKey, 200, 3600, reference regtestReference, .masternode, .systemnode⟩
where
  reference (o : OutPoint) : Table OutPoint Nat := (∅ : Table OutPoint Nat).insert o referenceWeight

def forClass (p : NetworkParams) : NodeClass → ClassParams
  | .masternode => p.masternode
  | .systemnode => p.systemnode

def isMainnet (p : NetworkParams) : Bool := p.network = .mainnet

/-- Nodes of the main network announce its port, and others do not. -/
def isValidPort (p : NetworkParams) (port : Nat) : Bool :=
  if p.isMainnet then port = p.mainnetPort else port ≠ p.mainnetPort

def isReference (p : NetworkParams) (o : OutPoint) : Bool := p.referenceWeights.contains o

/-- The weight of a payment vote. -/
def voteWeight (p : NetworkParams) (voter : OutPoint) : Nat := p.referenceWeights.getD voter 1

end NetworkParams

/-- An address a node may announce: any on the regression test network, elsewhere a public IPv4 one. -/
def NetAddress.isAnnounceable (a : NetAddress) (network : Network) : Bool :=
  network = .regtest || a.ip.isPublicV4

/-- What a network is run with: its own rules, another spork key, and more reference nodes. -/
structure QuorumSettings where
  network : Network
  sporkKey : Option PublicKey
  references : Table OutPoint Nat

/-- The rules with the settings applied; a reference node that is named again gets the new weight. -/
def QuorumSettings.params (s : QuorumSettings) : NetworkParams :=
  let p := NetworkParams.of s.network
  { p with
    sporkKey := s.sporkKey.getD p.sporkKey
    referenceWeights := s.references.foldl (fun t o weight => t.insert o weight) p.referenceWeights }

end NodeQuorum
