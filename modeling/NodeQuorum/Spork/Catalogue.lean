/-
  NodeQuorum.Spork.Catalogue — the network-wide settings that are known by name.

  A setting is a switch, on once its value lies in the past, or a plain number. Each has the value it
  keeps until a signed record says otherwise.
-/

import NodeQuorum.Reject

namespace NodeQuorum

/-- A known setting. -/
inductive SporkId where
  | instantX
  | instantXBlockFiltering
  | enableMasternodePayments
  | maxValue
  | masternodeScanning
  | masternodePaymentEnforcement
  | masternodeBudgetEnforcement
  | masternodeDontPayOldNodes
  | resetBudget
  | reconsiderBlocks
  | enableSuperblocks
  | systemnodePaymentEnforcement
  | systemnodeDontPayOldNodes
  | disconnectOldNodes
  | nftTx
  deriving DecidableEq, Repr

namespace SporkId

def all : List SporkId :=
  [instantX, instantXBlockFiltering, enableMasternodePayments, maxValue, masternodeScanning,
   masternodePaymentEnforcement, masternodeBudgetEnforcement, masternodeDontPayOldNodes, resetBudget,
   reconsiderBlocks, enableSuperblocks, systemnodePaymentEnforcement, systemnodeDontPayOldNodes,
   disconnectOldNodes, nftTx]

/-- The number that records name the setting by. -/
def number : SporkId → Nat
  | instantX => 2
  | instantXBlockFiltering => 3
  | enableMasternodePayments => 4
  | maxValue => 5
  | masternodeScanning => 7
  | masternodePaymentEnforcement => 8
  | masternodeBudgetEnforcement => 9
  | masternodeDontPayOldNodes => 10
  | resetBudget => 11
  | reconsiderBlocks => 12
  | enableSuperblocks => 13
  | systemnodePaymentEnforcement => 14
  | systemnodeDontPayOldNodes => 15
  | disconnectOldNodes => 16
  | nftTx => 17

def name : SporkId → String
  | instantX => "SPORK_2_INSTANTX"
  | instantXBlockFiltering => "SPORK_3_INSTANTX_BLOCK_FILTERING"
  | enableMasternodePayments => "SPORK_4_ENABLE_MASTERNODE_PAYMENTS"
  | maxValue => "SPORK_5_MAX_VALUE"
  | masternodeScanning => "SPORK_7_MASTERNODE_SCANNING"
  | masternodePaymentEnforcement => "SPORK_8_MASTERNODE_PAYMENT_ENFORCEMENT"
  | masternodeBudgetEnforcement => "SPORK_9_MASTERNODE_BUDGET_ENFORCEMENT"
  | masternodeDontPayOldNodes => "SPORK_10_MASTERNODE_DONT_PAY_OLD_NODES"
  | resetBudget => "SPORK_11_RESET_BUDGET"
  | reconsiderBlocks => "SPORK_12_RECONSIDER_BLOCKS"
  | enableSuperblocks => "SPORK_13_ENABLE_SUPERBLOCKS"
  | systemnodePaymentEnforcement => "SPORK_14_SYSTEMNODE_PAYMENT_ENFORCEMENT"
  | systemnodeDontPayOldNodes => "SPORK_15_SYSTEMNODE_DONT_PAY_OLD_NODES"
  | disconnectOldNodes => "SPORK_16_DISCONNECT_OLD_NODES"
  | nftTx => "SPORK_17_NFT_TX"

def ofNumber? (n : Nat) : Option SporkId := all.find? fun s => s.number = n

def ofName (name : String) : Except Failure SporkId :=
  match all.find? fun s => s.name = name with
  | some s => .ok s
  | none => .error (.notFound ("unknown spork " ++ name))

/-- A time in 2099: a switch with this value is off. -/
def farFuture : Int := 4070908800

/-- A time in 2001: a switch with this value is on. -/
def longPast : Int := 978307200

/-- The value before any signed record. -/
def default : SporkId → Int
  | instantX | instantXBlockFiltering | enableMasternodePayments | masternodeScanning => longPast
  -- the largest amount that can be locked, in whole coins
  | maxValue => 10000
  | resetBudget | reconsiderBlocks => 0
  | masternodePaymentEnforcement | masternodeBudgetEnforcement | masternodeDontPayOldNodes | enableSuperblocks
  | systemnodePaymentEnforcement | systemnodeDontPayOldNodes | disconnectOldNodes | nftTx => farFuture

theorem ofNumber?_number (s : SporkId) : ofNumber? s.number = some s := by cases s <;> rfl

end SporkId

/-- What a new record asks of the rest of the node. -/
inductive SporkAction where
  | none
  | clearBudget
  /-- Disconnects this many blocks and lets the chain find its tip again. -/
  | rollback (blocks : Nat)
  deriving DecidableEq, Repr

def SporkAction.of (id : Nat) (value : Int) : SporkAction :=
  match SporkId.ofNumber? id with
  | some .resetBudget => if value = 1 then .clearBudget else .none
  | some .reconsiderBlocks => if 0 < value then .rollback value.toNat else .none
  | _ => .none

end NodeQuorum
