/-
  NodeQuorum.Payment.Block — paying nodes in a coinbase, and whether a block pays them.

  The payment goes into the output of the class and is taken from the first output. A block that does
  not pay is refused only by a synchronised node, only while the class's rule is enforced, and not if
  the chain had stalled.

  A stall is told by the difference of two times of 64 bits. Where 64 bits do not hold it, a program that
  is built with checks stops, and one that is built without them goes on with what is left of it
  (`Overflow`).
-/

import NodeQuorum.Payment.Process

namespace NodeQuorum

/-- What the program does where a number does not fit: it stops, or the number wraps around. -/
inductive Overflow where
  | stops
  | wraps
  deriving DecidableEq, Repr

namespace Payments

/-- Outputs with the payment of a class in its place; the first output is lowered by it. -/
def pay (outputs : List TxOutput) (slot : Nat) (value payment : UInt64) (payee : Script) : List TxOutput :=
  let outputs := if outputs = [] then [⟨value, []⟩] else outputs
  let outputs := outputs ++ List.replicate (slot + 1 - outputs.length) ⟨0, []⟩
  (outputs.set slot ⟨payment, payee⟩).modifyHead fun o =>
    { o with value := UInt64.ofNat (o.value.toNat - payment.toNat) }

/-- The payee of a height: the ballot's, else the enabled node with the best score. -/
def payeeOrWinner? (p : Payments) (r : Registry) (height : Nat) (env : PaymentEnv) : Registry × Option Script :=
  match p.payee? height with
  | some payee => (r, some payee)
  | none =>
    let r := r.checkAll env.chain env.now false
    let minProtocol := p.params.minPaymentProtocol env.sporks env.now
    (r, (r.currentWinner? env.chain height minProtocol).map NodeEntry.payee)

/-- Writes the payment of the class into a coinbase, and names the payee. -/
def fill (p : Payments) (r : Registry) (tx : Transaction) (height : Nat) (value : UInt64) (env : PaymentEnv) :
    Registry × Transaction × Option Script :=
  match p.payeeOrWinner? r height env with
  | (r, none) => (r, tx, none)
  | (r, some payee) =>
    (r, tx.withOutputs (pay tx.outputs p.params.slot value (p.params.payment value) payee), some payee)

/-- The two times by which a stall of the chain is told. -/
structure BlockTimes where
  time : Int64
  previous : Int64
  deriving DecidableEq, Repr

namespace BlockTimes

/-- The seconds from the parent to the block. -/
def seconds (t : BlockTimes) : Int := t.time.toInt - t.previous.toInt

/-- Whether 64 bits hold the seconds. -/
def Fits (t : BlockTimes) : Prop := Int64.minValue.toInt ≤ t.seconds ∧ t.seconds ≤ Int64.maxValue.toInt

instance (t : BlockTimes) : Decidable t.Fits := inferInstanceAs (Decidable (_ ∧ _))

/-- The seconds as the program computes them; none if it stops. -/
def gap? (t : BlockTimes) : Overflow → Option Int64
  | .stops => if t.Fits then some (t.time - t.previous) else none
  | .wraps => some (t.time - t.previous)

end BlockTimes

/-- Whether budget blocks are looked at now. -/
def superblocksActive (env : PaymentEnv) : Bool :=
  env.sporks.isActive .enableSuperblocks env.now || env.params.network = .testnet

/-- Whether a block may stand as far as the payments of this class go; none if the program stops. -/
def isBlockValid? (p : Payments) (overflow : Overflow) (tx : Transaction) (height : Nat) (value : UInt64)
    (times : BlockTimes) (env : PaymentEnv) : Option Bool :=
  if ¬ env.synced then some true
  else if superblocksActive env ∧ env.budget.isPaymentBlock height then
    some (env.budget.isValid tx || !env.sporks.isActive .masternodeBudgetEnforcement env.now)
  else if p.isTransactionValid tx height value env.params.posStartHeight then some true
  else (times.gap? overflow).map fun gap =>
    env.params.stallSeconds < gap.toInt || !env.sporks.isActive p.params.enforcement env.now

end Payments
end NodeQuorum
