/-
  NodeQuorum.NodeClass — the two classes of service node.
-/

namespace NodeQuorum

/-- A class of node, told apart by the size of its collateral. -/
inductive NodeClass where
  | masternode
  | systemnode
  deriving DecidableEq, Repr

namespace NodeClass

/-- Both classes, in the order in which they are served. -/
def all : List NodeClass := [.masternode, .systemnode]

def name : NodeClass → String
  | .masternode => "masternode"
  | .systemnode => "systemnode"

/-- The place of a class in a table with an entry for each. -/
def place : NodeClass → Nat
  | .masternode => 0
  | .systemnode => 1

theorem mem_all (c : NodeClass) : c ∈ all := by cases c <;> simp [all]

end NodeClass

/-- A value for each class. -/
structure PerClass (α : Type) where
  masternode : α
  systemnode : α
  deriving DecidableEq, Repr

namespace PerClass

variable {α β : Type}

def get (p : PerClass α) : NodeClass → α
  | .masternode => p.masternode
  | .systemnode => p.systemnode

def set (p : PerClass α) (c : NodeClass) (a : α) : PerClass α :=
  match c with
  | .masternode => { p with masternode := a }
  | .systemnode => { p with systemnode := a }

@[simp] theorem get_set_self (p : PerClass α) (c : NodeClass) (a : α) : (p.set c a).get c = a := by
  cases c <;> rfl

theorem get_set_of_ne (p : PerClass α) {c c' : NodeClass} (a : α) (h : c' ≠ c) : (p.set c a).get c' = p.get c' := by
  cases c <;> cases c' <;> first | rfl | exact absurd rfl h

end PerClass
end NodeQuorum
