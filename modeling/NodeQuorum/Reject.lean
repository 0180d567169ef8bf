/-
  NodeQuorum.Reject — how a message is taken, and why a message or a request is not.

  A refusal of a message is an ordinary outcome: it says why, and how much the sender is to be
  punished. A failure is about this node: data it does not have, a rollback that stopped, a wrong
  setting.
-/

import NodeQuorum.OutPoint
import NodeQuorum.Signature.Message

namespace NodeQuorum

/-- What became of a message that was taken. -/
inductive Accepted where
  /-- Stored for the first time. -/
  | added
  /-- Replaced or refreshed what was there. -/
  | updated
  /-- Stored, and it completed a quorum. -/
  | quorumReached
  /-- Answered, with nothing to store. -/
  | served
  deriving DecidableEq, Repr

def Accepted.name : Accepted → String
  | .added => "added"
  | .updated => "updated"
  | .quorumReached => "quorum_reached"
  | .served => "served"

/-- Why a message is not taken. -/
inductive Reject where
  /-- Wrong size, form or field values. -/
  | malformed (reason : String) (weight : Nat)
  /-- No newer than what is known. -/
  | stale (reason : String)
  /-- The signer is not in the registry. -/
  | unknownSigner (signer : OutPoint)
  | badSignature (reason : String) (weight : Nat)
  | noQuorum (votes required : Nat)
  /-- Two locks with a quorum spend the same output. -/
  | conflict (a b : Hash)
  /-- Not handled now: switched off, not synchronised, too often or out of range. -/
  | ignored (reason : String)
  deriving DecidableEq, Repr

namespace Reject

/-- The name of the kind of refusal. -/
def name : Reject → String
  | .malformed .. => "malformed"
  | .stale _ => "stale"
  | .unknownSigner _ => "unknown_signer"
  | .badSignature .. => "signature_invalid"
  | .noQuorum .. => "quorum_not_reached"
  | .conflict .. => "conflict"
  | .ignored _ => "ignored"

/-- How much the sender is to be punished. -/
def weight : Reject → Nat
  | .malformed _ weight | .badSignature _ weight => weight
  | _ => 0

/-- The text of a refusal. -/
def message : Reject → String
  | .malformed reason _ => "malformed message: " ++ reason
  | .stale reason => "stale message: " ++ reason
  | .unknownSigner signer => "unknown signer " ++ signer.text
  | .badSignature reason _ => "invalid signature: " ++ reason
  | .noQuorum votes required => "quorum not reached: " ++ toString votes ++ " of " ++ toString required
  | .conflict a b => "conflicting locks " ++ a.text ++ " and " ++ b.text
  | .ignored reason => "ignored: " ++ reason

def isConflict : Reject → Bool
  | .conflict .. => true
  | _ => false

def isStale : Reject → Bool
  | .stale _ => true
  | _ => false

end Reject

/-- The outcome of one message. -/
abbrev Verdict := Except Reject Accepted

/-- Refuses unless a condition holds. -/
def demand (p : Prop) [Decidable p] (otherwise : Reject) : Except Reject Unit :=
  if p then .ok () else .error otherwise

theorem demand_bind_eq_ok {α : Type} {p : Prop} [Decidable p] {e : Reject} {k : Unit → Except Reject α} {a : α} :
    (demand p e >>= k) = .ok a ↔ p ∧ k () = .ok a := by
  by_cases h : p <;> simp [demand, h, bind, Except.bind]

@[simp] theorem demand_eq_ok {p : Prop} [Decidable p] {e : Reject} : demand p e = .ok () ↔ p := by
  by_cases h : p <;> simp [demand, h]

theorem demand_bind_eq_error {α : Type} {p : Prop} [Decidable p] {e e' : Reject} {k : Unit → Except Reject α} :
    (demand p e >>= k) = .error e' ↔ (¬ p ∧ e = e') ∨ (p ∧ k () = .error e') := by
  by_cases h : p <;> simp [demand, h, bind, Except.bind]

@[simp] theorem demand_eq_error {p : Prop} [Decidable p] {e e' : Reject} : demand p e = .error e' ↔ ¬ p ∧ e = e' := by
  by_cases h : p <;> simp [demand, h]

instance decidablePasses {ε : Type} : (x : Except ε Unit) → Decidable (x = .ok ())
  | .ok () => isTrue rfl
  | .error _ => isFalse nofun

/-- Naming the cause of a refusal does not change what is taken. -/
@[simp] theorem mapError_eq_ok {ε ε' α : Type} {f : ε → ε'} {x : Except ε α} {a : α} :
    x.mapError f = .ok a ↔ x = .ok a := by
  cases x with
  | ok b =>
    constructor <;> intro h <;> cases h <;> rfl
  | error e => exact ⟨nofun, nofun⟩

/-- What is made of a result is made only if there is one. -/
theorem map_eq_ok {ε α β : Type} {f : α → β} {x : Except ε α} {b : β} :
    x.map f = .ok b ↔ ∃ a, x = .ok a ∧ f a = b := by
  cases x with
  | ok a =>
    constructor
    · intro h
      cases h
      exact ⟨a, rfl, rfl⟩
    · rintro ⟨_, h, rfl⟩
      cases h
      rfl
  | error e =>
    constructor
    · intro h
      cases h
    · rintro ⟨_, h, -⟩
      cases h

/-- A failure of this node. -/
inductive Failure where
  | notFound (what : String)
  | rollback (reason : String)
  | signature (cause : SignatureError)
  | badSettings (reason : String)
  deriving DecidableEq, Repr

namespace Failure

/-- The name of the kind of failure. -/
def name : Failure → String
  | notFound _ => "not_found"
  | rollback _ => "reprocess"
  | signature _ => "crypto"
  | badSettings _ => "invalid_config"

/-- The text of a failure. -/
def message : Failure → String
  | notFound what => "not found: " ++ what
  | rollback reason => "chain reprocessing failed: " ++ reason
  | signature cause => "crypto error: " ++ cause.message
  | badSettings reason => "invalid configuration: " ++ reason

end Failure

end NodeQuorum
