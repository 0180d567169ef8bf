/-
  NodeQuorum.Proofs.Payment.Overrun — votes of a program that stops where a count runs over.

  Weights and counts have 32 bits. The events of a run may make the count of a payee too large (`Stops`), and the program
  ends at the first that does (`step?`, `run?`); all before it leave what they leave with counts of any size.
  - `fits_step_iff`: while all counts fit, an event is passed exactly if they still fit behind it.
  - `run?_eq_some_iff`: so the program comes through a run exactly if they fit at every moment of it.
  - `run?_counted`: until it stops, what it counts is the weight of the votes it stores.
-/

import NodeQuorum.Proofs.Payment.Acceptance
import NodeQuorum.Proofs.Stopping

namespace NodeQuorum.Payments

variable {net : NetworkParams} {params : ClassParams} {p q : Payments} {v : PaymentVote} {weight : Nat}

/-- One event under the rules of a network, or the end of the program where a count runs over. -/
def step? (net : NetworkParams) (p : Payments) : Event → Option Payments
  | .receive r peer v env => (p.process? r peer v { env with params := net }).map fun h => h.state.payments
  | .cast r voter operator height env =>
    (p.castVote? r voter operator height { env with params := net }).map fun cast => cast.state.payments
  | .sweep tip registrySize => some (p.sweep tip registrySize).1
  | .clear => some p.clear

/-- The votes of a class after some events, unless one of them ended the program. -/
def run? (net : NetworkParams) (params : ClassParams) (es : List Event) : Option Payments :=
  es.foldlM (step? net) (empty params)

/-- Whether an event makes a count run over. -/
def Stops (net : NetworkParams) (p : Payments) : Event → Prop
  | .receive r peer v env => p.stopsAt r peer v { env with params := net } = true
  | .cast r voter operator height env =>
    p.stopsAtOwn net (p.castVote r voter operator height { env with params := net }).vote = true
  | _ => False

theorem passes_iff {α : Type} {stops : Bool} {handled : α} (f : α → Payments) :
    (if stops = true then none else some handled).map f = some q ↔ q = f handled ∧ ¬ stops = true := by
  cases stops with
  | true => simp
  | false => simp [eq_comm]

theorem step?_eq_some_iff_not_stops {e : Event} : step? net p e = some q ↔ q = step net p e ∧ ¬ Stops net p e := by
  cases e with
  | receive r peer v env => exact passes_iff _
  | cast r voter operator height env => exact passes_iff _
  | sweep tip registrySize => simp [step?, step, Stops, eq_comm]
  | clear => simp [step?, step, Stops, eq_comm]

/-! ## Counts that fit -/

/-- All counts have 32 bits. -/
def Fits (p : Payments) : Prop := ∀ height s, p.votesFor height s < 2 ^ 32

theorem fits_empty (params : ClassParams) : (empty params).Fits := by
  intro height s
  simp [empty, votesFor]

theorem Fits.congr (h : p.Fits) (hb : q.ballots = p.ballots) : q.Fits := by
  unfold Fits votesFor
  rw [hb]
  exact h

/-- A vote leaves counts that fit exactly if its payee's does not run over. -/
theorem fits_withVote_iff (h : p.Fits) : (p.withVote v weight).Fits ↔ ¬ p.overruns v weight = true := by
  rw [overruns_iff, Nat.not_le]
  constructor
  · intro hfits
    have hcount := hfits v.height v.payee
    rwa [votesFor_withVote, if_pos ⟨rfl, rfl⟩] at hcount
  · intro hsmall height s
    rw [votesFor_withVote]
    by_cases hv : v.height = height ∧ v.payee = s
    · obtain ⟨rfl, rfl⟩ := hv
      rwa [if_pos ⟨rfl, rfl⟩]
    · rw [if_neg hv]
      exact h height s

theorem fits_receive_iff (h : p.Fits) (r : Registry) (peer : Peer) (v : PaymentVote) (env : PaymentEnv) :
    (p.process r peer v env).state.payments.Fits ↔ ¬ p.stopsAt r peer v env = true := by
  by_cases heligible : p.Eligible r peer v env
  · obtain ⟨r', hprocess⟩ := process_of_eligible heligible
    have hnoted : (p.noted v).Fits := h.congr rfl
    rw [hprocess, fits_withVote_iff hnoted, stopsAt_iff, and_iff_right heligible, overruns_iff]
    exact Iff.rfl
  · obtain ⟨q, r', sent, e, hprocess, hq, -⟩ := process_of_not_eligible heligible
    rw [hprocess, stopsAt_iff]
    refine iff_of_true ?_ fun hstops => heligible hstops.1
    rcases hq with rfl | rfl
    · exact h
    · exact h.congr rfl

theorem fits_cast_iff (h : p.Fits) (r : Registry) (voter : OutPoint) (operator : KeyPair) (height : Nat)
    (env : PaymentEnv) :
    (p.castVote r voter operator height env).state.payments.Fits ↔
      ¬ p.stopsAtOwn env.params (p.castVote r voter operator height env).vote = true := by
  rcases castVote_cases p r voter operator height env with ⟨hvote, hp⟩ | ⟨v, hvote, rfl, rfl, -, -, hp⟩
  · rw [hvote, hp]
    exact iff_of_true h nofun
  · rw [hvote, hp]
    exact fits_withVote_iff h

/-- While all counts fit, they still do behind an event exactly if it does not end the program. -/
theorem fits_step_iff (ht : Tallied net p) (h : p.Fits) (e : Event) : (step net p e).Fits ↔ ¬ Stops net p e := by
  cases e with
  | receive r peer v env => exact fits_receive_iff h r peer v { env with params := net }
  | cast r voter operator height env => exact fits_cast_iff h r voter operator height { env with params := net }
  | sweep tip registrySize =>
    refine iff_of_true ?_ id
    intro height s
    show (p.sweep tip registrySize).1.votesFor height s < 2 ^ 32
    rw [votesFor_sweep ht]
    split
    · decide
    · exact h height s
  | clear => exact iff_of_true ((fits_empty p.params).congr rfl) id

theorem step?_eq_some_iff (ht : Tallied net p) (h : p.Fits) (e : Event) :
    step? net p e = some q ↔ q = step net p e ∧ (step net p e).Fits := by
  rw [step?_eq_some_iff_not_stops, fits_step_iff ht h e]

/-- An event that leaves the ballots as they are does not end the program. -/
theorem step?_of_same_ballots (ht : Tallied net p) (hfits : p.Fits) {e : Event}
    (h : (step net p e).ballots = p.ballots) : step? net p e = some (step net p e) :=
  (step?_eq_some_iff ht hfits e).mpr ⟨rfl, hfits.congr h⟩

/-- A vote that is stored ends the program exactly if it makes the count of its payee too large. -/
theorem step?_of_stored (ht : Tallied net p) (hfits : p.Fits) {e : Event}
    (h : step net p e = (p.noted v).withVote v weight) :
    step? net p e = none ↔ 2 ^ 32 ≤ p.votesFor v.height v.payee + weight := by
  have hnoted : (p.noted v).Fits := hfits.congr rfl
  have hcount : (p.noted v).overruns v weight = true ↔ 2 ^ 32 ≤ p.votesFor v.height v.payee + weight := overruns_iff
  rw [← hcount, ← not_iff_not, ← fits_withVote_iff hnoted, ← h, ← Ne, Option.ne_none_iff_exists']
  simp only [step?_eq_some_iff ht hfits e, exists_eq_left]

/-- The program comes through exactly if all counts fit at every moment of the run. -/
theorem run?_eq_some_iff {es : List Event} :
    run? net params es = some p ↔ p = run net params es ∧ ∀ before, before <+: es → (run net params before).Fits := by
  refine Stopping.run_eq_some_iff (P := fun before => (run net params before).Fits) (fits_empty params) ?_
  intro es e q hfits
  rw [run_append]
  exact step?_eq_some_iff (run_tallied net params es) hfits e

/-- As long as the program runs, a count is the weight of the stored votes, and 32 bits hold it. -/
theorem run?_counted {es : List Event} (h : run? net params es = some p) (height : Nat) (s : Script) :
    p.votesFor height s = p.weightOn net height s ∧ p.votesFor height s < 2 ^ 32 := by
  obtain ⟨rfl, hall⟩ := run?_eq_some_iff.mp h
  exact ⟨(run_tallied net params es).counted height s, hall es (List.prefix_refl es) height s⟩

end NodeQuorum.Payments
