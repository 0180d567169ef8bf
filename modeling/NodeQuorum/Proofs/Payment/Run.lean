/-
  NodeQuorum.Proofs.Payment.Run — what the payment votes of a class go through.

  Votes are received and cast, old ones are swept away, and the whole may be cleared (`Event`, `step`, `run`).
  Each operation has one lemma that says all it can do:
  - `process_cases`: a received vote that gets as far as the check for a second vote (`Heard`) is noted
    unless the voter was last heard of for the same height, and counted if it is in order (`InOrder`).
  - `castVote_cases`: a vote of this node's own is counted above the height of the last one.
  - `step_cases`: what an event does to votes and ballots. Votes stay under their own hashes (`keyed_step`), and the
    rules of the class never change (`run_params`).
-/

import NodeQuorum.Payment.Process
import NodeQuorum.Proofs.Table

namespace NodeQuorum.Payments

/-- What the votes of a class go through; the registry and the surroundings of each event are its own. -/
inductive Event where
  | receive (r : Registry) (peer : Peer) (v : PaymentVote) (env : PaymentEnv)
  | cast (r : Registry) (voter : OutPoint) (operator : KeyPair) (height : Nat) (env : PaymentEnv)
  | sweep (tip registrySize : Nat)
  | clear

/-- One event under the rules of a network. -/
def step (net : NetworkParams) (p : Payments) : Event → Payments
  | .receive r peer v env => (p.process r peer v { env with params := net }).state.payments
  | .cast r voter operator height env => (p.castVote r voter operator height { env with params := net }).state.payments
  | .sweep tip registrySize => (p.sweep tip registrySize).1
  | .clear => p.clear

/-- The votes of a class after some events. -/
def run (net : NetworkParams) (params : ClassParams) (es : List Event) : Payments := es.foldl (step net) (empty params)

theorem run_append (net : NetworkParams) (params : ClassParams) (es more : List Event) :
    run net params (es ++ more) = more.foldl (step net) (run net params es) := by
  simp only [run, List.foldl_append]

/-! ## Storing one vote -/

/-- The votes with one more that is counted. -/
def withVote (p : Payments) (v : PaymentVote) (weight : Nat) : Payments :=
  { p with
    votes := p.votes.insert v.hash v
    ballots := p.ballots.insert v.height ((p.ballots.getD v.height (.empty v.height)).add v.payee weight) }

theorem values_withVote {p : Payments} {v : PaymentVote} (hnew : p.votes[v.hash]? = none) (weight : Nat) :
    (p.withVote v weight).votes.values.Perm (v :: p.votes.values) :=
  Table.values_insert_perm hnew

/-- The votes with the height of a voter's last vote noted. -/
def noted (p : Payments) (v : PaymentVote) : Payments := { p with lastVote := p.lastVote.insert v.voter v.height }

/-- Whether the block that ranks the voters of a vote is known. -/
def Ranked (c : Chain) (v : PaymentVote) : Prop := ∃ h, Ranking.seenHash c (v.height - paymentRankOffset) = .ok h

/-- A vote is stored exactly if it is new and its rank can be told. -/
theorem addVote_eq_some {p q : Payments} {c : Chain} {v : PaymentVote} {weight : Nat} :
    p.addVote c v weight = some q ↔ Ranked c v ∧ p.votes[v.hash]? = none ∧ q = p.withVote v weight := by
  unfold addVote Ranked
  cases Ranking.seenHash c (v.height - paymentRankOffset) with
  | error e => simp
  | ok h =>
    rw [Table.getElem?_eq_none_iff]
    by_cases hv : p.votes.contains v.hash = true
    · simp [hv]
    · simp only [hv, Bool.false_eq_true, if_false, Option.some.injEq]
      exact ⟨fun h => ⟨⟨_, rfl⟩, trivial, h.symm⟩, fun h => h.2.2.symm⟩

/-! ## A received vote -/

/-- Whether a vote gets as far as the check for a second one: it is new and in range, and its voter may vote. -/
def Heard (p : Payments) (r : Registry) (peer : Peer) (v : PaymentVote) (env : PaymentEnv) : Prop :=
  p.checkVote r peer v env = .ok () ∧ (checkVoter r peer v env).2.2 = .ok ()

/-- Whether a vote that was heard is signed with its voter's key and its rank can be told. -/
def InOrder (r : Registry) (peer : Peer) (v : PaymentVote) (env : PaymentEnv) : Prop :=
  isSigned (checkVoter r peer v env).1 v = true ∧ Ranked env.chain v

/-- Whether a height is near enough to the tip to be voted on. -/
def InWindow (r : Registry) (c : Chain) (height : Nat) : Prop :=
  ∃ tip, c.tip? = some tip ∧ tip - cycle (r.countEnabled 0) ≤ height ∧ height ≤ tip + lookahead

/-- A vote can be of use exactly if the peer is current and the vote is new and in range. -/
theorem checkVote_eq_ok {p : Payments} {r : Registry} {peer : Peer} {v : PaymentVote} {env : PaymentEnv} :
    p.checkVote r peer v env = .ok () ↔
      minVoterProtocol ≤ peer.protocol ∧ p.votes[v.hash]? = none ∧ InWindow r env.chain v.height := by
  unfold checkVote InWindow
  rw [demand_bind_eq_ok, Table.getElem?_eq_none_iff]
  refine and_congr_right fun _ => ?_
  cases env.chain.tip? with
  | none => simp
  | some tip =>
    simp only [demand_bind_eq_ok, demand_eq_ok, Bool.not_eq_true, Option.some.injEq, exists_eq_left']

theorem checkVote_new {p : Payments} {r : Registry} {peer : Peer} {v : PaymentVote} {env : PaymentEnv}
    (h : p.checkVote r peer v env = .ok ()) : p.votes[v.hash]? = none :=
  (checkVote_eq_ok.mp h).2.1

/-- A new vote is stored exactly if its rank can be told. -/
theorem count_cases {p : Payments} {v : PaymentVote} (r : Registry) (env : PaymentEnv)
    (hnew : p.votes[v.hash]? = none) :
    (Ranked env.chain v ∧ (p.count r v env).state.payments = p.withVote v (env.params.voteWeight v.voter)) ∨
      (¬ Ranked env.chain v ∧ (p.count r v env).state.payments = p) := by
  unfold count
  split
  · rename_i hnone
    refine Or.inr ⟨?_, rfl⟩
    intro hr
    rw [addVote_eq_some.mpr ⟨hr, hnew, rfl⟩] at hnone
    cases hnone
  · rename_i q hq
    obtain ⟨hr, -, hq⟩ := addVote_eq_some.mp hq
    exact Or.inl ⟨hr, hq⟩

/-- What a received vote does. -/
theorem process_cases (p : Payments) (r : Registry) (peer : Peer) (v : PaymentVote) (env : PaymentEnv) :
    (¬ p.Heard r peer v env ∧ (p.process r peer v env).state.payments = p) ∨
    (p.Heard r peer v env ∧ p.lastVote[v.voter]? = some v.height ∧ (p.process r peer v env).state.payments = p) ∨
    (p.Heard r peer v env ∧ p.lastVote[v.voter]? ≠ some v.height ∧
      ((InOrder r peer v env ∧
          (p.process r peer v env).state.payments = (p.noted v).withVote v (env.params.voteWeight v.voter)) ∨
        (¬ InOrder r peer v env ∧ (p.process r peer v env).state.payments = p.noted v))) := by
  unfold process
  split
  · rename_i e he
    refine Or.inl ⟨?_, rfl⟩
    intro h
    rw [h.1] at he
    cases he
  · rename_i hok
    split
    · rename_i r' sent e hv
      refine Or.inl ⟨?_, rfl⟩
      intro h
      have hvoter := h.2
      rw [hv] at hvoter
      cases hvoter
    · rename_i r' sent hv
      have hheard : p.Heard r peer v env := ⟨hok, by rw [hv]⟩
      refine Or.inr ?_
      by_cases hl : p.lastVote[v.voter]? = some v.height
      · refine Or.inl ⟨hheard, hl, ?_⟩
        simp only [canVote, hl, if_true]
      · refine Or.inr ⟨hheard, hl, ?_⟩
        simp only [canVote, hl, if_false]
        have hr : (checkVoter r peer v env).1 = r' := by rw [hv]
        by_cases hs : isSigned r' v = true
        · rw [if_pos hs]
          have hnew : (p.noted v).votes[v.hash]? = none := checkVote_new hok
          rcases count_cases r' env hnew with ⟨hk, hc⟩ | ⟨hk, hc⟩
          · exact Or.inl ⟨⟨hr ▸ hs, hk⟩, hc⟩
          · exact Or.inr ⟨fun h => hk h.2, hc⟩
        · rw [if_neg hs]
          exact Or.inr ⟨fun h => hs (hr ▸ h.1), rfl⟩

/-! ## A vote of this node's own -/

/-- What this node's own vote does: nothing, or it is counted at a height above the last own vote's. -/
theorem castVote_cases (p : Payments) (r : Registry) (voter : OutPoint) (operator : KeyPair) (height : Nat)
    (env : PaymentEnv) :
    ((p.castVote r voter operator height env).vote = none ∧
      (p.castVote r voter operator height env).state.payments = p) ∨
    ∃ v : PaymentVote, (p.castVote r voter operator height env).vote = some v ∧
      v.voter = voter ∧ v.height = height ∧ p.lastOwnHeight < height ∧ p.votes[v.hash]? = none ∧
      (p.castVote r voter operator height env).state.payments =
        { p.withVote v (env.params.voteWeight voter) with lastOwnHeight := height } := by
  unfold castVote
  dsimp only
  split
  · exact Or.inl ⟨rfl, rfl⟩
  split
  · exact Or.inl ⟨rfl, rfl⟩
  rename_i hlast
  split
  · exact Or.inl ⟨rfl, rfl⟩
  split
  · exact Or.inl ⟨rfl, rfl⟩
  rename_i payee _
  split
  · exact Or.inl ⟨rfl, rfl⟩
  rename_i q hq
  obtain ⟨-, hnew, rfl⟩ := addVote_eq_some.mp hq
  exact Or.inr ⟨PaymentVote.create operator voter height payee, rfl, rfl, rfl, by omega, hnew, rfl⟩

/-! ## Any event -/

/-- What an event does to votes and ballots: nothing, one vote more, or a loss of old ones or of all. -/
theorem step_cases (net : NetworkParams) (p : Payments) (e : Event) :
    ((step net p e).votes = p.votes ∧ (step net p e).ballots = p.ballots) ∨
    (∃ v : PaymentVote, p.votes[v.hash]? = none ∧
      (step net p e).votes = (p.withVote v (net.voteWeight v.voter)).votes ∧
      (step net p e).ballots = (p.withVote v (net.voteWeight v.voter)).ballots) ∨
    (∃ tip registrySize, e = .sweep tip registrySize) ∨ e = .clear := by
  cases e with
  | receive r peer v env =>
    rcases process_cases p r peer v { env with params := net } with ⟨-, h⟩ | ⟨-, -, h⟩ | ⟨hh, -, ⟨-, h⟩ | ⟨-, h⟩⟩
    · exact Or.inl (by simp only [step, h, and_self])
    · exact Or.inl (by simp only [step, h, and_self])
    · refine Or.inr (Or.inl ⟨v, checkVote_new hh.1, ?_⟩)
      simp only [step, h, withVote, noted, and_self]
    · exact Or.inl (by simp only [step, h, noted, and_self])
  | cast r voter operator height env =>
    rcases castVote_cases p r voter operator height { env with params := net } with
      ⟨-, h⟩ | ⟨v, -, rfl, rfl, -, hnew, h⟩
    · exact Or.inl (by simp only [step, h, and_self])
    · refine Or.inr (Or.inl ⟨v, hnew, ?_⟩)
      simp only [step, h, and_self]
  | sweep tip registrySize => exact Or.inr (Or.inr (Or.inl ⟨tip, registrySize, rfl⟩))
  | clear => exact Or.inr (Or.inr (Or.inr rfl))

/-- Every vote is stored under its own hash. -/
theorem keyed_step {p : Payments} (h : p.votes.Keyed PaymentVote.hash) (net : NetworkParams) (e : Event) :
    (step net p e).votes.Keyed PaymentVote.hash := by
  rcases step_cases net p e with ⟨hvotes, -⟩ | ⟨v, -, hvotes, -⟩ | ⟨tip, registrySize, rfl⟩ | rfl
  · rwa [hvotes]
  · rw [hvotes]
    exact h.insert v
  · exact h.filter _
  · exact .empty _

theorem step_params (net : NetworkParams) (p : Payments) (e : Event) : (step net p e).params = p.params := by
  cases e with
  | receive r peer v env =>
    rcases process_cases p r peer v { env with params := net } with ⟨-, h⟩ | ⟨-, -, h⟩ | ⟨-, -, ⟨-, h⟩ | ⟨-, h⟩⟩
    · simp only [step, h]
    · simp only [step, h]
    · simp only [step, h, withVote, noted]
    · simp only [step, h, noted]
  | cast r voter operator height env =>
    rcases castVote_cases p r voter operator height { env with params := net } with ⟨-, h⟩ | ⟨v, -, -, -, -, -, h⟩
    · simp only [step, h]
    · simp only [step, h, withVote]
  | sweep tip registrySize => rfl
  | clear => rfl

/-- The votes of a class keep the rules of the class, whatever they go through. -/
theorem run_params (net : NetworkParams) (params : ClassParams) (es : List Event) :
    (run net params es).params = params :=
  List.foldlRecOn (motive := fun p => p.params = params) es (step net) rfl fun _ h e _ => (step_params net _ e).trans h

end NodeQuorum.Payments
