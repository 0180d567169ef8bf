/-
  NodeQuorum.Proofs.Payment.Tally — the ballots are the weighted tally of the stored votes.

  Votes are kept by hash and ballots by height, and each is updated on its own. `Voted` says that they are for the same
  heights, which does not take the weights, and `Tallied` all of how they belong together; every event keeps either
  (`voted_step`, `tallied_step`), so it holds after every run:
  - `ballots_tally_the_stored_votes`: a height has a ballot exactly if a vote for it is stored, no ballot names
    a script twice, and a script has the weight of the stored votes for it.
  - A count falls only where the height is swept away or everything is cleared (`Event.Forgets`), so what is
    decided stays so until then.
-/

import NodeQuorum.Proofs.Payment.Run

namespace NodeQuorum

/-! ## One ballot -/

namespace Ballot

theorem map_script_tally (s : Script) (weight : Nat) (ps : List Payee) :
    (tally s weight ps).map Payee.script =
      if s ∈ ps.map Payee.script then ps.map Payee.script else ps.map Payee.script ++ [s] := by
  induction ps with
  | nil => rfl
  | cons p rest ih =>
    unfold tally
    by_cases hp : p.script = s
    · simp [hp]
    · simp only [hp, if_false, List.map_cons, ih, List.mem_cons, Ne.symm hp, false_or]
      split <;> rfl

/-- Adding votes does not name a script twice. -/
theorem nodup_add {b : Ballot} (h : (b.payees.map Payee.script).Nodup) (s : Script) (weight : Nat) :
    ((b.add s weight).payees.map Payee.script).Nodup := by
  simp only [add, map_script_tally]
  split
  · exact h
  · rename_i hs
    refine List.nodup_append.mpr ⟨h, by simp, ?_⟩
    intro a ha c hc hac
    rw [List.mem_singleton] at hc
    exact hs (hc ▸ hac ▸ ha)

theorem votesFor_cons (height : Nat) (p : Payee) (rest : List Payee) (s : Script) :
    votesFor ⟨height, p :: rest⟩ s = if p.script = s then p.votes else votesFor ⟨height, rest⟩ s := by
  by_cases hp : p.script = s <;> simp [votesFor, hp]

theorem votesFor_tally (height : Nat) (s : Script) (weight : Nat) (ps : List Payee) (s' : Script) :
    votesFor ⟨height, tally s weight ps⟩ s' = votesFor ⟨height, ps⟩ s' + if s = s' then weight else 0 := by
  induction ps with
  | nil => by_cases hs : s = s' <;> simp [tally, votesFor, hs]
  | cons p rest ih =>
    unfold tally
    by_cases hp : p.script = s
    · rw [if_pos hp, votesFor_cons, votesFor_cons, ← hp]
      by_cases hs : p.script = s'
      · simp only [hs, if_true]
      · simp only [hs, if_false, Nat.add_zero]
    · rw [if_neg hp, votesFor_cons, votesFor_cons, ih]
      by_cases hs : p.script = s'
      · have hne : ¬ s = s' := fun he => hp (hs.trans he.symm)
        simp only [hs, hne, if_true, if_false, Nat.add_zero]
      · simp only [hs, if_false]

theorem votesFor_add (b : Ballot) (s : Script) (weight : Nat) (s' : Script) :
    (b.add s weight).votesFor s' = b.votesFor s' + if s = s' then weight else 0 :=
  votesFor_tally b.height s weight b.payees s'

/-- In a ballot that names no script twice, a payee has the votes of its script. -/
theorem votesFor_of_mem (height : Nat) {ps : List Payee} (h : (ps.map Payee.script).Nodup) {p : Payee} (hp : p ∈ ps) :
    votesFor ⟨height, ps⟩ p.script = p.votes := by
  induction ps with
  | nil => cases hp
  | cons q rest ih =>
    rw [List.map_cons, List.nodup_cons] at h
    rw [votesFor_cons]
    rcases List.mem_cons.mp hp with rfl | hp
    · rw [if_pos rfl]
    · have hne : ¬ q.script = p.script := fun he => h.1 (he ▸ List.mem_map_of_mem hp)
      rw [if_neg hne]
      exact ih h.2 hp

theorem mem_of_votesFor_pos {b : Ballot} {s : Script} (h : 0 < b.votesFor s) :
    ∃ p ∈ b.payees, p.script = s ∧ p.votes = b.votesFor s := by
  unfold votesFor at h ⊢
  split at h
  · rename_i p hp
    refine ⟨p, List.mem_of_find?_eq_some hp, by simpa using List.find?_some hp, rfl⟩
  · exact absurd h (Nat.lt_irrefl 0)

/-- A script is decided exactly if it has the votes required. -/
theorem decided_iff {b : Ballot} (h : (b.payees.map Payee.script).Nodup) (s : Script) :
    s ∈ b.decided.map Payee.script ↔ paymentVotesRequired ≤ b.votesFor s := by
  simp only [List.mem_map, decided, List.mem_filter, decide_eq_true_eq]
  constructor
  · rintro ⟨p, ⟨hp, hv⟩, rfl⟩
    rw [votesFor_of_mem b.height h hp]
    exact hv
  · intro hv
    obtain ⟨p, hp, hs, he⟩ := mem_of_votesFor_pos (Nat.lt_of_lt_of_le (by decide) hv)
    exact ⟨p, ⟨hp, he ▸ hv⟩, hs⟩

end Ballot

namespace Payments

/-! ## The tally -/

/-- The stored votes for a script at a height. -/
def votesOn (p : Payments) (height : Nat) (script : Script) : List PaymentVote :=
  p.votes.values.filter fun v => v.height = height ∧ v.payee = script

/-- Their weight together. -/
def weightOn (net : NetworkParams) (p : Payments) (height : Nat) (script : Script) : Nat :=
  ((p.votesOn height script).map fun v => net.voteWeight v.voter).foldr (· + ·) 0

/-- Whether a sweep drops a height. -/
def Old (tip registrySize height : Nat) : Prop := max (cycle registrySize) minRetention < tip - height

instance (tip registrySize height : Nat) : Decidable (Old tip registrySize height) :=
  inferInstanceAs (Decidable (_ < _))

/-- The heights that have a ballot are those of the stored votes. -/
def Voted (p : Payments) : Prop := ∀ h, p.ballots.contains h = true ↔ ∃ v ∈ p.votes.values, v.height = h

theorem voted_empty (params : ClassParams) : Voted (empty params) := by simp [Voted, empty]

theorem Voted.congr {p q : Payments} (h : Voted p) (hv : q.votes = p.votes) (hb : q.ballots = p.ballots) : Voted q := by
  unfold Voted
  rw [hv, hb]
  exact h

/-- The ballots are the tally of the stored votes. -/
structure Tallied (net : NetworkParams) (p : Payments) : Prop where
  voted : ∀ h, p.ballots.contains h = true ↔ ∃ v ∈ p.votes.values, v.height = h
  height_eq : ∀ (h : Nat) (b : Ballot), p.ballots[h]? = some b → b.height = h
  distinct : ∀ (h : Nat) (b : Ballot), p.ballots[h]? = some b → (b.payees.map Payee.script).Nodup
  counted : ∀ h s, p.votesFor h s = p.weightOn net h s

theorem tallied_empty (net : NetworkParams) (params : ClassParams) : Tallied net (empty params) := by
  refine ⟨?_, ?_, ?_, ?_⟩ <;> simp [empty, votesFor, weightOn, votesOn]

/-- Only votes and ballots matter. -/
theorem Tallied.congr {net : NetworkParams} {p q : Payments} (h : Tallied net p) (hv : q.votes = p.votes)
    (hb : q.ballots = p.ballots) : Tallied net q := by
  refine ⟨Voted.congr h.voted hv hb, ?_, ?_, ?_⟩
  · rw [hb]; exact h.height_eq
  · rw [hb]; exact h.distinct
  · intro height s
    have := h.counted height s
    unfold votesFor weightOn votesOn at this ⊢
    rw [hv, hb]
    exact this

/-! ## One vote more -/

theorem votesFor_withVote (p : Payments) (v : PaymentVote) (weight h : Nat) (s : Script) :
    (p.withVote v weight).votesFor h s = p.votesFor h s + if v.height = h ∧ v.payee = s then weight else 0 := by
  unfold votesFor withVote
  simp only [Table.lookup_insert]
  by_cases hh : v.height = h
  · subst hh
    simp only [if_true, true_and, Std.ExtTreeMap.getD_eq_getD_getElem?, Ballot.votesFor_add]
    cases p.ballots[v.height]? with
    | none => simp [Ballot.empty, Ballot.votesFor]
    | some b => simp
  · simp only [hh, if_false, false_and, Nat.add_zero]

theorem weightOn_withVote {p : Payments} {v : PaymentVote} (hnew : p.votes[v.hash]? = none) (net : NetworkParams)
    (weight h : Nat) (s : Script) :
    (p.withVote v weight).weightOn net h s =
      p.weightOn net h s + if v.height = h ∧ v.payee = s then net.voteWeight v.voter else 0 := by
  have hperm := (values_withVote hnew weight).filter fun u => decide (u.height = h ∧ u.payee = s)
  have hsum := (hperm.map fun u => net.voteWeight u.voter).sum_nat
  unfold weightOn votesOn
  rw [← List.sum_eq_foldr, ← List.sum_eq_foldr, hsum, List.filter_cons]
  by_cases hv : v.height = h ∧ v.payee = s
  · rw [if_pos (decide_eq_true hv), if_pos hv, List.map_cons, List.sum_cons, Nat.add_comm]
  · rw [if_neg (by simpa using hv), if_neg hv, Nat.add_zero]

theorem voted_withVote {p : Payments} {v : PaymentVote} (h : Voted p) (hnew : p.votes[v.hash]? = none)
    (weight : Nat) : Voted (p.withVote v weight) := by
  intro height
  have hmem : ∀ u, u ∈ (p.withVote v weight).votes.values ↔ u = v ∨ u ∈ p.votes.values := by
    intro u
    rw [← List.mem_cons]
    exact (values_withVote hnew weight).mem_iff
  simp only [hmem, exists_eq_or_imp]
  rw [← h height]
  simp [withVote, Std.ExtTreeMap.contains_insert]

theorem tallied_withVote {net : NetworkParams} {p : Payments} {v : PaymentVote} (h : Tallied net p)
    (hnew : p.votes[v.hash]? = none) : Tallied net (p.withVote v (net.voteWeight v.voter)) := by
  -- the ballot of the vote's height, as it was or new, names no script twice
  have hballot : ((p.ballots.getD v.height (.empty v.height)).payees.map Payee.script).Nodup ∧
      (p.ballots.getD v.height (.empty v.height)).height = v.height := by
    rw [Std.ExtTreeMap.getD_eq_getD_getElem?]
    cases hb : p.ballots[v.height]? with
    | none => exact ⟨by simp [Ballot.empty], rfl⟩
    | some b => exact ⟨h.distinct _ _ hb, h.height_eq _ _ hb⟩
  refine ⟨voted_withVote h.voted hnew _, Table.forall_insert h.height_eq hballot.2,
    Table.forall_insert h.distinct (Ballot.nodup_add hballot.1 v.payee _), ?_⟩
  intro height s
  rw [votesFor_withVote, weightOn_withVote hnew, h.counted height s]

/-! ## A sweep -/

theorem sweep_values (p : Payments) (tip registrySize : Nat) :
    (p.sweep tip registrySize).1.votes.values = p.votes.values.filter fun v => ¬ Old tip registrySize v.height :=
  Table.values_filter p.votes fun v => ¬ Old tip registrySize v.height

/-- A sweep drops the ballots of the old heights and no others. -/
theorem sweep_ballot {p : Payments} (h : Voted p) (tip registrySize height : Nat) :
    (p.sweep tip registrySize).1.ballots[height]? =
      if Old tip registrySize height then none else p.ballots[height]? := by
  let dropped := (p.votes.filter fun _ v => decide (Old tip registrySize v.height)).values.map PaymentVote.height
  have hdropped : ∀ x, x ∈ dropped ↔ ∃ v ∈ p.votes.values, Old tip registrySize v.height ∧ v.height = x := by
    intro x
    simp only [dropped, Table.values_filter, List.mem_map, List.mem_filter, decide_eq_true_eq, and_assoc]
  have hb : (p.sweep tip registrySize).1.ballots = p.ballots.filter fun x _ => decide (x ∉ dropped) := rfl
  rw [hb, Std.ExtTreeMap.getElem?_filter']
  by_cases ho : Old tip registrySize height
  · rw [if_pos ho]
    cases hx : p.ballots[height]? with
    | none => rfl
    | some b =>
      obtain ⟨v, hv, he⟩ := (h height).mp (Table.contains_of_lookup hx)
      have hm : height ∈ dropped := (hdropped height).mpr ⟨v, hv, he ▸ ho, he⟩
      simp only [Option.filter_some, hm, not_true_eq_false, decide_false, Bool.false_eq_true, if_false]
  · rw [if_neg ho]
    have hm : height ∉ dropped := by
      intro hm
      obtain ⟨v, -, hold, he⟩ := (hdropped height).mp hm
      exact ho (he ▸ hold)
    cases p.ballots[height]? with
    | none => rfl
    | some b => simp only [Option.filter_some, hm, not_false_eq_true, decide_true, if_true]

theorem votesFor_sweep {net : NetworkParams} {p : Payments} (h : Tallied net p) (tip registrySize height : Nat)
    (s : Script) :
    (p.sweep tip registrySize).1.votesFor height s =
      if Old tip registrySize height then 0 else p.votesFor height s := by
  unfold votesFor
  rw [sweep_ballot h.voted]
  by_cases ho : Old tip registrySize height
  · simp only [ho, if_true]
  · simp only [ho, if_false]

theorem weightOn_sweep (net : NetworkParams) (p : Payments) (tip registrySize height : Nat) (s : Script) :
    (p.sweep tip registrySize).1.weightOn net height s =
      if Old tip registrySize height then 0 else p.weightOn net height s := by
  unfold weightOn votesOn
  rw [sweep_values, List.filter_filter]
  by_cases ho : Old tip registrySize height
  · rw [if_pos ho, List.filter_eq_nil_iff.mpr, List.map_nil, List.foldr_nil]
    intro v _ hv
    simp only [decide_not, Bool.and_eq_true, decide_eq_true_eq, Bool.not_eq_true', decide_eq_false_iff_not] at hv
    exact hv.2 (hv.1.1 ▸ ho)
  · rw [if_neg ho]
    refine congrArg (fun l : List PaymentVote => (l.map fun v => net.voteWeight v.voter).foldr (· + ·) 0)
      (List.filter_congr ?_)
    intro v _
    by_cases hv : v.height = height
    · subst hv
      simp [ho]
    · simp [hv]

theorem voted_sweep {p : Payments} (h : Voted p) (tip registrySize : Nat) : Voted (p.sweep tip registrySize).1 := by
  intro height
  rw [Std.ExtTreeMap.contains_eq_isSome_getElem?, sweep_ballot h, sweep_values]
  simp only [List.mem_filter, decide_eq_true_eq]
  by_cases ho : Old tip registrySize height
  · simp only [ho, if_true, Option.isSome_none, Bool.false_eq_true, false_iff]
    rintro ⟨v, ⟨-, hv⟩, rfl⟩
    exact hv ho
  · simp only [ho, if_false]
    rw [← Std.ExtTreeMap.contains_eq_isSome_getElem?, h height]
    constructor
    · rintro ⟨v, hv, rfl⟩
      exact ⟨v, ⟨hv, ho⟩, rfl⟩
    · rintro ⟨v, ⟨hv, -⟩, rfl⟩
      exact ⟨v, hv, rfl⟩

theorem tallied_sweep {net : NetworkParams} {p : Payments} (h : Tallied net p) (tip registrySize : Nat) :
    Tallied net (p.sweep tip registrySize).1 := by
  have hballot := sweep_ballot h.voted tip registrySize
  refine ⟨voted_sweep h.voted tip registrySize, ?_, ?_, ?_⟩
  · intro height b hb
    rw [hballot] at hb
    split at hb
    · cases hb
    · exact h.height_eq height b hb
  · intro height b hb
    rw [hballot] at hb
    split at hb
    · cases hb
    · exact h.distinct height b hb
  · intro height s
    rw [votesFor_sweep h, weightOn_sweep, h.counted height s]

/-! ## Every run -/

theorem voted_step {p : Payments} (h : Voted p) (net : NetworkParams) (e : Event) : Voted (step net p e) := by
  rcases step_cases net p e with ⟨hv, hb⟩ | ⟨v, hnew, hv, hb⟩ | ⟨tip, registrySize, rfl⟩ | rfl
  · exact h.congr hv hb
  · exact (voted_withVote h hnew _).congr hv hb
  · exact voted_sweep h tip registrySize
  · exact (voted_empty p.params).congr rfl rfl

theorem tallied_step {net : NetworkParams} {p : Payments} (h : Tallied net p) (e : Event) :
    Tallied net (step net p e) := by
  rcases step_cases net p e with ⟨hv, hb⟩ | ⟨v, hnew, hv, hb⟩ | ⟨tip, registrySize, rfl⟩ | rfl
  · exact h.congr hv hb
  · exact (tallied_withVote h hnew).congr hv hb
  · exact tallied_sweep h tip registrySize
  · exact (tallied_empty net p.params).congr rfl rfl

theorem run_tallied (net : NetworkParams) (params : ClassParams) (es : List Event) : Tallied net (run net params es) :=
  List.foldlRecOn es (step net) (tallied_empty net params) fun _ h e _ => tallied_step h e

/-- An event that forgets the votes of a height: a clear, and a sweep for which the height is old. -/
def Event.Forgets (height : Nat) : Event → Prop
  | .sweep tip registrySize => Old tip registrySize height
  | .clear => True
  | _ => False

/-- An event that does not forget a height takes no votes from it. -/
theorem votesFor_le_step {net : NetworkParams} {p : Payments} (h : Tallied net p) {e : Event} {height : Nat}
    (he : ¬ e.Forgets height) (s : Script) : p.votesFor height s ≤ (step net p e).votesFor height s := by
  rcases step_cases net p e with ⟨-, hb⟩ | ⟨v, -, -, hb⟩ | ⟨tip, registrySize, rfl⟩ | rfl
  · refine Nat.le_of_eq ?_
    unfold votesFor
    rw [hb]
  · have hq : (step net p e).votesFor height s = (p.withVote v (net.voteWeight v.voter)).votesFor height s := by
      unfold votesFor
      rw [hb]
    rw [hq, votesFor_withVote]
    exact Nat.le_add_right _ _
  · have hq : (step net p (.sweep tip registrySize)).votesFor height s = p.votesFor height s := by
      have ho : ¬ Old tip registrySize height := he
      simp only [step, votesFor_sweep h, ho, if_false]
    exact Nat.le_of_eq hq.symm
  · exact absurd trivial he

theorem votesFor_le_run (net : NetworkParams) (params : ClassParams) (es more : List Event) {height : Nat}
    (hkeep : ∀ e ∈ more, ¬ e.Forgets height) (s : Script) :
    (run net params es).votesFor height s ≤ (run net params (es ++ more)).votesFor height s := by
  rw [run_append]
  have h := run_tallied net params es
  generalize run net params es = p at h
  induction more generalizing p with
  | nil => exact Nat.le_refl _
  | cons e rest ih =>
    have hstep := votesFor_le_step h (hkeep e List.mem_cons_self) s
    exact Nat.le_trans hstep (ih (fun e he => hkeep e (List.mem_cons_of_mem _ he)) _ (tallied_step h e))

/-- After every run the ballots are the weighted tally of the stored votes, and a count only grows until its
    height is forgotten. -/
theorem ballots_tally_the_stored_votes (net : NetworkParams) (params : ClassParams) (es : List Event) :
    (∀ h, (run net params es).ballots.contains h = true ↔
      ∃ v ∈ (run net params es).votes.values, v.height = h) ∧
    (∀ (h : Nat) (b : Ballot), (run net params es).ballots[h]? = some b →
      b.height = h ∧ (b.payees.map Payee.script).Nodup ∧
      ∀ s, s ∈ b.decided.map Payee.script ↔ paymentVotesRequired ≤ b.votesFor s) ∧
    (∀ h s, (run net params es).votesFor h s =
      (((run net params es).votes.values.filter fun v => v.height = h ∧ v.payee = s).map
        fun v => net.voteWeight v.voter).foldr (· + ·) 0) ∧
    ∀ more h, (∀ e ∈ more, ¬ e.Forgets h) → ∀ s,
      (run net params es).votesFor h s ≤ (run net params (es ++ more)).votesFor h s ∧
      (paymentVotesRequired ≤ (run net params es).votesFor h s →
        paymentVotesRequired ≤ (run net params (es ++ more)).votesFor h s) := by
  have ht := run_tallied net params es
  refine ⟨ht.voted, ?_, ht.counted, ?_⟩
  · intro h b hb
    exact ⟨ht.height_eq h b hb, ht.distinct h b hb, Ballot.decided_iff (ht.distinct h b hb)⟩
  · intro more h hkeep s
    have hle := votesFor_le_run net params es more hkeep s
    exact ⟨hle, fun hd => Nat.le_trans hd hle⟩

end Payments
end NodeQuorum
