/-
  NodeQuorum.Proofs.Lock.Erased — a conflict ends two locks, and the next sweep leaves nothing of them.

  The outputs of the two sides are freed at once. Their ballots are only set to expire, and a sweep finds what is to be
  dropped by its ballot: a request without a ballot would never be dropped.
  - `run_balloted`: every known request has a ballot (`Balloted`).
  - `cancelConflict_cancels`: what a conflict changes, and that nothing else changes (`Cancelling`).
  - `erased_of_no_ballot`: after a sweep nothing is left of a transaction without a ballot (`Erased`).
  `conflicts_cancel_two_locks_and_the_next_sweep_erases_them` puts them together for every run.
-/

import NodeQuorum.Proofs.Lock.Cancelled
import NodeQuorum.Proofs.Lock.Signers

namespace NodeQuorum.Locks

/-! ## Every request has a ballot -/

/-- Every transaction whose request is known, taken or refused by the pool, has a ballot. -/
def Balloted (s : Locks) : Prop := ∀ t : Hash, s.isRequested t = true → s.ballots.contains t = true

theorem isRequested_iff {s : Locks} {t : Hash} :
    s.isRequested t = true ↔ (∃ tx, s.requests[t]? = some tx) ∨ ∃ tx, s.rejected[t]? = some tx := by
  unfold isRequested
  rw [Bool.or_eq_true, Table.contains_iff_lookup, Table.contains_iff_lookup]

theorem not_isRequested_iff {s : Locks} {t : Hash} :
    s.isRequested t = false ↔ s.requests[t]? = none ∧ s.rejected[t]? = none := by
  unfold isRequested
  rw [Bool.or_eq_false_iff, Table.getElem?_eq_none_iff, Table.getElem?_eq_none_iff]

theorem balloted_empty : Balloted empty := by
  intro t ht
  simp [isRequested, empty] at ht

theorem ballot_of_move {s s' : Locks} (hm : Move s s') {t : Hash} (h : s.ballots.contains t = true) :
    s'.ballots.contains t = true := by
  obtain ⟨l, hl⟩ := Table.contains_iff_lookup.mp h
  obtain ⟨l', hl', -⟩ := (move_untouched hm Mempool.empty t).expiration l hl
  exact Table.contains_of_lookup hl'

/-- A request becomes known with its ballot; a refusal and a reinstatement are of known requests. -/
theorem requested_before_move {s s' : Locks} (hm : Move s s') {t : Hash} (h : s'.isRequested t = true) :
    s.isRequested t = true ∨ s'.ballots.contains t = true := by
  cases hm with
  | quiet h1 h2 _ _ =>
    unfold isRequested at h ⊢
    exact Or.inl (h1 ▸ h2 ▸ h)
  | @openBallot tx height now _ =>
    unfold isRequested openBallot at *
    simp only [Std.ExtTreeMap.contains_insert, Bool.or_eq_true] at h ⊢
    tauto
  | await => exact Or.inl h
  | addVote => exact Or.inl h
  | @markCompleted txid =>
    obtain ⟨-, h1, h2, -⟩ := markCompleted_spec s txid
    unfold isRequested at h ⊢
    exact Or.inl (h1 ▸ h2 ▸ h)
  | @reject tx hr =>
    refine Or.inl ?_
    rw [isRequested_iff] at h ⊢
    simp only [Table.lookup_erase, Table.lookup_insert] at h
    by_cases ht : tx.txid = t
    · exact Or.inl ⟨tx, ht ▸ hr⟩
    · simpa only [if_neg ht] using h
  | hold => exact Or.inl h
  | @reinstate tx hr =>
    refine Or.inl ?_
    rw [isRequested_iff] at h ⊢
    simp only [Table.lookup_insert] at h
    by_cases ht : tx.txid = t
    · exact Or.inr ⟨tx, ht ▸ hr⟩
    · simpa only [if_neg ht] using h

theorem balloted_move {s s' : Locks} (h : Balloted s) (hm : Move s s') : Balloted s' :=
  fun t ht => (requested_before_move hm ht).elim (fun hr => ballot_of_move hm (h t hr)) id

theorem balloted_moves {s s' : Locks} (h : Balloted s) (hm : Moves s s') : Balloted s' := by
  induction hm with
  | refl => exact h
  | tail _ hmove ih => exact balloted_move ih hmove

theorem contains_ballots_cancelConflict (s : Locks) (tx : Transaction) (now : Int) (t : Hash) :
    (s.cancelConflict tx now).1.ballots.contains t = s.ballots.contains t := by
  unfold cancelConflict
  cases s.rival? tx with
  | none => rfl
  | some other =>
    simp only [askRollback, expire, Std.ExtTreeMap.contains_modify]

theorem balloted_cancelConflict {s : Locks} (h : Balloted s) (tx : Transaction) (now : Int) :
    Balloted (s.cancelConflict tx now).1 := by
  intro t ht
  rw [isRequested_cancelConflict] at ht
  rw [contains_ballots_cancelConflict]
  exact h t ht

/-- A drop takes a ballot away together with its request. -/
theorem balloted_drop {s : Locks} (h : Balloted s) (x : Hash) : Balloted (s.drop x) := by
  intro t ht
  rw [isRequested_iff] at ht
  simp only [drop, Table.lookup_erase] at ht
  by_cases hx : x = t
  · simp [hx] at ht
  · simp only [if_neg hx] at ht
    obtain ⟨l, hl⟩ := Table.contains_iff_lookup.mp (h t (isRequested_iff.mpr ht))
    have hkept : (s.drop x).ballots[t]? = some l := by
      simp only [drop, Table.lookup_erase, if_neg hx]
      exact hl
    exact Table.contains_of_lookup hkept

theorem balloted_sweep {s : Locks} (h : Balloted s) (c : Chain) (now : Int) : Balloted (s.sweep c now).1 := by
  have hdropped : ∀ txids : List Hash, Balloted (txids.foldl drop s) := fun txids =>
    List.foldlRecOn txids drop h fun _ hs t _ => balloted_drop hs t
  exact hdropped (s.expired now)

theorem balloted_step {s : Locks} (h : Balloted s) (e : Event) : Balloted (step s e) := by
  have heffect : ∀ {s' : Locks} {m m' : Mempool} {now : Int} {c : Option (Hash × Hash)}, Effect s m now s' m' c →
      Balloted s' := by
    intro s' m m' now c he
    cases he with
    | kept hmoves _ => exact balloted_moves h hmoves
    | cancelled hmoves _ _ _ _ => exact balloted_cancelConflict (balloted_moves h hmoves) _ _
  cases e with
  | request tx registry mempool env => exact heffect (request_effect ⟨s, registry, mempool⟩ tx env)
  | vote peer v registry mempool env => exact heffect (vote_effect ⟨s, registry, mempool⟩ peer v env)
  | check tx now => exact balloted_cancelConflict h tx now
  | sweep chain now => exact balloted_sweep h chain now
  | takeRollback => exact h
  | clear => exact balloted_empty

theorem run_balloted (es : List Event) : Balloted (run es) :=
  List.foldlRecOn es step balloted_empty fun _ h e _ => balloted_step h e

/-! ## What a conflict changes -/

/-- There is a rival exactly if another transaction holds an output that this one spends. -/
theorem exists_rival_iff {s : Locks} {tx : Transaction} :
    (∃ other, s.rival? tx = some other) ↔ ∃ o ∈ tx.spends, ∃ t, s.inputs[o]? = some t ∧ t ≠ tx.txid := by
  constructor
  · rintro ⟨other, h⟩
    obtain ⟨hne, o, ho, hi⟩ := rival?_spec h
    exact ⟨o, ho, other, hi, hne⟩
  · rintro ⟨o, ho, t, hi, hne⟩
    cases h : s.rival? tx with
    | some other => exact ⟨other, rfl⟩
    | none => exact absurd (holder_of_no_rival h ho hi) hne

/-- Two locks are cancelled at a time: what they hold is freed, their ballots, where there are any, expire then, and a
    rollback is asked for. Nothing else changes. -/
structure Cancelling (s s' : Locks) (a b : Hash) (now : Int) : Prop where
  freed : ∀ o : OutPoint, s'.inputs[o]? ≠ some a ∧ s'.inputs[o]? ≠ some b
  others : ∀ (o : OutPoint) (t : Hash), t ≠ a → t ≠ b → (s'.inputs[o]? = some t ↔ s.inputs[o]? = some t)
  ballots : ∀ t : Hash, s'.ballots[t]? =
    if t = a ∨ t = b then (s.ballots[t]?).map fun l => { l with expiration := now } else s.ballots[t]?
  rollback : ∃ blocks, s'.rollback = some blocks ∧ rollbackBlocks ≤ blocks ∧ ∀ n, s.rollback = some n → n ≤ blocks
  rest : s' = { s with inputs := s'.inputs, ballots := s'.ballots, rollback := s'.rollback }

theorem cancelConflict_cancels {s : Locks} {tx : Transaction} {other : Hash} (h : s.rival? tx = some other)
    (now : Int) : Cancelling s (s.cancelConflict tx now).1 tx.txid other now where
  freed o := ⟨cancelConflict_frees h (Or.inl rfl) now o, cancelConflict_frees h (Or.inr rfl) now o⟩
  others o t ha hb := by
    rw [inputs_cancelConflict h, Std.ExtTreeMap.getElem?_filter', Option.filter_eq_some_iff, decide_eq_true_eq]
    exact and_iff_left ⟨ha, hb⟩
  ballots t := by
    unfold cancelConflict
    rw [h]
    simp only [askRollback, expire, Table.lookup_modify]
    have hne := (rival?_spec h).1
    by_cases ha : tx.txid = t
    · subst ha
      simp [hne]
    · by_cases hb : other = t
      · simp [hb, ha]
      · simp [ha, hb, Ne.symm ha, Ne.symm hb]
  rollback := by
    unfold cancelConflict
    rw [h]
    simp only [askRollback, expire]
    cases s.rollback with
    | none =>
      refine ⟨rollbackBlocks, rfl, Nat.le_refl _, ?_⟩
      rintro n ⟨⟩
    | some pending =>
      refine ⟨max pending rollbackBlocks, rfl, Nat.le_max_right _ _, ?_⟩
      rintro n ⟨⟩
      exact Nat.le_max_left _ _
  rest := by
    unfold cancelConflict
    rw [h]
    rfl

/-! ## What a sweep leaves -/

/-- Nothing of a transaction is left: no ballot, no request, taken or refused, no known vote and no output held. -/
structure Erased (s : Locks) (t : Hash) : Prop where
  ballot : s.ballots[t]? = none
  request : s.requests[t]? = none ∧ s.rejected[t]? = none
  votes : ∀ (k : Hash) (v : LockVote), s.votes[k]? = some v → v.txid ≠ t
  outputs : ∀ o : OutPoint, s.inputs[o]? ≠ some t

/-- After a sweep nothing is left of a transaction without a ballot. -/
theorem erased_of_no_ballot {s : Locks} (hs : Sound s) (hb : Balloted s) {c : Chain} {now : Int} {t : Hash}
    (h : (s.sweep c now).1.ballots[t]? = none) : Erased (s.sweep c now).1 t where
  ballot := h
  request := by
    rw [← not_isRequested_iff, Bool.eq_false_iff]
    intro hr
    obtain ⟨l, hl⟩ := Table.contains_iff_lookup.mp (balloted_sweep hb c now t hr)
    rw [h] at hl
    cases hl
  votes k v hv := by
    rw [votes_sweep, Option.filter_eq_some_iff, Bool.and_eq_true] at hv
    rintro rfl
    obtain ⟨l, hl⟩ := Table.contains_iff_lookup.mp hv.2.1
    rw [h] at hl
    cases hl
  outputs o ho := by
    obtain ⟨-, l, -, -, hl, -⟩ := (sound_sweep hs c now).holder o t ho
    rw [h] at hl
    cases hl

/-- A sweep later than a conflict drops both of its ballots. -/
theorem Cancelling.erased {s s' : Locks} {a b t : Hash} {now later : Int} (h : Cancelling s s' a b now)
    (ht : t = a ∨ t = b) (hs : Sound s') (hb : Balloted s') (c : Chain) (hlater : now < later) :
    Erased (s'.sweep c later).1 t := by
  refine erased_of_no_ballot hs hb ?_
  rw [Option.eq_none_iff_forall_ne_some]
  intro l hl
  obtain ⟨hbefore, hlasts⟩ := (ballot_sweep hs c later t l).mp hl
  rw [h.ballots, if_pos ht] at hbefore
  obtain ⟨l', -, rfl⟩ := Option.map_eq_some_iff.mp hbefore
  exact absurd hlasts (Int.not_le.mpr hlater)

/-! ## Every run -/

/-- In every state that a run reaches, and for every transaction: a check for conflicts names the transaction and
    another one exactly if the other holds one of its inputs; then it cancels these two and changes nothing else, and a
    sweep at any later time leaves nothing of them, whatever the chain is then. A check that names nobody changes
    nothing. -/
theorem conflicts_cancel_two_locks_and_the_next_sweep_erases_them (es : List Event) (tx : Transaction) (now : Int) :
    let s := run es
    let s' := (s.cancelConflict tx now).1
    let named := (s.cancelConflict tx now).2
    ((∃ other, named = some (tx.txid, other)) ↔ ∃ o ∈ tx.spends, ∃ t, s.inputs[o]? = some t ∧ t ≠ tx.txid) ∧
    (∀ a b, named = some (a, b) →
      a = tx.txid ∧ b ≠ tx.txid ∧ (∃ o ∈ tx.spends, s.inputs[o]? = some b) ∧ Cancelling s s' a b now ∧
      ∀ (c : Chain) (later : Int), now < later →
        Erased (s'.sweep c later).1 a ∧ Erased (s'.sweep c later).1 b) ∧
    (named = none → s' = s) := by
  intro s s' named
  have hsound : Sound s' := sound_cancelConflict (run_sound es) tx now
  have hballoted : Balloted s' := balloted_cancelConflict (run_balloted es) tx now
  cases hrival : s.rival? tx with
  | none =>
    have hcheck : s.cancelConflict tx now = (s, none) := cancelConflict_none hrival now
    have hnamed : named = none := congrArg Prod.snd hcheck
    refine ⟨?_, ?_, fun _ => congrArg Prod.fst hcheck⟩
    · rw [← exists_rival_iff, hnamed, hrival]
      simp
    · rw [hnamed]
      exact nofun
  | some other =>
    have hnamed : named = some (tx.txid, other) := cancelConflict_some hrival now
    have hcancels : Cancelling s s' tx.txid other now := cancelConflict_cancels hrival now
    refine ⟨?_, ?_, ?_⟩
    · rw [← exists_rival_iff]
      exact ⟨fun _ => ⟨other, hrival⟩, fun _ => ⟨other, hnamed⟩⟩
    · rw [hnamed]
      rintro _ _ ⟨⟩
      obtain ⟨hne, hheld⟩ := rival?_spec hrival
      refine ⟨rfl, hne, hheld, hcancels, ?_⟩
      intro c later hlater
      exact ⟨hcancels.erased (Or.inl rfl) hsound hballoted c hlater,
        hcancels.erased (Or.inr rfl) hsound hballoted c hlater⟩
    · rw [hnamed]
      exact nofun

end NodeQuorum.Locks
