/-
  NodeQuorum.Proofs.Lock.Cancelled — how long a cancelled lock stays cancelled.

  A conflict frees what both of its locks hold, but their ballots, votes and requests stay until a sweep. A further
  vote for one of them finds its ballot complete and goes the way of completion again, which does not look at whether
  the lock was cancelled:
  - `holder_message`: after a message an output is held by whoever gained it (`Gains`), and by its old holder unless
    that one was cancelled. A lock gains its outputs by a counted vote that leaves it complete while nobody else holds
    one of them, and by a first request that the pool refuses.
  - `holder_messages`: the same of any number of messages.
  - `cancelled_locks_hold_nothing_until_a_straggling_vote`: from a conflict on, up to the next sweep, an output is held
    by one of the two exactly if that one gained it since and was not cancelled again; so a lock whose request is known
    holds nothing as long as no vote for it comes, and the next one may give everything back.
-/

import NodeQuorum.Proofs.Lock.Completion

namespace NodeQuorum.Locks

/-! ## What a conflict leaves -/

/-- Neither of two cancelled locks holds anything. -/
theorem cancelConflict_frees {s : Locks} {tx : Transaction} {other t : Hash} (h : s.rival? tx = some other)
    (ht : t = tx.txid ∨ t = other) (now : Int) (o : OutPoint) : (s.cancelConflict tx now).1.inputs[o]? ≠ some t := by
  rw [inputs_cancelConflict h, Std.ExtTreeMap.getElem?_filter', ne_eq, Option.filter_eq_some_iff, decide_eq_true_eq]
  rintro ⟨-, hours, htheirs⟩
  exact ht.elim hours htheirs

theorem effect_frees {s s' : Locks} {m m' : Mempool} {now : Int} {a b t : Hash}
    (he : Effect s m now s' m' (some (a, b))) (ht : t = a ∨ t = b) (o : OutPoint) : s'.inputs[o]? ≠ some t := by
  cases he with
  | cancelled _ _ _ _ hrival => exact cancelConflict_frees hrival ht now o

/-- What a request or a vote cancels is named by what it does. -/
theorem cancelled?_effect {s : Locks} {e : Event} {a b : Hash} (h : s.cancelled? e = some (a, b)) :
    ∃ m m' now, Effect s m now (step s e) m' (some (a, b)) := by
  cases e with
  | request tx r m env =>
    have heffect := request_effect ⟨s, r, m⟩ tx env
    rw [show requestConflict? ⟨s, r, m⟩ tx env = some (a, b) from h] at heffect
    exact ⟨m, _, env.now, heffect⟩
  | vote peer v r m env =>
    have heffect := vote_effect ⟨s, r, m⟩ peer v env
    rw [show reported? (processVote ⟨s, r, m⟩ peer v env).verdict = some (a, b) from h] at heffect
    exact ⟨m, _, env.now, heffect⟩
  | check tx now => cases h
  | sweep c now => cases h
  | takeRollback => cases h
  | clear => cases h

theorem cancelled_frees {s : Locks} {e : Event} {t : Hash} (h : Cancels t s e) (o : OutPoint) :
    (step s e).inputs[o]? ≠ some t := by
  obtain ⟨a, b, ht, hnamed | ⟨tx, now, rfl, hnamed⟩⟩ := h
  · obtain ⟨m, m', now, heffect⟩ := cancelled?_effect hnamed
    exact effect_frees heffect ht o
  · cases hrival : s.rival? tx with
    | none =>
      rw [cancelConflict_none hrival] at hnamed
      cases hnamed
    | some other =>
      rw [cancelConflict_some hrival] at hnamed
      cases hnamed
      exact cancelConflict_frees hrival ht now o

/-- The requests of two locks that a request or a vote cancels are known. -/
theorem isRequested_of_cancelled? {s : Locks} (hs : Sound s) {e : Event} {a b : Hash}
    (h : s.cancelled? e = some (a, b)) : (step s e).isRequested a = true ∧ (step s e).isRequested b = true := by
  obtain ⟨m, m', now, heffect⟩ := cancelled?_effect h
  revert heffect
  generalize step s e = s'
  intro heffect
  cases heffect with
  | @cancelled s₁ txid _ tx l hmoves hr _ _ hrival =>
    have hsound := sound_moves hs hmoves
    obtain ⟨-, o, -, ho⟩ := rival?_spec hrival
    obtain ⟨tx', -, hr', -⟩ := hsound.holder o b ho
    rw [isRequested_cancelConflict, isRequested_cancelConflict, hsound.requested_txid hr]
    exact ⟨isRequested_of_requested? hr, isRequested_of_requested? hr'⟩

/-! ## Who holds an output after a message -/

/-- A message gives an output to a lock: a counted vote that leaves it complete while its request stands and nobody
    else holds an output that it spends, or its first request, which the pool refuses, while nobody holds the output. -/
inductive Gains (t : Hash) (o : OutPoint) (s : Locks) : Event → Prop
  | vote {peer : PeerId} {v : LockVote} {r : Registry} {m : Mempool} {env : LockEnv} {tx : Transaction} :
      Taken ⟨s, r, m⟩ v env → v.txid = t → s.requests[t]? = some tx → o ∈ tx.spends → s.rival? tx = none →
      (step s (.vote peer v r m env)).IsComplete t → Gains t o s (.vote peer v r m env)
  | request {tx : Transaction} {r : Registry} {m : Mempool} {env : LockEnv} {height : Nat} {e : Mempool.DoubleSpend} :
      tx.txid = t → s.checkRequest tx env = .ok height → m.accept tx = .error e →
      s.cancelled? (.request tx r m env) = none → o ∈ tx.spends → s.inputs[o]? = none →
      Gains t o s (.request tx r m env)

theorem held_of_gains {s : Locks} (hs : Sound s) {e : Event} {t : Hash} {o : OutPoint} (h : Gains t o s e) :
    (step s e).inputs[o]? = some t := by
  cases h with
  | vote htaken htxid hr ho hrival hc =>
    subst htxid
    exact vote_holds_of_no_rival hs htaken hr hrival hc ho
  | request htxid hcheck haccept hnone ho hfree =>
    subst htxid
    unfold step
    rw [inputs_refused_request hcheck haccept hnone, if_pos ho]
    dsimp only
    rw [hfree, Option.none_or]

/-- Completion gives an output only to its own lock, if the request stands and nobody else holds an output that it
    spends. -/
theorem gained_by_complete {s : LockState} {txid t : Hash} {env : LockEnv} {o : OutPoint}
    (hafter : (complete s txid env).1.locks.inputs[o]? = some t) (hbefore : s.locks.inputs[o]? ≠ some t) :
    t = txid ∧ ∃ tx, s.locks.requests[txid]? = some tx ∧ o ∈ tx.spends ∧ s.locks.rival? tx = none := by
  rw [inputs_complete] at hafter
  split at hafter
  · exact absurd hafter hbefore
  rename_i tx hr
  split at hafter
  · rw [Std.ExtTreeMap.getElem?_filter', Option.filter_eq_some_iff] at hafter
    exact absurd hafter.1 hbefore
  rename_i hrival
  split at hafter
  · rename_i hstands
    obtain ⟨tx', hr'⟩ := Table.contains_iff_lookup.mp hstands
    obtain rfl : tx' = tx := by
      rw [requested?_eq, hr', Option.some_or] at hr
      exact Option.some.inj hr
    rw [lookup_hold, Option.or_eq_some_iff] at hafter
    have hheld := (hafter.resolve_left hbefore).2
    split at hheld
    · rename_i hspends
      exact ⟨(Option.some.inj hheld).symm, tx', hr', hspends, hrival⟩
    · cases hheld
  · exact absurd hafter hbefore

theorem gains_of_vote {s : Locks} {peer : PeerId} {v : LockVote} {r : Registry} {m : Mempool} {env : LockEnv} {t : Hash}
    {o : OutPoint} (hafter : (step s (.vote peer v r m env)).inputs[o]? = some t) (hbefore : s.inputs[o]? ≠ some t) :
    Gains t o s (.vote peer v r m env) := by
  have htaken : Taken ⟨s, r, m⟩ v env := by
    refine Classical.byContradiction ?_
    intro hnot
    exact hbefore (held_before_vote (fun htaken => absurd htaken hnot) hafter)
  have hcounted := hafter
  rw [inputs_vote_of_taken htaken, count_eq] at hcounted
  split at hcounted
  · rename_i hquorum
    obtain ⟨rfl, tx, hr, ho, hrival⟩ := gained_by_complete hcounted hbefore
    have hcomplete := isComplete_of_tally ((vote_of_taken htaken peer).tally v.txid) (isComplete_iff.mpr hquorum)
    exact .vote htaken rfl hr ho hrival hcomplete
  · exact absurd hcounted hbefore

/-- Of two locks that a refusal by the pool cancels the first is that of the refused transaction. -/
theorem fst_of_refuse {s : LockState} {tx : Transaction} {env : LockEnv} {pair : Hash × Hash}
    (h : (refuse s tx env).2 = some pair) : pair.1 = tx.txid := by
  rw [refuse_eq] at h
  split at h
  · rcases cancel_cases { s with locks := s.locks.refused tx } tx env.now with ⟨-, he⟩ | ⟨_, -, he⟩
    · rw [he] at h
      cases h
    · rw [he] at h
      cases h
      rfl
  · cases h

theorem gains_of_request {s : Locks} {tx : Transaction} {r : Registry} {m : Mempool} {env : LockEnv} {t : Hash}
    {o : OutPoint} (hafter : (step s (.request tx r m env)).inputs[o]? = some t) (hbefore : s.inputs[o]? ≠ some t) :
    Gains t o s (.request tx r m env) := by
  rcases request_cases s r m tx env with ⟨e, -, he⟩ | ⟨height, hcheck, ⟨m', haccept, -⟩ | ⟨e, haccept, he⟩⟩
  · rw [he] at hafter
    exact absurd hafter hbefore
  · rw [inputs_request_of_accepted hcheck haccept] at hafter
    exact absurd hafter hbefore
  · have htxid : tx.txid = t := by
      refine Decidable.byContradiction ?_
      intro hne
      rw [he] at hafter
      exact hbefore (held_before_refuse (Ne.symm hne) hafter)
    subst htxid
    -- a conflict would have freed the outputs of the request again
    have hnone : s.cancelled? (.request tx r m env) = none := by
      rw [Option.eq_none_iff_forall_ne_some]
      intro pair hpair
      have hfirst := fst_of_refuse ((cancelled?_of_refused hcheck haccept r).symm.trans hpair)
      exact cancelled_frees ⟨pair.1, pair.2, Or.inl hfirst.symm, Or.inl hpair⟩ o hafter
    have hheld := hafter
    unfold step at hheld
    rw [inputs_refused_request hcheck haccept hnone, Option.or_eq_some_iff] at hheld
    obtain ⟨hfree, hspends⟩ := hheld.resolve_left hbefore
    split at hspends
    · rename_i ho
      exact .request rfl hcheck haccept hnone ho hfree
    · cases hspends

/-- After a message an output is held by the lock that gained it, or by its old holder if that one is not cancelled. -/
theorem holder_message {s : Locks} (hs : Sound s) {e : Event} (hm : e.IsMessage) (o : OutPoint) (t : Hash) :
    (step s e).inputs[o]? = some t ↔ Gains t o s e ∨ s.inputs[o]? = some t ∧ ¬ Cancels t s e := by
  constructor
  · intro hafter
    have hkept : ¬ Cancels t s e := fun hcancels => cancelled_frees hcancels o hafter
    by_cases hbefore : s.inputs[o]? = some t
    · exact Or.inr ⟨hbefore, hkept⟩
    · refine Or.inl ?_
      cases e with
      | request tx r m env => exact gains_of_request hafter hbefore
      | vote peer v r m env => exact gains_of_vote hafter hbefore
      | check | sweep | takeRollback | clear => cases hm
  · rintro (hgains | ⟨hbefore, hkept⟩)
    · exact held_of_gains hs hgains
    · have hother : ∀ a b, s.cancelled? e = some (a, b) → t ≠ a ∧ t ≠ b := fun a b => ne_of_not_cancels hkept
      cases e with
      | request tx r m env => exact (effect_untouched (request_effect ⟨s, r, m⟩ tx env) hother).outputs o hbefore
      | vote peer v r m env => exact (effect_untouched (vote_effect ⟨s, r, m⟩ peer v env) hother).outputs o hbefore
      | check | sweep | takeRollback | clear => cases hm

/-! ## Who holds an output after some messages -/

/-- No event cancels a lock. -/
def Uncancelled (t : Hash) : Locks → List Event → Prop
  | _, [] => True
  | s, e :: rest => ¬ Cancels t s e ∧ Uncancelled t (step s e) rest

/-- An event gives an output to a lock, and no later one cancels the lock. -/
def Regained (t : Hash) (o : OutPoint) : Locks → List Event → Prop
  | _, [] => False
  | s, e :: rest => (Gains t o s e ∧ Uncancelled t (step s e) rest) ∨ Regained t o (step s e) rest

/-- After some messages an output is held by a lock that gained it and was not cancelled since, or that had it and was
    not cancelled at all. -/
theorem holder_messages {s : Locks} (hs : Sound s) {more : List Event} (hm : ∀ e ∈ more, e.IsMessage) (o : OutPoint)
    (t : Hash) : (more.foldl step s).inputs[o]? = some t ↔
      Regained t o s more ∨ s.inputs[o]? = some t ∧ Uncancelled t s more := by
  induction more generalizing s with
  | nil => simp [Regained, Uncancelled]
  | cons e rest ih =>
    have hrest := ih (sound_step hs e) fun e he => hm e (List.mem_cons_of_mem _ he)
    rw [List.foldl_cons, hrest, holder_message hs (hm e List.mem_cons_self)]
    simp only [Regained, Uncancelled]
    tauto

/-- A lock whose request is known gains nothing without a vote for it. -/
theorem not_regained_without_vote {s : Locks} {t : Hash} (hr : s.isRequested t = true) {more : List Event}
    (hm : ∀ e ∈ more, e.IsMessage) (hvotes : ∀ peer v r m env, .vote peer v r m env ∈ more → v.txid ≠ t)
    (o : OutPoint) : ¬ Regained t o s more := by
  induction more generalizing s with
  | nil => exact id
  | cons e rest ih =>
    rintro (⟨hgains, -⟩ | hlater)
    · cases hgains with
      | vote _ htxid _ _ _ _ => exact hvotes _ _ _ _ _ List.mem_cons_self htxid
      | request htxid hcheck _ _ _ _ =>
        rw [← htxid, checkRequest_new hcheck] at hr
        cases hr
    · refine ih (isRequested_message hr (hm e List.mem_cons_self)) ?_ ?_ hlater
      · exact fun e he => hm e (List.mem_cons_of_mem _ he)
      · exact fun peer v r m env he => hvotes peer v r m env (List.mem_cons_of_mem _ he)

/-! ## Every run -/

/-- In every state that a run reaches: two locks that a message cancels have known requests. A cancelled lock holds
    nothing. From then on, as long as only messages come, it holds an output exactly if it gained the output since and
    was not cancelled again; and if its request is known, it holds nothing until a vote for it comes. -/
theorem cancelled_locks_hold_nothing_until_a_straggling_vote (es : List Event) (e : Event) :
    (∀ a b, (run es).cancelled? e = some (a, b) →
      (run (es ++ [e])).isRequested a = true ∧ (run (es ++ [e])).isRequested b = true) ∧
    ∀ t, Cancels t (run es) e →
      (∀ o : OutPoint, (run (es ++ [e])).inputs[o]? ≠ some t) ∧
      ∀ more, (∀ e' ∈ more, Event.IsMessage e') →
        (∀ o : OutPoint, (run (es ++ e :: more)).inputs[o]? = some t ↔ Regained t o (run (es ++ [e])) more) ∧
        ((run (es ++ [e])).isRequested t = true → (∀ peer v r m env, .vote peer v r m env ∈ more → v.txid ≠ t) →
          ∀ o : OutPoint, (run (es ++ e :: more)).inputs[o]? ≠ some t) := by
  rw [run_concat]
  refine ⟨fun a b h => isRequested_of_cancelled? (run_sound es) h, ?_⟩
  intro t hcancels
  refine ⟨cancelled_frees hcancels, ?_⟩
  intro more hm
  have hholds : ∀ o : OutPoint, (run (es ++ e :: more)).inputs[o]? = some t ↔
      Regained t o ((run es).step e) more := by
    intro o
    have hmessages := holder_messages (sound_step (run_sound es) e) hm o t
    have hrun : run (es ++ e :: more) = more.foldl step ((run es).step e) := by
      unfold run
      rw [List.foldl_append, List.foldl_cons]
    rw [hrun, hmessages]
    exact or_iff_left fun hheld => cancelled_frees hcancels o hheld.1
  refine ⟨hholds, ?_⟩
  intro hr hvotes o ho
  exact not_regained_without_vote hr hm hvotes o ((hholds o).mp ho)

end NodeQuorum.Locks
