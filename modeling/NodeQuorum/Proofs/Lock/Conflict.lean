/-
  NodeQuorum.Proofs.Lock.Conflict — which locks cancel each other.

  A complete lock is cancelled with whoever holds an output that its transaction spends. Holders are complete
  locks and transactions that the pool refused, and the latter hold their outputs without any vote:
  - `only_complete_or_refused_locks_cancel`: of the two locks of a conflict the first has its six votes, and the
    second has them or was refused. Any other lock keeps its expiration, its outputs and its place in the pool.
  - A refused request holds the outputs that nobody held, however many votes its lock has, and a vote that
    completes a lock reports a conflict with the holder of an output, however many votes the holder has. So a
    complete lock is cancelled by an incomplete one exactly if the latter was refused by the pool.
-/

import NodeQuorum.Proofs.Lock.Holders

namespace NodeQuorum.Locks

/-- The two locks that a request or a vote cancels. -/
def cancelled? (s : Locks) : Event → Option (Hash × Hash)
  | .request tx registry mempool env => requestConflict? ⟨s, registry, mempool⟩ tx env
  | .vote peer v registry mempool env => reported? (processVote ⟨s, registry, mempool⟩ peer v env).verdict
  | _ => none

/-- Whether the ballot on a transaction has its votes. -/
def IsComplete (s : Locks) (txid : Hash) : Prop := ∃ l, s.ballots[txid]? = some l ∧ l.isComplete = true

theorem isComplete_iff {s : Locks} {txid : Hash} : s.IsComplete txid ↔ lockVotesRequired ≤ (s.signatures? txid).getD 0 := by
  unfold IsComplete signatures?
  cases s.ballots[txid]? with
  | none =>
    have hnone : ¬ lockVotesRequired ≤ 0 := by decide
    simp [hnone]
  | some l => simp [Lock.isComplete]

/-! ## The two sides -/

/-- A rival is another transaction, and holds an output that the transaction spends. -/
theorem rival?_spec {s : Locks} {tx : Transaction} {other : Hash} (h : s.rival? tx = some other) :
    other ≠ tx.txid ∧ ∃ o ∈ tx.spends, s.inputs[o]? = some other := by
  unfold rival? at h
  have hne := List.find?_some h
  have hmem := List.mem_of_find?_eq_some h
  rw [List.mem_filterMap] at hmem
  exact ⟨of_decide_eq_true hne, hmem⟩

theorem isComplete_expire {s : Locks} {t : Hash} (h : s.IsComplete t) (txid : Hash) (now : Int) :
    (s.expire txid now).IsComplete t := by
  obtain ⟨l, hl, hc⟩ := h
  unfold IsComplete expire
  dsimp only
  rw [Table.lookup_modify]
  split
  · exact ⟨{ l with expiration := now }, by rw [hl, Option.map_some], hc⟩
  · exact ⟨l, hl, hc⟩

/-- Cancelled locks keep their votes. -/
theorem isComplete_cancelConflict {s : Locks} {t : Hash} (h : s.IsComplete t) (tx : Transaction) (now : Int) :
    (s.cancelConflict tx now).1.IsComplete t := by
  unfold cancelConflict
  split
  · exact h
  · exact isComplete_expire (isComplete_expire h tx.txid now) _ now

theorem rejected_cancelConflict (s : Locks) (tx : Transaction) (now : Int) :
    (s.cancelConflict tx now).1.rejected = s.rejected := by
  unfold cancelConflict
  split <;> rfl

/-- Of two cancelled locks the first is complete, and the second is complete or was refused. -/
theorem effect_sides {s s' : Locks} {m m' : Mempool} {now : Int} {a b : Hash} (h : Sound s)
    (he : Effect s m now s' m' (some (a, b))) :
    a ≠ b ∧ s'.IsComplete a ∧ (s'.IsComplete b ∨ s'.rejected.contains b = true) := by
  cases he with
  | @cancelled s₁ txid _ tx l hmoves hr hl hc hrival =>
    have hsound := sound_moves h hmoves
    have htxid := hsound.requested_txid hr
    obtain ⟨hne, o, -, ho⟩ := rival?_spec hrival
    obtain ⟨-, l', -, -, hl', hc'⟩ := hsound.holder o b ho
    refine ⟨hne.symm, isComplete_cancelConflict ⟨l, htxid ▸ hl, hc⟩ tx now, ?_⟩
    rcases hc' with hc' | hc'
    · exact Or.inl (isComplete_cancelConflict ⟨l', hl', hc'⟩ tx now)
    · exact Or.inr (by rw [rejected_cancelConflict]; exact hc')

/-! ## All others -/

/-- A lock is left alone: it keeps its expiration, its outputs and its place in the pool. -/
structure Untouched (s s' : Locks) (m m' : Mempool) (t : Hash) : Prop where
  expiration : ∀ l, s.ballots[t]? = some l → ∃ l', s'.ballots[t]? = some l' ∧ l'.expiration = l.expiration
  outputs : ∀ o : OutPoint, s.inputs[o]? = some t → s'.inputs[o]? = some t
  pooled : m.transactions.contains t = true → m'.transactions.contains t = true

theorem expiration_modify {ballots : Table Hash Lock} {t : Hash} {l : Lock} (hl : ballots[t]? = some l) (txid : Hash)
    {f : Lock → Lock} (hf : txid = t → (f l).expiration = l.expiration) :
    ∃ l', (ballots.modify txid f)[t]? = some l' ∧ l'.expiration = l.expiration := by
  rw [Table.lookup_modify]
  split
  · rename_i he
    exact ⟨f l, by rw [hl, Option.map_some], hf he⟩
  · exact ⟨l, hl, rfl⟩

/-- A move leaves every lock alone. -/
theorem move_untouched {s s' : Locks} (hm : Move s s') (m : Mempool) (t : Hash) : Untouched s s' m m t := by
  refine ⟨?_, ?_, id⟩
  · intro l hl
    cases hm with
    | quiet _ _ h3 _ => exact ⟨l, by rw [h3, hl], rfl⟩
    | @openBallot tx height now _ =>
      simp only [openBallot, Table.lookup_insert]
      split
      · rename_i he
        rw [he, hl]
        exact ⟨{ l with height }, rfl, rfl⟩
      · exact ⟨l, hl, rfl⟩
    | await => exact ⟨l, by rw [Table.lookup_insertIfNew, hl, Option.some_or], rfl⟩
    | addVote => exact expiration_modify hl _ fun _ => rfl
    | @markCompleted txid =>
      rw [(markCompleted_spec s txid).1]
      exact expiration_modify hl txid fun _ => rfl
    | reject _ => exact ⟨l, hl, rfl⟩
    | hold _ _ _ => exact ⟨l, hl, rfl⟩
    | reinstate _ => exact ⟨l, hl, rfl⟩
  · intro o ho
    cases hm with
    | quiet _ _ _ h4 => rw [h4, ho]
    | openBallot _ => exact ho
    | await => exact ho
    | addVote => exact ho
    | @markCompleted txid => rw [(markCompleted_spec s txid).2.2.2, ho]
    | reject _ => exact ho
    | hold _ _ _ => rw [lookup_hold, ho, Option.some_or]
    | reinstate _ => exact ho

theorem Untouched.trans {s s' s'' : Locks} {m m' m'' : Mempool} {t : Hash} (h : Untouched s s' m m' t)
    (h' : Untouched s' s'' m' m'' t) : Untouched s s'' m m'' t := by
  refine ⟨?_, fun o ho => h'.outputs o (h.outputs o ho), fun ht => h'.pooled (h.pooled ht)⟩
  intro l hl
  obtain ⟨l', hl', he'⟩ := h.expiration l hl
  obtain ⟨l'', hl'', he''⟩ := h'.expiration l' hl'
  exact ⟨l'', hl'', he''.trans he'⟩

theorem moves_untouched {s s' : Locks} (hm : Moves s s') (m : Mempool) (t : Hash) : Untouched s s' m m t := by
  induction hm with
  | refl => exact ⟨fun l hl => ⟨l, hl, rfl⟩, fun _ ho => ho, id⟩
  | tail _ hmove ih => exact ih.trans (move_untouched hmove m t)

theorem contains_remove {m : Mempool} {t txid : Hash} (h : m.transactions.contains t = true) (hne : txid ≠ t) :
    (m.remove txid).transactions.contains t = true := by
  unfold Mempool.remove
  split
  · rw [Table.contains_iff_lookup] at h ⊢
    dsimp only
    rw [Table.lookup_erase, if_neg hne]
    exact h
  · exact h

/-- Cancelling two locks leaves every third alone. -/
theorem cancelConflict_untouched {s : Locks} {tx : Transaction} {other t : Hash} (hr : s.rival? tx = some other)
    (ht : t ≠ tx.txid) (ho : t ≠ other) (m : Mempool) (now : Int) :
    Untouched s (s.cancelConflict tx now).1 m ((m.remove tx.txid).remove other) t := by
  unfold cancelConflict
  rw [hr]
  refine ⟨?_, ?_, fun hm => contains_remove (contains_remove hm ht.symm) ho.symm⟩
  · intro l hl
    obtain ⟨l', hl', he'⟩ :=
      expiration_modify hl tx.txid (f := fun l => { l with expiration := now }) fun he => absurd he.symm ht
    obtain ⟨l'', hl'', he''⟩ :=
      expiration_modify hl' other (f := fun l => { l with expiration := now }) fun he => absurd he.symm ho
    exact ⟨l'', hl'', he''.trans he'⟩
  · intro o hi
    simp only [askRollback, expire, Std.ExtTreeMap.getElem?_filter', hi, Option.filter_some, ne_eq, ht, ho,
      not_false_eq_true, and_self, decide_true, if_true]

theorem effect_untouched {s s' : Locks} {m m' : Mempool} {now : Int} {c : Option (Hash × Hash)}
    (he : Effect s m now s' m' c) {t : Hash} (ht : ∀ a b, c = some (a, b) → t ≠ a ∧ t ≠ b) :
    Untouched s s' m m' t := by
  cases he with
  | kept hmoves hm =>
    have h := moves_untouched hmoves m t
    exact ⟨h.expiration, h.outputs, hm t⟩
  | cancelled hmoves _ _ _ hrival =>
    obtain ⟨ha, hb⟩ := ht _ _ rfl
    exact (moves_untouched hmoves m t).trans (cancelConflict_untouched hrival ha hb m now)

/-! ## What makes a conflict -/

/-- A refused request that cancels no lock changes no holder, and holds what it spends and nobody held. -/
theorem inputs_refused_request {s : LockState} {tx : Transaction} {env : LockEnv} {height : Nat}
    {e : Mempool.DoubleSpend} (hcheck : s.locks.checkRequest tx env = .ok height)
    (hpool : s.mempool.accept tx = .error e) (hnone : requestConflict? s tx env = none) (o : OutPoint) :
    (processRequest s tx env).state.locks.inputs[o]? =
      s.locks.inputs[o]?.or (if o ∈ tx.spends then some tx.txid else none) := by
  let opened : LockState := { s with locks := s.locks.openBallot tx height env.now }
  have hprocess : (processRequest s tx env).state = (refuse opened tx env).1 := by
    unfold processRequest
    rw [hcheck]
    dsimp only
    rw [hpool]
  have hconflict : (refuse opened tx env).2 = none := by
    unfold requestConflict? at hnone
    rw [hcheck] at hnone
    dsimp only at hnone
    rw [hpool] at hnone
    exact hnone
  have hheld : (opened.locks.refused tx).inputs[o]? =
      s.locks.inputs[o]?.or (if o ∈ tx.spends then some tx.txid else none) := by
    unfold refused
    rw [lookup_hold]
    rfl
  rw [hprocess, ← hheld]
  rw [refuse_eq] at hconflict ⊢
  by_cases hc : (opened.locks.ballots[tx.txid]?).any Lock.isComplete = true
  · rw [if_pos hc] at hconflict ⊢
    rcases cancel_cases { opened with locks := opened.locks.refused tx } tx env.now with ⟨-, he⟩ | ⟨_, -, he⟩
    · rw [he]
      rfl
    · rw [he] at hconflict
      cases hconflict
  · rw [if_neg hc]

/-- A refused request holds the outputs that nobody held, whatever votes there are for it. -/
theorem refused_request_holds {s : LockState} {tx : Transaction} {env : LockEnv} {height : Nat}
    {e : Mempool.DoubleSpend} (hcheck : s.locks.checkRequest tx env = .ok height)
    (hpool : s.mempool.accept tx = .error e) (hnone : requestConflict? s tx env = none) {o : OutPoint}
    (ho : o ∈ tx.spends) :
    (processRequest s tx env).state.locks.inputs[o]? = s.locks.inputs[o]?.or (some tx.txid) := by
  rw [inputs_refused_request hcheck hpool hnone, if_pos ho]

/-- A lock that has its votes is in conflict with whoever holds an output that it spends. -/
theorem complete_reports {s : LockState} {txid other : Hash} {tx : Transaction} (hr : s.locks.requested? txid = some tx)
    (hrival : s.locks.rival? tx = some other) (env : LockEnv) :
    (complete s txid env).2 = .error (.conflict tx.txid other) := by
  obtain ⟨-, h1, h2, h3⟩ := markCompleted_spec s.locks txid
  have hr' : (s.locks.markCompleted txid).1.requested? txid = some tx := by
    rw [requested?_eq, h1, h2, ← requested?_eq, hr]
  have hrival' : (s.locks.markCompleted txid).1.rival? tx = some other := by
    unfold rival? at hrival ⊢
    rw [h3]
    exact hrival
  unfold complete
  dsimp only
  rw [hr']
  dsimp only
  rcases cancel_cases { s with locks := (s.locks.markCompleted txid).1 } tx env.now with ⟨hn, -⟩ | ⟨b, hb, he⟩
  · rw [show (s.locks.markCompleted txid).1.rival? tx = none from hn] at hrival'
    cases hrival'
  · rw [show (s.locks.markCompleted txid).1.rival? tx = some b from hb] at hrival'
    cases hrival'
    rw [he]

/-- Announcing a vote changes no more than the times at which voters may vote next. -/
theorem announce_locks (s : LockState) (v : LockVote) (verdict : Verdict) (env : LockEnv) :
    ∃ unknownVotes, (announce s v verdict env).state.locks = { s.locks with unknownVotes } := by
  have hrate : ∃ unknownVotes, (s.locks.allowUnknown v.voter env.now).1 = { s.locks with unknownVotes } := by
    unfold allowUnknown
    dsimp only
    split <;> exact ⟨_, rfl⟩
  unfold announce
  dsimp only
  split
  · exact ⟨s.locks.unknownVotes, rfl⟩
  · split
    · rename_i ha
      rw [ha] at hrate
      exact hrate
    · rename_i ha
      rw [ha] at hrate
      exact hrate

/-- Whether a vote is looked at and its voter may vote. -/
def Taken (s : LockState) (v : LockVote) (env : LockEnv) : Prop :=
  s.locks.checkVote v env = .ok () ∧
    checkVoter (s.registry.checkAll env.chain env.now false) v
      ((s.registry.checkAll env.chain env.now false).rankOf? env.chain v.voter v.height minVoterProtocol) = .ok ()

theorem processVote_of_taken {s : LockState} {v : LockVote} {env : LockEnv} (h : Taken s v env) (peer : PeerId) :
    processVote s peer v env =
      announce (count (remembered s v env) v env).1 v (count (remembered s v env) v env).2 env := by
  unfold processVote
  rw [h.1]
  dsimp only
  rw [h.2]
  rfl

/-- A vote whose lock has its votes reports a conflict with the holder of an output, whatever votes that has. -/
theorem vote_reports {s : LockState} {v : LockVote} {env : LockEnv} {tx : Transaction} {other : Hash} (peer : PeerId)
    (ht : Taken s v env) (hr : s.locks.requested? v.txid = some tx) (hrival : s.locks.rival? tx = some other)
    (hc : (processVote s peer v env).state.locks.IsComplete v.txid) :
    reported? (processVote s peer v env).verdict = some (tx.txid, other) := by
  let r := remembered s v env
  have hprocess : processVote s peer v env = announce (count r v env).1 v (count r v env).2 env :=
    processVote_of_taken ht peer
  by_cases hq : lockVotesRequired ≤ ((r.locks.counted v env.now).signatures? v.txid).getD 0
  · have hreport : (count r v env).2 = .error (.conflict tx.txid other) := by
      rw [count_eq, if_pos hq]
      exact complete_reports (s := { r with locks := r.locks.counted v env.now }) hr hrival env
    have hrequested : (count r v env).1.locks.isRequested v.txid = true := by
      refine (count_effect r v env).2.resolve_left ?_
      rw [hreport]
      exact nofun
    rw [hprocess, announce]
    rw [if_pos hrequested, hreport]
    rfl
  · -- too few votes were counted, and announcing adds none
    obtain ⟨unknownVotes, hrate⟩ := announce_locks (count r v env).1 v (count r v env).2 env
    rw [hprocess, hrate, count_eq, if_neg hq] at hc
    exact absurd (isComplete_iff.mp hc) hq

/-- In every state that a run reaches: of two locks that a request or a vote cancels the first is complete, and
    the second is complete or was refused by the pool; every other lock is left alone. A refused request holds
    its outputs without votes, and a complete lock is cancelled with the holder whatever votes that has. -/
theorem only_complete_or_refused_locks_cancel (es : List Event) :
    (∀ e a b, (run es).cancelled? e = some (a, b) →
      a ≠ b ∧ ((run es).step e).IsComplete a ∧
      (((run es).step e).IsComplete b ∨ ((run es).step e).rejected.contains b = true)) ∧
    (∀ tx r m env t, (∀ a b, (run es).cancelled? (.request tx r m env) = some (a, b) → t ≠ a ∧ t ≠ b) →
      Untouched (run es) ((run es).step (.request tx r m env)) m
        (processRequest ⟨run es, r, m⟩ tx env).state.mempool t) ∧
    (∀ peer v r m env t, (∀ a b, (run es).cancelled? (.vote peer v r m env) = some (a, b) → t ≠ a ∧ t ≠ b) →
      Untouched (run es) ((run es).step (.vote peer v r m env)) m
        (processVote ⟨run es, r, m⟩ peer v env).state.mempool t) ∧
    (∀ tx r m env height e, (run es).checkRequest tx env = .ok height → m.accept tx = .error e →
      (run es).cancelled? (.request tx r m env) = none → ∀ o ∈ tx.spends,
        ((run es).step (.request tx r m env)).inputs[o]? = (run es).inputs[o]?.or (some tx.txid)) ∧
    ∀ peer v r m env tx b, Taken ⟨run es, r, m⟩ v env → (run es).requested? v.txid = some tx →
      (run es).rival? tx = some b → ((run es).step (.vote peer v r m env)).IsComplete v.txid →
      (run es).cancelled? (.vote peer v r m env) = some (v.txid, b) := by
  have h := run_sound es
  refine ⟨?_, ?_, ?_, ?_, ?_⟩
  · intro e a b he
    cases e with
    | request tx r m env =>
      have heffect := request_effect ⟨run es, r, m⟩ tx env
      rw [show requestConflict? ⟨run es, r, m⟩ tx env = some (a, b) from he] at heffect
      exact effect_sides h heffect
    | vote peer v r m env =>
      have heffect := vote_effect ⟨run es, r, m⟩ peer v env
      rw [show reported? (processVote ⟨run es, r, m⟩ peer v env).verdict = some (a, b) from he] at heffect
      exact effect_sides h heffect
    | check tx now => cases he
    | sweep chain now => cases he
    | takeRollback => cases he
    | clear => cases he
  · intro tx r m env t ht
    exact effect_untouched (request_effect ⟨run es, r, m⟩ tx env) ht
  · intro peer v r m env t ht
    exact effect_untouched (vote_effect ⟨run es, r, m⟩ peer v env) ht
  · intro tx r m env height e hcheck hpool hnone o ho
    exact refused_request_holds (s := ⟨run es, r, m⟩) hcheck hpool hnone ho
  · intro peer v r m env tx b ht hr hrival hc
    have hreport := vote_reports (s := ⟨run es, r, m⟩) peer ht hr hrival hc
    rw [h.requested_txid hr] at hreport
    exact hreport

end NodeQuorum.Locks
