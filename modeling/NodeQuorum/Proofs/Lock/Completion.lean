/-
  NodeQuorum.Proofs.Lock.Completion — when a complete lock holds its outputs.

  A lock is completed by its sixth vote, or by its request, which gives the ballot its height: earlier votes count
  from then on, and this node's own vote may be the sixth. What a complete lock is owed, the holding of its
  outputs, is done by a vote and by a request that the pool refuses, but not by a request that the pool takes:
  - `inputs_complete`, `inputs_refuse`, `inputs_request_of_accepted`: who holds what after each of the three.
  - `complete_locks_hold_their_outputs_unless_their_request_completed_them`: a complete lock that no conflict
    cancelled holds all of its outputs exactly if it was not completed by a request that the pool took, and
    otherwise it holds none of them until its next vote.
-/

import NodeQuorum.Proofs.Lock.Outcome

namespace NodeQuorum.Locks

/-! ## Who holds what -/

/-- Without a rival, nobody else holds an output that the transaction spends. -/
theorem holder_of_no_rival {s : Locks} {tx : Transaction} (h : s.rival? tx = none) {o : OutPoint}
    (ho : o ∈ tx.spends) {t : Hash} (hi : s.inputs[o]? = some t) : t = tx.txid := by
  unfold rival? at h
  rw [List.find?_eq_none] at h
  have hsame := h t (List.mem_filterMap.mpr ⟨o, ho, hi⟩)
  exact of_not_not fun hne => hsame (decide_eq_true hne)

/-- Without a rival, holding its outputs gives a transaction all of them. -/
theorem lookup_hold_of_no_rival {s : Locks} {tx : Transaction} (h : s.rival? tx = none) {o : OutPoint}
    (ho : o ∈ tx.spends) : (s.hold tx.txid tx.spends).inputs[o]? = some tx.txid := by
  rw [lookup_hold, if_pos ho]
  cases hi : s.inputs[o]? with
  | none => rfl
  | some t => rw [holder_of_no_rival h ho hi, Option.some_or]

/-- Holding outputs gives them to the one transaction. -/
theorem held_before_hold {s : Locks} {txid t : Hash} (hne : t ≠ txid) {outputs : List OutPoint} {o : OutPoint}
    (h : (s.hold txid outputs).inputs[o]? = some t) : s.inputs[o]? = some t := by
  rw [lookup_hold, Option.or_eq_some_iff] at h
  refine h.resolve_right ?_
  rintro ⟨-, hheld⟩
  split at hheld
  · exact hne (Option.some.inj hheld).symm
  · cases hheld

/-- Cancelling gives no output to anybody. -/
theorem held_before_cancelConflict {s : Locks} {tx : Transaction} {now : Int} {o : OutPoint} {t : Hash}
    (h : (s.cancelConflict tx now).1.inputs[o]? = some t) : s.inputs[o]? = some t := by
  unfold cancelConflict at h
  split at h
  · exact h
  · dsimp only [askRollback] at h
    rw [Std.ExtTreeMap.getElem?_filter', Option.filter_eq_some_iff] at h
    exact h.1

theorem rival?_congr {s s' : Locks} (h : s'.inputs = s.inputs) (tx : Transaction) : s'.rival? tx = s.rival? tx := by
  unfold rival?
  rw [h]

theorem inputs_cancelConflict {s : Locks} {tx : Transaction} {other : Hash} (h : s.rival? tx = some other) (now : Int) :
    (s.cancelConflict tx now).1.inputs = s.inputs.filter fun _ t => decide (t ≠ tx.txid ∧ t ≠ other) := by
  unfold cancelConflict
  rw [h]
  rfl

/-- What a ballot that has its votes means for the outputs: they are freed with a rival's, or held if the request is
    known and was not refused. -/
theorem inputs_complete (s : LockState) (txid : Hash) (env : LockEnv) :
    (complete s txid env).1.locks.inputs =
      match s.locks.requested? txid with
      | none => s.locks.inputs
      | some tx =>
        match s.locks.rival? tx with
        | some other => s.locks.inputs.filter fun _ t => decide (t ≠ tx.txid ∧ t ≠ other)
        | none => if s.locks.requests.contains txid then (s.locks.hold txid tx.spends).inputs else s.locks.inputs := by
  let marked : LockState := { s with locks := (s.locks.markCompleted txid).1 }
  obtain ⟨-, hrequests, hrejected, hinputs⟩ := markCompleted_spec s.locks txid
  have hrequested : marked.locks.requested? txid = s.locks.requested? txid := by
    rw [requested?_eq, requested?_eq, hrequests, hrejected]
  -- the end of every branch without a rival: perhaps a rollback is asked for
  have hfinish : ∀ s' : LockState, (if s'.locks.rejected.contains txid then
      { s' with locks := s'.locks.askRollback rollbackBlocks } else s').locks.inputs = s'.locks.inputs := by
    intro s'
    split <;> rfl
  unfold complete
  dsimp only
  rw [show (s.locks.markCompleted txid).1.requested? txid = _ from hrequested]
  cases s.locks.requested? txid with
  | none => exact (hfinish marked).trans hinputs
  | some tx =>
    have hrival : marked.locks.rival? tx = s.locks.rival? tx := rival?_congr hinputs tx
    dsimp only
    rcases cancel_cases marked tx env.now with ⟨hn, he⟩ | ⟨other, hb, he⟩
    · rw [show cancel { s with locks := (s.locks.markCompleted txid).1 } tx env.now = (marked, none) from he]
      rw [← hrival, hn]
      dsimp only
      rw [hrequests]
      split
      · refine (hfinish { marked with locks := marked.locks.hold txid tx.spends }).trans ?_
        unfold hold
        dsimp only
        rw [hinputs]
      · exact (hfinish marked).trans hinputs
    · rw [show cancel { s with locks := (s.locks.markCompleted txid).1 } tx env.now = _ from he]
      rw [← hrival, hb]
      dsimp only
      rw [inputs_cancelConflict hb, hinputs]

/-- Completion gives outputs to its own transaction alone. -/
theorem held_before_complete {s : LockState} {txid t : Hash} (hne : t ≠ txid) {env : LockEnv} {o : OutPoint}
    (h : (complete s txid env).1.locks.inputs[o]? = some t) : s.locks.inputs[o]? = some t := by
  rw [inputs_complete] at h
  split at h
  · exact h
  split at h
  · rw [Std.ExtTreeMap.getElem?_filter', Option.filter_eq_some_iff] at h
    exact h.1
  split at h
  · exact held_before_hold hne h
  · exact h

/-! ## A vote -/

theorem inputs_vote_of_taken {s : Locks} {r : Registry} {m : Mempool} {v : LockVote} {env : LockEnv}
    (h : Taken ⟨s, r, m⟩ v env) (peer : PeerId) :
    (step s (.vote peer v r m env)).inputs = (count (remembered ⟨s, r, m⟩ v env) v env).1.locks.inputs := by
  let known := remembered ⟨s, r, m⟩ v env
  obtain ⟨unknownVotes, hrate⟩ := announce_locks (count known v env).1 v (count known v env).2 env
  unfold step
  dsimp only
  rw [processVote_of_taken h, hrate]

/-- A counted vote gives outputs to its own transaction alone. -/
theorem held_before_vote {s : Locks} {r : Registry} {m : Mempool} {peer : PeerId} {v : LockVote} {env : LockEnv}
    {t : Hash} (hne : Taken ⟨s, r, m⟩ v env → v.txid ≠ t) {o : OutPoint}
    (h : (step s (.vote peer v r m env)).inputs[o]? = some t) : s.inputs[o]? = some t := by
  by_cases htaken : Taken ⟨s, r, m⟩ v env
  · rw [inputs_vote_of_taken htaken, count_eq] at h
    split at h
    · exact held_before_complete (hne htaken).symm h
    · exact h
  · rcases vote_of_not_taken htaken peer with hs | hs
    · rwa [hs] at h
    · rw [hs] at h
      exact h

/-- A vote that leaves a requested lock with its votes leaves it with its outputs, if nobody else holds one of them. -/
theorem vote_holds_of_no_rival {s : Locks} (hs : Sound s) {r : Registry} {m : Mempool} {v : LockVote} {env : LockEnv}
    {tx : Transaction} {peer : PeerId} (htaken : Taken ⟨s, r, m⟩ v env) (hr : s.requests[v.txid]? = some tx)
    (hrival : s.rival? tx = none) (hc : (step s (.vote peer v r m env)).IsComplete v.txid) {o : OutPoint}
    (ho : o ∈ tx.spends) : (step s (.vote peer v r m env)).inputs[o]? = some v.txid := by
  let known : LockState := remembered ⟨s, r, m⟩ v env
  have hrequested : s.requested? v.txid = some tx := by rw [requested?_eq, hr, Option.some_or]
  have htxid : tx.txid = v.txid := hs.requested_txid hrequested
  have hquorum : lockVotesRequired ≤ ((known.locks.counted v env.now).signatures? v.txid).getD 0 :=
    isComplete_iff.mp (isComplete_of_tally ((vote_of_taken htaken peer).tally v.txid).symm hc)
  have hcompleted : (step s (.vote peer v r m env)).inputs = (s.hold tx.txid tx.spends).inputs := by
    rw [inputs_vote_of_taken htaken, count_eq, if_pos hquorum, inputs_complete]
    rw [show (known.locks.counted v env.now).requested? v.txid = some tx from hrequested]
    dsimp only
    rw [show (known.locks.counted v env.now).rival? tx = none from hrival]
    dsimp only
    rw [show (known.locks.counted v env.now).requests.contains v.txid = true from Table.contains_of_lookup hr]
    rw [if_pos rfl, htxid]
    rfl
  rw [hcompleted, lookup_hold_of_no_rival hrival ho, htxid]

/-- A vote that leaves a requested lock with its votes, and cancels it with no other, leaves it with its outputs. -/
theorem vote_holds {s : Locks} (hs : Sound s) {r : Registry} {m : Mempool} {v : LockVote} {env : LockEnv}
    {tx : Transaction} {peer : PeerId} (htaken : Taken ⟨s, r, m⟩ v env) (hr : s.requests[v.txid]? = some tx)
    (hnone : ∀ other, s.cancelled? (.vote peer v r m env) ≠ some (v.txid, other))
    (hc : (step s (.vote peer v r m env)).IsComplete v.txid) {o : OutPoint} (ho : o ∈ tx.spends) :
    (step s (.vote peer v r m env)).inputs[o]? = some v.txid := by
  have hrequested : s.requested? v.txid = some tx := by rw [requested?_eq, hr, Option.some_or]
  refine vote_holds_of_no_rival hs htaken hr ?_ hc ho
  rw [Option.eq_none_iff_forall_ne_some]
  intro other hother
  have hreport := vote_reports (s := ⟨s, r, m⟩) peer htaken hrequested hother hc
  rw [hs.requested_txid hrequested] at hreport
  exact hnone other hreport

/-! ## A request -/

theorem withOwn_inputs (s : Locks) (own : Option LockVote) : (s.withOwn own).inputs = s.inputs := by
  cases own <;> rfl

/-- A request that the pool takes gives no output to anybody, whatever votes its ballot has. -/
theorem inputs_request_of_accepted {s : Locks} {m m' : Mempool} {tx : Transaction} {env : LockEnv} {height : Nat}
    (hcheck : s.checkRequest tx env = .ok height) (haccept : m.accept tx = .ok m') (r : Registry) :
    (step s (.request tx r m env)).inputs = s.inputs := by
  rw [request_of_accepted hcheck haccept, withOwn_inputs]
  rfl

/-- If the ballot of a refused request has its votes, and no conflict cancels it, it is a request again and holds its
    outputs. -/
theorem refuse_holds {s : LockState} {tx tx' : Transaction} {env : LockEnv}
    (hnone : ∀ other, (refuse s tx env).2 ≠ some (tx.txid, other))
    (hr : (refuse s tx env).1.locks.requests[tx.txid]? = some tx') {o : OutPoint} (ho : o ∈ tx'.spends) :
    (refuse s tx env).1.locks.inputs[o]? = some tx.txid := by
  rw [refuse_eq] at hnone hr ⊢
  by_cases hc : (s.locks.ballots[tx.txid]?).any Lock.isComplete = true
  · rw [if_pos hc] at hnone hr ⊢
    rcases cancel_cases { s with locks := s.locks.refused tx } tx env.now with ⟨hrival, he⟩ | ⟨other, -, he⟩
    · rw [he] at hr ⊢
      dsimp only at hr ⊢
      rw [Table.lookup_insert, if_pos rfl, Option.some.injEq] at hr
      subst hr
      have hheld : ∃ t, (s.locks.refused tx).inputs[o]? = some t := by
        unfold refused
        rw [lookup_hold, if_pos ho]
        exact ⟨_, Option.or_some⟩
      obtain ⟨t, ht⟩ := hheld
      rw [← holder_of_no_rival hrival ho ht]
      exact ht
    · rw [he] at hnone
      exact absurd rfl (hnone other)
  · rw [if_neg hc] at hr
    have herased : (s.locks.refused tx).requests[tx.txid]? = none := Std.ExtTreeMap.getElem?_erase_self
    rw [show (s.locks.refused tx).requests[tx.txid]? = some tx' from hr] at herased
    cases herased

/-- A refused request gives outputs to its own transaction alone. -/
theorem held_before_refuse {s : LockState} {tx : Transaction} {env : LockEnv} {t : Hash} (hne : t ≠ tx.txid)
    {o : OutPoint} (h : (refuse s tx env).1.locks.inputs[o]? = some t) : s.locks.inputs[o]? = some t := by
  have hrefused : (s.locks.refused tx).inputs[o]? = some t → s.locks.inputs[o]? = some t := held_before_hold hne
  rw [refuse_eq] at h
  split at h
  · rcases cancel_cases { s with locks := s.locks.refused tx } tx env.now with ⟨-, he⟩ | ⟨other, -, he⟩
    · rw [he] at h
      exact hrefused h
    · rw [he] at h
      exact hrefused (held_before_cancelConflict h)
  · exact hrefused h

theorem refuse_requests_of_ne {s : LockState} {tx : Transaction} {env : LockEnv} {t : Hash} (hne : tx.txid ≠ t) :
    (refuse s tx env).1.locks.requests[t]? = s.locks.requests[t]? := by
  have hrefused : (s.locks.refused tx).requests[t]? = s.locks.requests[t]? := by
    unfold refused hold
    dsimp only
    rw [Table.lookup_erase, if_neg hne]
  rw [refuse_eq]
  split
  · rcases cancel_cases { s with locks := s.locks.refused tx } tx env.now with ⟨-, he⟩ | ⟨other, -, he⟩
    · rw [he]
      dsimp only [askRollback]
      rw [Table.lookup_insert, if_neg hne, hrefused]
    · rw [he]
      dsimp only
      rw [(sameRecord_cancelConflict (s.locks.refused tx) tx env.now).requests, hrefused]
  · exact hrefused

/-- A request leaves the request and the tally of any other transaction alone. -/
theorem request_frame (s : Locks) (r : Registry) (m : Mempool) {tx : Transaction} (env : LockEnv) {t : Hash}
    (hne : tx.txid ≠ t) : (step s (.request tx r m env)).requests[t]? = s.requests[t]? ∧
      (step s (.request tx r m env)).tally? t = s.tally? t := by
  have hopen : ∀ height, (s.openBallot tx height env.now).requests[t]? = s.requests[t]? ∧
      (s.openBallot tx height env.now).tally? t = s.tally? t := by
    intro height
    unfold openBallot tally?
    dsimp only
    rw [Table.lookup_insert, Table.lookup_insert, if_neg hne, if_neg hne]
    exact ⟨rfl, rfl⟩
  rcases request_cases s r m tx env with ⟨_, -, he⟩ | ⟨height, -, ⟨_, -, he⟩ | ⟨_, -, he⟩⟩
  · rw [he]
    exact ⟨rfl, rfl⟩
  · rw [he]
    cases hown : ownVote? r tx.txid height env with
    | none => exact hopen height
    | some v =>
      refine ⟨(hopen height).1, ?_⟩
      rw [← (hopen height).2]
      unfold withOwn addVote tally?
      dsimp only
      rw [Table.lookup_modify, txid_of_ownVote? hown, if_neg hne]
  · rw [he, refuse_requests_of_ne hne, (refuse_record _ tx env).2 t]
    exact hopen height

/-! ## Any event -/

/-- A transaction is one of two that an event cancels. -/
def Cancels (t : Hash) (s : Locks) (e : Event) : Prop :=
  ∃ a b, (t = a ∨ t = b) ∧
    (s.cancelled? e = some (a, b) ∨ ∃ tx now, e = .check tx now ∧ (s.cancelConflict tx now).2 = some (a, b))

theorem ne_of_not_cancels {t : Hash} {s : Locks} {e : Event} (h : ¬ Cancels t s e) {a b : Hash}
    (he : s.cancelled? e = some (a, b)) : t ≠ a ∧ t ≠ b := by
  rw [← not_or]
  exact fun ht => h ⟨a, b, ht, Or.inl he⟩

/-- A lock that is neither cancelled nor dropped keeps its outputs. -/
theorem held_after_step {s : Locks} (hs : Sound s) {e : Event} {t : Hash} (hcancels : ¬ Cancels t s e)
    (hb : (step s e).IsComplete t) {o : OutPoint} (ho : s.inputs[o]? = some t) :
    (step s e).inputs[o]? = some t := by
  have hother : ∀ a b, s.cancelled? e = some (a, b) → t ≠ a ∧ t ≠ b := fun a b => ne_of_not_cancels hcancels
  cases e with
  | request tx r m env => exact (effect_untouched (request_effect ⟨s, r, m⟩ tx env) hother).outputs o ho
  | vote peer v r m env => exact (effect_untouched (vote_effect ⟨s, r, m⟩ peer v env) hother).outputs o ho
  | check tx now =>
    unfold step
    dsimp only
    cases hrival : s.rival? tx with
    | none => rwa [cancelConflict_none hrival]
    | some other =>
      have hnames : t ≠ tx.txid ∧ t ≠ other := by
        rw [← not_or]
        exact fun ht => hcancels ⟨_, _, ht, Or.inr ⟨tx, now, rfl, cancelConflict_some hrival now⟩⟩
      exact (cancelConflict_untouched hrival hnames.1 hnames.2 Mempool.empty now).outputs o ho
  | sweep c now =>
    obtain ⟨l, hl, -⟩ := hb
    exact (holder_sweep hs c now o t).mpr ⟨ho, l, (ballot_sweep hs c now t l).mp hl⟩
  | takeRollback => exact ho
  | clear =>
    obtain ⟨l, hl, -⟩ := hb
    cases hl

/-- An event that adds no vote to a requested lock gives it no output. -/
theorem held_before_step {s : Locks} (hs : Sound s) {e : Event} {t : Hash} (hr : s.isRequested t = true)
    (hadds : ∀ v, Adds s e v → v.txid ≠ t) {o : OutPoint} (ho : (step s e).inputs[o]? = some t) :
    s.inputs[o]? = some t := by
  cases e with
  | request tx r m env =>
    rcases request_cases s r m tx env with ⟨_, -, he⟩ | ⟨height, hcheck, ⟨_, haccept, -⟩ | ⟨_, -, he⟩⟩
    · rwa [he] at ho
    · rwa [inputs_request_of_accepted hcheck haccept] at ho
    · -- the request is new, so it is another transaction's
      have hne : t ≠ tx.txid := by
        rintro rfl
        rw [checkRequest_new hcheck] at hr
        cases hr
      rw [he] at ho
      exact held_before_refuse hne ho
  | vote peer v r m env => exact held_before_vote (fun htaken => hadds v (.received htaken)) ho
  | check tx now => exact held_before_cancelConflict ho
  | sweep c now => exact ((holder_sweep hs c now o t).mp ho).1
  | takeRollback => exact ho
  | clear => cases ho

/-- Where a complete lock whose request is known has it from: the event gave it its outputs, or the event is its
    request and the pool took it, or it was requested and complete before and the event added no vote to it. -/
inductive Origin (s : Locks) (e : Event) (t : Hash) (tx : Transaction) : Prop
  | held : (∀ o ∈ tx.spends, (step s e).inputs[o]? = some t) → Origin s e t tx
  | request {asked : Transaction} {r : Registry} {m m' : Mempool} {env : LockEnv} {height : Nat} :
      e = .request asked r m env → asked.txid = t → s.checkRequest asked env = .ok height → m.accept asked = .ok m' →
      Origin s e t tx
  | before : (∀ v, Adds s e v → v.txid ≠ t) → s.requests[t]? = some tx → s.IsComplete t → Origin s e t tx

theorem origin_of_request {s : Locks} {asked tx : Transaction} {r : Registry} {m : Mempool} {env : LockEnv} {t : Hash}
    (hcancels : ¬ Cancels t s (.request asked r m env)) (hr : (step s (.request asked r m env)).requests[t]? = some tx)
    (hc : (step s (.request asked r m env)).IsComplete t) : Origin s (.request asked r m env) t tx := by
  by_cases ht : asked.txid = t
  · subst ht
    rcases request_cases s r m asked env with
      ⟨e, hcheck, he⟩ | ⟨height, hcheck, ⟨m', haccept, -⟩ | ⟨e, haccept, he⟩⟩
    · rw [he] at hr hc
      refine .before ?_ hr hc
      intro v hadds
      obtain ⟨height, -, hok, -⟩ := adds_request_iff.mp hadds
      rw [hcheck] at hok
      cases hok
    · exact .request rfl rfl hcheck haccept
    · have hconflict := cancelled?_of_refused hcheck haccept r
      rw [he] at hr
      refine .held ?_
      intro o ho
      rw [he]
      exact refuse_holds (fun _ hpair => (ne_of_not_cancels hcancels (hconflict.trans hpair)).1 rfl) hr ho
  · obtain ⟨hrequests, htally⟩ := request_frame s r m env ht
    refine .before ?_ (hrequests ▸ hr) (isComplete_of_tally htally.symm hc)
    intro v hadds
    obtain ⟨height, m', -, -, hown⟩ := adds_request_iff.mp hadds
    rwa [txid_of_ownVote? hown]

theorem origin_of_vote {s : Locks} (hs : Sound s) {peer : PeerId} {v : LockVote} {r : Registry} {m : Mempool}
    {env : LockEnv} {t : Hash} {tx : Transaction} (hcancels : ¬ Cancels t s (.vote peer v r m env))
    (hr : (step s (.vote peer v r m env)).requests[t]? = some tx)
    (hc : (step s (.vote peer v r m env)).IsComplete t) : Origin s (.vote peer v r m env) t tx := by
  by_cases htaken : Taken ⟨s, r, m⟩ v env
  · have hrecord := vote_of_taken htaken peer
    rw [hrecord.requests] at hr
    by_cases ht : v.txid = t
    · subst ht
      refine .held ?_
      intro o ho
      exact vote_holds hs htaken hr (fun _ hpair => (ne_of_not_cancels hcancels hpair).1 rfl) hc ho
    · have htally := (hrecord.tally t).trans (tally?_counted_of_ne (s.remember v) v env.now ht)
      refine .before ?_ hr (isComplete_of_tally htally.symm hc)
      intro v' hadds
      rwa [(adds_vote_iff.mp hadds).1]
  · have hnone : ∀ v', Adds s (.vote peer v r m env) v' → v'.txid ≠ t := fun v' hadds =>
      absurd (adds_vote_iff.mp hadds).2 htaken
    rcases vote_of_not_taken htaken peer with he | he
    · rw [he] at hr hc
      exact .before hnone hr hc
    · rw [he] at hr hc
      exact .before hnone hr hc

theorem origin_of_step {s : Locks} (hs : Sound s) {e : Event} {t : Hash} {tx : Transaction}
    (hcancels : ¬ Cancels t s e) (hr : (step s e).requests[t]? = some tx) (hc : (step s e).IsComplete t) :
    Origin s e t tx := by
  cases e with
  | request asked r m env => exact origin_of_request hcancels hr hc
  | vote peer v r m env => exact origin_of_vote hs hcancels hr hc
  | check asked now =>
    have hrecord := sameRecord_cancelConflict s asked now
    exact .before nofun (hrecord.requests ▸ hr) (isComplete_of_tally (hrecord.tally t).symm hc)
  | sweep c now =>
    obtain ⟨l, hl, hlc⟩ := hc
    exact .before nofun ((request_sweep hs hl).1 ▸ hr) ⟨l, ((ballot_sweep hs c now t l).mp hl).1, hlc⟩
  | takeRollback => exact .before nofun hr hc
  | clear => cases hr

/-! ## Every run -/

/-- A run in which a request that the pool took left its ballot with the votes required, and the ballot kept them and
    got no more. -/
inductive CompletedByRequest (t : Hash) : List Event → Prop
  | request {es : List Event} {tx : Transaction} {r : Registry} {m m' : Mempool} {env : LockEnv} {height : Nat} :
      tx.txid = t → (run es).checkRequest tx env = .ok height → m.accept tx = .ok m' →
      (run (es ++ [.request tx r m env])).IsComplete t → CompletedByRequest t (es ++ [.request tx r m env])
  | later {es : List Event} {e : Event} : CompletedByRequest t es → (∀ v, Adds (run es) e v → v.txid ≠ t) →
      (run (es ++ [e])).IsComplete t → CompletedByRequest t (es ++ [e])

/-- A complete ballot has votes. -/
theorem votesOn_ne_nil {s : Locks} {t : Hash} (h : s.IsComplete t) : s.votesOn t ≠ [] := by
  obtain ⟨l, hl, hc⟩ := h
  rw [votesOn_of_ballot hl]
  intro hnil
  have hnone : l.signatures = 0 := by
    unfold Lock.signatures
    rw [hnil, List.countP_nil, ite_self]
  have hcount : lockVotesRequired ≤ l.signatures := of_decide_eq_true hc
  rw [hnone] at hcount
  exact absurd hcount (by decide)

/-- Completed by its request, a lock is requested and holds nothing. -/
theorem CompletedByRequest.holds_nothing {t : Hash} {es : List Event} (h : CompletedByRequest t es) :
    (run es).isRequested t = true ∧ ∀ o : OutPoint, (run es).inputs[o]? ≠ some t := by
  induction h with
  | @request es tx r m m' env height htxid hcheck haccept _ =>
    subst htxid
    rw [run_concat]
    refine ⟨?_, ?_⟩
    · exact isRequested_of_accepted hcheck haccept r
    · rw [inputs_request_of_accepted hcheck haccept]
      intro o ho
      -- whoever holds an output was requested, and this request is new
      obtain ⟨tx', -, hrequested, -⟩ := (run_sound es).holder o tx.txid ho
      have hnew := checkRequest_new hcheck
      rw [isRequested_of_requested? hrequested] at hnew
      cases hnew
  | @later es e _ hadds hc ih =>
    rw [run_concat] at hc ⊢
    refine ⟨(isRequested_step (run_sound es) ih.1 e).resolve_right (votesOn_ne_nil hc), ?_⟩
    intro o ho
    exact ih.2 o (held_before_step (run_sound es) ih.1 hadds ho)

/-- A complete lock that no conflict cancelled, and whose request is known, holds all of its outputs or was completed
    by its request. -/
theorem held_or_completed_by_request {es : List Event} {t : Hash} {tx : Transaction}
    (hcancels : ¬ Happened (Cancels t) es) (hr : (run es).requests[t]? = some tx) (hc : (run es).IsComplete t) :
    (∀ o ∈ tx.spends, (run es).inputs[o]? = some t) ∨ CompletedByRequest t es := by
  induction es using List.reverseRecOn with
  | nil => cases hr
  | append_singleton es e ih =>
    rw [happened_concat, not_or] at hcancels
    have hcomplete := hc
    rw [run_concat] at hr hc ⊢
    cases origin_of_step (run_sound es) hcancels.2 hr hc with
    | held hheld => exact Or.inl hheld
    | request he htxid hcheck haccept =>
      subst he
      exact Or.inr (.request htxid hcheck haccept hcomplete)
    | before hadds hrbefore hcbefore =>
      rcases ih hcancels.1 hrbefore hcbefore with hheld | hrequest
      · exact Or.inl fun o ho => held_after_step (run_sound es) hcancels.2 hc (hheld o ho)
      · exact Or.inr (.later hrequest hadds hcomplete)

/-- In every state that a run reaches: a complete lock that no conflict cancelled, and whose request is known, holds
    every output that it spends, unless its request completed it and no vote came since; then it holds none. A request
    that the pool takes gives no output to anybody, and a vote that leaves a requested lock complete and in no conflict
    leaves it with all of its outputs. -/
theorem complete_locks_hold_their_outputs_unless_their_request_completed_them (es : List Event) :
    (∀ t tx, ¬ Happened (Cancels t) es → (run es).requests[t]? = some tx → (run es).IsComplete t →
      (∀ o ∈ tx.spends, (run es).inputs[o]? = some t) ∨ CompletedByRequest t es) ∧
    (∀ t, CompletedByRequest t es → ∀ o : OutPoint, (run es).inputs[o]? ≠ some t) ∧
    (∀ tx r m m' env height, (run es).checkRequest tx env = .ok height → m.accept tx = .ok m' →
      ((run es).step (.request tx r m env)).inputs = (run es).inputs) ∧
    ∀ peer v r m env tx, Taken ⟨run es, r, m⟩ v env → (run es).requests[v.txid]? = some tx →
      (run es).cancelled? (.vote peer v r m env) = none → ((run es).step (.vote peer v r m env)).IsComplete v.txid →
      ∀ o ∈ tx.spends, ((run es).step (.vote peer v r m env)).inputs[o]? = some v.txid := by
  have hs := run_sound es
  refine ⟨?_, ?_, ?_, ?_⟩
  · intro t tx hcancels hr hc
    exact held_or_completed_by_request hcancels hr hc
  · intro t h
    exact h.holds_nothing.2
  · intro tx r m m' env height hcheck haccept
    exact inputs_request_of_accepted hcheck haccept r
  · intro peer v r m env tx htaken hr hnone hc o ho
    refine vote_holds hs htaken hr ?_ hc ho
    intro other hpair
    rw [hnone] at hpair
    cases hpair

end NodeQuorum.Locks
