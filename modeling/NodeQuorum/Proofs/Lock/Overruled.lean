/-
  NodeQuorum.Proofs.Lock.Overruled — how often a completed lock asks for a rollback.

  A lock that has its votes although the pool refused its transaction overrules the refusal (`Overruled`), and then a
  rollback is asked for. But the refusal stays on record, and every further vote finds the lock complete again:
  - `rollback_of_asksFor`, `rollback_of_not_asksFor`: without a conflict, a message asks for a rollback exactly if it
    is a counted vote that leaves a refused lock complete, or a first request that the pool refuses although its ballot
    has its votes (`AsksFor`).
  - `asksFor_of_overruled`, `overruled_message`: what makes a lock overrule its refusal asks for a rollback, and no
    message undoes it.
  - `votesOn_of_overruled`: from then on a message asks exactly if it adds a vote to the ballot.
  `an_overruled_refusal_asks_for_a_rollback_with_every_further_vote` counts them over any peaceful stretch of a run.
-/

import NodeQuorum.Proofs.Lock.Fixed

namespace NodeQuorum.Locks

/-! ## What asks for a rollback -/

theorem rollback_markCompleted (s : Locks) (txid : Hash) : (s.markCompleted txid).1.rollback = s.rollback := by
  unfold markCompleted
  split
  · split <;> rfl
  · rfl

/-- A ballot that has its votes asks for a rollback if its transaction was refused. -/
theorem rollback_complete {s : LockState} {txid : Hash} {env : LockEnv}
    (hrival : ∀ tx, s.locks.requested? txid = some tx → s.locks.rival? tx = none) :
    (complete s txid env).1.locks.rollback =
      if s.locks.rejected.contains txid then (s.locks.askRollback rollbackBlocks).rollback else s.locks.rollback := by
  let marked : LockState := { s with locks := (s.locks.markCompleted txid).1 }
  obtain ⟨-, hrequests, hrejected, hinputs⟩ := markCompleted_spec s.locks txid
  have hrollback : marked.locks.rollback = s.locks.rollback := rollback_markCompleted s.locks txid
  have hrequested : marked.locks.requested? txid = s.locks.requested? txid := by
    rw [requested?_eq, requested?_eq, hrequests, hrejected]
  -- the end of every branch without a rival
  have hfinish : ∀ s' : LockState, s'.locks.rejected = s.locks.rejected → s'.locks.rollback = s.locks.rollback →
      (if s'.locks.rejected.contains txid then { s' with locks := s'.locks.askRollback rollbackBlocks }
        else s').locks.rollback =
        if s.locks.rejected.contains txid then (s.locks.askRollback rollbackBlocks).rollback else s.locks.rollback := by
    intro s' hrej hroll
    rw [hrej]
    split
    · unfold askRollback
      dsimp only
      rw [hroll]
    · exact hroll
  unfold complete
  dsimp only
  rw [show (s.locks.markCompleted txid).1.requested? txid = _ from hrequested]
  cases hr : s.locks.requested? txid with
  | none => exact hfinish marked hrejected hrollback
  | some tx =>
    have hfree : marked.locks.rival? tx = none := (rival?_congr hinputs tx).trans (hrival tx hr)
    dsimp only
    rcases cancel_cases marked tx env.now with ⟨-, he⟩ | ⟨other, hb, -⟩
    · rw [show cancel { s with locks := (s.locks.markCompleted txid).1 } tx env.now = (marked, none) from he]
      dsimp only
      split
      · exact hfinish { marked with locks := marked.locks.hold txid tx.spends } hrejected hrollback
      · exact hfinish marked hrejected hrollback
    · rw [hfree] at hb
      cases hb

/-- A message asks for a rollback on account of a transaction: a counted vote leaves the lock of a refused transaction
    complete, or the pool refuses its first request although the ballot has its votes. -/
inductive AsksFor (t : Hash) (s : Locks) : Event → Prop
  | vote {peer : PeerId} {v : LockVote} {r : Registry} {m : Mempool} {env : LockEnv} : Taken ⟨s, r, m⟩ v env →
      v.txid = t → s.rejected.contains t = true → (step s (.vote peer v r m env)).IsComplete t →
      AsksFor t s (.vote peer v r m env)
  | request {tx : Transaction} {r : Registry} {m : Mempool} {env : LockEnv} {height : Nat} {e : Mempool.DoubleSpend} :
      s.checkRequest tx env = .ok height → m.accept tx = .error e → tx.txid = t →
      (step s (.request tx r m env)).IsComplete t → AsksFor t s (.request tx r m env)

section

variable {s : Locks} {r : Registry} {m : Mempool} {env : LockEnv}

theorem rollback_vote_of_taken {peer : PeerId} {v : LockVote} (htaken : Taken ⟨s, r, m⟩ v env) :
    (step s (.vote peer v r m env)).rollback = (count (remembered ⟨s, r, m⟩ v env) v env).1.locks.rollback := by
  let known := remembered ⟨s, r, m⟩ v env
  obtain ⟨unknownVotes, hrate⟩ := announce_locks (count known v env).1 v (count known v env).2 env
  unfold step
  dsimp only
  rw [processVote_of_taken htaken, hrate]

/-- A counted vote that leaves its lock complete, and reports no conflict, asks for a rollback if the transaction was
    refused. -/
theorem rollback_vote_of_complete {peer : PeerId} {v : LockVote} (htaken : Taken ⟨s, r, m⟩ v env)
    (hnone : s.cancelled? (.vote peer v r m env) = none) (hc : (step s (.vote peer v r m env)).IsComplete v.txid) :
    (step s (.vote peer v r m env)).rollback =
      if s.rejected.contains v.txid then (s.askRollback rollbackBlocks).rollback else s.rollback := by
  have hquorum := isComplete_iff.mp (isComplete_of_tally ((vote_of_taken htaken peer).tally v.txid).symm hc)
  have hrival : ∀ tx, s.requested? v.txid = some tx → s.rival? tx = none := by
    intro tx hr
    rw [Option.eq_none_iff_forall_ne_some]
    intro other hother
    have hreports := vote_reports (s := ⟨s, r, m⟩) peer htaken hr hother hc
    exact nomatch hnone.symm.trans hreports
  rw [rollback_vote_of_taken htaken, count_eq]
  rw [if_pos (show lockVotesRequired ≤
    (((remembered ⟨s, r, m⟩ v env).locks.counted v env.now).signatures? v.txid).getD 0 from hquorum)]
  exact rollback_complete hrival

/-- One that leaves its lock incomplete asks for nothing. -/
theorem rollback_vote_of_not_complete {peer : PeerId} {v : LockVote} (htaken : Taken ⟨s, r, m⟩ v env)
    (hc : ¬ (step s (.vote peer v r m env)).IsComplete v.txid) :
    (step s (.vote peer v r m env)).rollback = s.rollback := by
  have hquorum : ¬ lockVotesRequired ≤
      (((remembered ⟨s, r, m⟩ v env).locks.counted v env.now).signatures? v.txid).getD 0 :=
    fun hq => hc (isComplete_of_tally ((vote_of_taken htaken peer).tally v.txid) (isComplete_iff.mpr hq))
  rw [rollback_vote_of_taken htaken, count_eq, if_neg hquorum]
  rfl

/-- A refused request asks for a rollback if its ballot has its votes, as long as no conflict cancels it. -/
theorem rollback_refuse {s : LockState} {tx : Transaction} (hnone : (refuse s tx env).2 = none) :
    (refuse s tx env).1.locks.rollback =
      if (s.locks.ballots[tx.txid]?).any Lock.isComplete then (s.locks.askRollback rollbackBlocks).rollback
      else s.locks.rollback := by
  rw [refuse_eq] at hnone ⊢
  by_cases hc : (s.locks.ballots[tx.txid]?).any Lock.isComplete = true
  · rw [if_pos hc] at hnone ⊢
    rw [if_pos hc]
    rcases cancel_cases { s with locks := s.locks.refused tx } tx env.now with ⟨-, he⟩ | ⟨other, -, he⟩
    · rw [he]
      rfl
    · rw [he] at hnone
      cases hnone
  · rw [if_neg hc, if_neg hc]
    rfl

theorem isComplete_iff_any {t : Hash} : s.IsComplete t ↔ (s.ballots[t]?).any Lock.isComplete = true := by
  rw [Option.any_eq_true]
  exact Iff.rfl

theorem step_refused_request {tx : Transaction} {height : Nat} {e : Mempool.DoubleSpend}
    (hcheck : s.checkRequest tx env = .ok height) (haccept : m.accept tx = .error e) :
    step s (.request tx r m env) = (refuse ⟨s.openBallot tx height env.now, r, m⟩ tx env).1.locks := by
  unfold step processRequest
  dsimp only
  rw [hcheck]
  dsimp only
  rw [haccept]

/-- The votes that a refused request finds are those of its ballot at the height that it gives it. -/
theorem isComplete_refused_request {tx : Transaction} {height : Nat} {e : Mempool.DoubleSpend}
    (hcheck : s.checkRequest tx env = .ok height) (haccept : m.accept tx = .error e) :
    (step s (.request tx r m env)).IsComplete tx.txid ↔
      (((s.openBallot tx height env.now).ballots[tx.txid]?).any Lock.isComplete = true) := by
  rw [← isComplete_iff_any, step_refused_request hcheck haccept]
  have htally := (refuse_record ⟨s.openBallot tx height env.now, r, m⟩ tx env).2 tx.txid
  exact ⟨isComplete_of_tally htally.symm, isComplete_of_tally htally⟩

end

section

variable {s : Locks} {e : Event} {t : Hash}

theorem rollback_of_asksFor (hnone : s.cancelled? e = none) (h : AsksFor t s e) :
    (step s e).rollback = (s.askRollback rollbackBlocks).rollback := by
  cases h with
  | vote htaken htxid hrejected hc =>
    subst htxid
    rw [rollback_vote_of_complete htaken hnone hc, if_pos hrejected]
  | @request tx r m env height _ hcheck haccept htxid hc =>
    subst htxid
    have hquiet := (cancelled?_of_refused hcheck haccept r).symm.trans hnone
    have hrefuse := rollback_refuse hquiet
    rw [if_pos ((isComplete_refused_request hcheck haccept).mp hc)] at hrefuse
    rw [step_refused_request hcheck haccept]
    exact hrefuse

theorem rollback_of_not_asksFor (hm : e.IsMessage) (hnone : s.cancelled? e = none) (h : ∀ t, ¬ AsksFor t s e) :
    (step s e).rollback = s.rollback := by
  cases e with
  | request tx r m env =>
    rcases request_cases s r m tx env with ⟨_, -, he⟩ | ⟨height, hcheck, ⟨_, -, he⟩ | ⟨e, haccept, he⟩⟩
    · rw [he]
    · rw [he]
      cases ownVote? r tx.txid height env <;> rfl
    · have hquiet := (cancelled?_of_refused hcheck haccept r).symm.trans hnone
      have hrefuse := rollback_refuse hquiet
      rw [if_neg fun hc => h tx.txid (.request hcheck haccept rfl
        ((isComplete_refused_request hcheck haccept).mpr hc))] at hrefuse
      rw [he]
      exact hrefuse
  | vote peer v r m env =>
    by_cases htaken : Taken ⟨s, r, m⟩ v env
    · by_cases hc : (step s (.vote peer v r m env)).IsComplete v.txid
      · rw [rollback_vote_of_complete htaken hnone hc, if_neg]
        exact fun hrejected => h v.txid (.vote htaken rfl hrejected hc)
      · exact rollback_vote_of_not_complete htaken hc
    · rcases vote_of_not_taken htaken peer with he | he
      · rw [he]
      · rw [he]
        rfl
  | check | sweep | takeRollback | clear => cases hm

/-! ## An overruled refusal -/

/-- The pool refused a transaction whose lock is complete. -/
def Overruled (t : Hash) (s : Locks) : Prop := s.rejected.contains t = true ∧ s.IsComplete t

/-- What was refused is known, so no request for it is taken again. -/
theorem checkRequest_of_rejected {tx : Transaction} {env : LockEnv} {height : Nat}
    (h : s.rejected.contains tx.txid = true) : s.checkRequest tx env ≠ .ok height := by
  intro hcheck
  have hnew := checkRequest_new hcheck
  unfold isRequested at hnew
  rw [h, Bool.or_true] at hnew
  cases hnew

/-- A request goes on the record of refusals if the pool refuses it, and nothing leaves the record with it. -/
theorem rejected_request (s : Locks) (r : Registry) (m : Mempool) (tx : Transaction) (env : LockEnv) (t : Hash) :
    (step s (.request tx r m env)).rejected.contains t = true ↔
      s.rejected.contains t = true ∨
        tx.txid = t ∧ ∃ height e, s.checkRequest tx env = .ok height ∧ m.accept tx = .error e := by
  rcases request_cases s r m tx env with ⟨e, hcheck, he⟩ | ⟨height, hcheck, ⟨m', haccept, he⟩ | ⟨e, haccept, he⟩⟩
  · rw [he, hcheck]
    simp
  · have hsame : (step s (.request tx r m env)).rejected = s.rejected := by
      rw [he]
      cases ownVote? r tx.txid height env <;> rfl
    rw [hsame, hcheck, haccept]
    simp
  · have hinsert : (step s (.request tx r m env)).rejected = s.rejected.insert tx.txid tx := by
      rw [he, refuse_eq]
      split
      · rcases cancel_cases { (⟨s.openBallot tx height env.now, r, m⟩ : LockState) with
            locks := (s.openBallot tx height env.now).refused tx } tx env.now with ⟨-, hc⟩ | ⟨other, -, hc⟩
        · rw [hc]
          rfl
        · rw [hc]
          exact rejected_cancelConflict _ tx env.now
      · rfl
    rw [hinsert, hcheck, haccept, Std.ExtTreeMap.contains_insert]
    simp only [Bool.or_eq_true, beq_iff_eq, Std.LawfulEqOrd.compare_eq_iff_eq]
    constructor
    · rintro (ht | hrejected)
      · exact Or.inr ⟨ht, height, e, rfl, rfl⟩
      · exact Or.inl hrejected
    · rintro (hrejected | ⟨ht, -⟩)
      · exact Or.inr hrejected
      · exact Or.inl ht

theorem rejected_vote (s : Locks) (r : Registry) (m : Mempool) (peer : PeerId) (v : LockVote) (env : LockEnv) :
    (step s (.vote peer v r m env)).rejected = s.rejected := by
  by_cases htaken : Taken ⟨s, r, m⟩ v env
  · exact (vote_of_taken htaken peer).rejected
  · rcases vote_of_not_taken htaken peer with he | he
    · rw [he]
    · rw [he]
      rfl

/-- What asks for a rollback overrules the refusal, if it was not overruled before. -/
theorem overruled_of_asksFor (h : AsksFor t s e) : Overruled t (step s e) := by
  cases h with
  | @vote peer v r m env htaken htxid hrejected hc =>
    rw [Overruled, rejected_vote]
    exact ⟨hrejected, hc⟩
  | request hcheck haccept htxid hc =>
    exact ⟨(rejected_request s _ _ _ _ t).mpr (Or.inr ⟨htxid, _, _, hcheck, haccept⟩), hc⟩

/-- A message that makes a refusal overruled asks for a rollback. -/
theorem asksFor_of_overruled (hm : e.IsMessage) (hbefore : ¬ Overruled t s) (hafter : Overruled t (step s e)) :
    AsksFor t s e := by
  cases e with
  | request tx r m env =>
    obtain ⟨hrejected, hc⟩ := hafter
    rcases (rejected_request s r m tx env t).mp hrejected with hold | ⟨htxid, height, e, hcheck, haccept⟩
    · -- the request of another transaction does not touch the ballot, and this one's is known
      by_cases ht : tx.txid = t
      · subst ht
        rcases request_cases s r m tx env with ⟨_, -, he⟩ | ⟨height, hcheck, -⟩
        · rw [he] at hc
          exact absurd ⟨hold, hc⟩ hbefore
        · exact absurd hcheck (checkRequest_of_rejected hold)
      · have htally := (request_frame s r m env ht).2
        exact absurd ⟨hold, isComplete_of_tally htally.symm hc⟩ hbefore
    · exact .request hcheck haccept htxid hc
  | vote peer v r m env =>
    rw [Overruled, rejected_vote] at hafter
    obtain ⟨hrejected, hc⟩ := hafter
    have hincomplete : ¬ s.IsComplete t := fun hcomplete => hbefore ⟨hrejected, hcomplete⟩
    by_cases htaken : Taken ⟨s, r, m⟩ v env
    · refine .vote htaken ?_ hrejected hc
      refine Decidable.byContradiction ?_
      intro ht
      have htally := ((vote_of_taken htaken peer).tally t).trans (tally?_counted_of_ne (s.remember v) v env.now ht)
      exact hincomplete (isComplete_of_tally htally.symm hc)
    · rcases vote_of_not_taken htaken peer with he | he
      · rw [he] at hc
        exact absurd hc hincomplete
      · rw [he] at hc
        exact absurd hc hincomplete
  | check | sweep | takeRollback | clear => cases hm

/-- No message takes an overruled refusal back. -/
theorem overruled_message (hs : Sound s) (hb : Balloted s) (htargeted : Targeted s) (hm : e.IsMessage)
    (h : Overruled t s) : Overruled t (step s e) := by
  obtain ⟨hrejected, l, hl, hc⟩ := h
  have hkept : (step s e).rejected.contains t = true := by
    cases e with
    | request tx r m env => exact (rejected_request s r m tx env t).mpr (Or.inl hrejected)
    | vote peer v r m env => rw [rejected_vote, hrejected]
    | check | sweep | takeRollback | clear => cases hm
  refine ⟨hkept, ?_⟩
  cases hl' : (step s e).ballots[t]? with
  | none =>
    have hdrops := (ballot_gone_iff hs hl).mp hl'
    cases hdrops <;> cases hm
  | some l' =>
    have hcount := (ballot_step hs hb htargeted hl hl').2
    have hvotes : lockVotesRequired ≤ l.signatures := of_decide_eq_true hc
    exact ⟨l', hl', decide_eq_true (Nat.le_trans hvotes hcount)⟩

/-- While a refusal is overruled, a message asks for a rollback exactly if it adds a vote to the ballot. -/
theorem votesOn_of_overruled (hs : Sound s) (hb : Balloted s) (htargeted : Targeted s) (hm : e.IsMessage)
    (h : Overruled t s) :
    (AsksFor t s e ∧ ((step s e).votesOn t).length = (s.votesOn t).length + 1) ∨
    ¬ AsksFor t s e ∧ (step s e).votesOn t = s.votesOn t := by
  have hafter := overruled_message hs hb htargeted hm h
  have hknown : ∀ {tx : Transaction} {env : LockEnv} {height : Nat}, tx.txid = t →
      s.checkRequest tx env ≠ .ok height := by
    rintro tx env height rfl
    exact checkRequest_of_rejected h.1
  cases e with
  | request tx r m env =>
    refine Or.inr ⟨?_, ?_⟩
    · rintro (⟨-⟩ | ⟨hcheck, -, htxid, -⟩)
      exact hknown htxid hcheck
    · rcases votesOn_request s r m tx env with ⟨v, hadds, htxid, hvotes⟩ | ⟨-, hvotes⟩
      · obtain ⟨height, _, hcheck, -, -⟩ := adds_request_iff.mp hadds
        rw [hvotes, if_neg fun ht => hknown (htxid.symm.trans ht) hcheck]
      · exact hvotes t
  | vote peer v r m env =>
    rcases votesOn_vote s r m peer v env with ⟨htaken, hvotes⟩ | ⟨htaken, hvotes⟩
    · rw [hvotes]
      by_cases ht : v.txid = t
      · rw [if_pos ht]
        exact Or.inl ⟨.vote htaken ht h.1 hafter.2, List.length_append⟩
      · rw [if_neg ht]
        refine Or.inr ⟨?_, rfl⟩
        rintro (⟨-, htxid, -, -⟩ | ⟨-⟩)
        exact ht htxid
    · refine Or.inr ⟨?_, hvotes t⟩
      rintro (⟨hcounted, -, -, -⟩ | ⟨-⟩)
      exact htaken hcounted
  | check | sweep | takeRollback | clear => cases hm

end

/-! ## Every run -/

/-- Only messages that cancel no locks come, and the rollback is taken now and then. -/
def Peaceful : List Event → List Event → Prop
  | _, [] => True
  | es, e :: rest =>
    (e = .takeRollback ∨ e.IsMessage ∧ (run es).cancelled? e = none) ∧ Peaceful (es ++ [e]) rest

open Classical in
/-- How often events after a run ask for a rollback on account of a transaction. -/
noncomputable def timesAsked (t : Hash) : List Event → List Event → Nat
  | _, [] => 0
  | es, e :: rest => (if AsksFor t (run es) e then 1 else 0) + timesAsked t (es ++ [e]) rest

theorem timesAsked_of_asksFor {t : Hash} {es : List Event} {e : Event} (h : AsksFor t (run es) e)
    (rest : List Event) : timesAsked t es (e :: rest) = 1 + timesAsked t (es ++ [e]) rest := by
  rw [timesAsked, if_pos h]

theorem timesAsked_of_not_asksFor {t : Hash} {es : List Event} {e : Event} (h : ¬ AsksFor t (run es) e)
    (rest : List Event) : timesAsked t es (e :: rest) = timesAsked t (es ++ [e]) rest := by
  rw [timesAsked, if_neg h, Nat.zero_add]

theorem overruled_later {es more : List Event} {t : Hash} (hpeaceful : Peaceful es more) (h : Overruled t (run es)) :
    Overruled t (run (es ++ more)) := by
  induction more generalizing es with
  | nil => rwa [List.append_nil]
  | cons e rest ih =>
    obtain ⟨he, hrest⟩ := hpeaceful
    rw [List.append_cons]
    refine ih hrest ?_
    rw [run_concat]
    rcases he with rfl | ⟨hm, -⟩
    · exact h
    · exact overruled_message (run_sound es) (run_balloted es) (run_targeted es) hm h

/-- From the overruling on, every vote that is counted asks once. -/
theorem timesAsked_of_overruled {es more : List Event} {t : Hash} (hpeaceful : Peaceful es more)
    (h : Overruled t (run es)) :
    timesAsked t es more + ((run es).votesOn t).length = ((run (es ++ more)).votesOn t).length := by
  induction more generalizing es with
  | nil =>
    rw [List.append_nil]
    exact Nat.zero_add _
  | cons e rest ih =>
    obtain ⟨he, hrest⟩ := hpeaceful
    have hlater : Overruled t (run (es ++ [e])) := overruled_later ⟨he, trivial⟩ h
    have hcount := ih hrest hlater
    rw [List.append_cons, ← hcount, run_concat]
    rcases he with rfl | ⟨hm, -⟩
    · have hquiet : ¬ AsksFor t (run es) .takeRollback := nofun
      rw [timesAsked_of_not_asksFor hquiet]
      rfl
    · rcases votesOn_of_overruled (run_sound es) (run_balloted es) (run_targeted es) hm h with
        ⟨hasks, hvotes⟩ | ⟨hasks, hvotes⟩
      · rw [timesAsked_of_asksFor hasks, hvotes]
        omega
      · rw [timesAsked_of_not_asksFor hasks, hvotes]

/-- As long as a refusal is not overruled, nothing asks for a rollback on account of it. -/
theorem timesAsked_of_not_overruled {es more : List Event} {t : Hash} (hpeaceful : Peaceful es more)
    (h : ¬ Overruled t (run (es ++ more))) : timesAsked t es more = 0 := by
  induction more generalizing es with
  | nil => rfl
  | cons e rest ih =>
    rw [List.append_cons] at h
    have hnot : ¬ AsksFor t (run es) e := by
      intro hasks
      refine h (overruled_later hpeaceful.2 ?_)
      rw [run_concat]
      exact overruled_of_asksFor hasks
    rw [timesAsked_of_not_asksFor hnot]
    exact ih hpeaceful.2 h

/-- The event that makes a refusal overruled asks once, and then every vote that is counted asks once more. -/
theorem timesAsked_from_overruling {es more : List Event} {t : Hash} (hpeaceful : Peaceful es more)
    (hstart : ¬ Overruled t (run es)) (hend : Overruled t (run (es ++ more))) :
    ∃ before e after, more = before ++ e :: after ∧ ¬ Overruled t (run (es ++ before)) ∧
      Overruled t (run (es ++ before ++ [e])) ∧ AsksFor t (run (es ++ before)) e ∧
      timesAsked t es more + ((run (es ++ before ++ [e])).votesOn t).length =
        1 + ((run (es ++ more)).votesOn t).length := by
  induction more generalizing es with
  | nil =>
    rw [List.append_nil] at hend
    exact absurd hend hstart
  | cons e rest ih =>
    obtain ⟨he, hrest⟩ := hpeaceful
    by_cases hnow : Overruled t (run (es ++ [e]))
    · have hasks : AsksFor t (run es) e := by
        rw [run_concat] at hnow
        rcases he with rfl | ⟨hm, -⟩
        · exact absurd hnow hstart
        · exact asksFor_of_overruled hm hstart hnow
      have hcount := timesAsked_of_overruled hrest hnow
      refine ⟨[], e, rest, rfl, ?_, ?_, ?_, ?_⟩
      · rwa [List.append_nil]
      · rwa [List.append_nil]
      · rwa [List.append_nil]
      · rw [List.append_nil, List.append_cons es e rest, ← hcount, timesAsked_of_asksFor hasks, Nat.add_assoc]
    · have hnot : ¬ AsksFor t (run es) e := by
        intro hasks
        rw [run_concat] at hnow
        exact hnow (overruled_of_asksFor hasks)
      rw [List.append_cons] at hend
      obtain ⟨before, e', after, rfl, hbefore, hafter, hasks, hcount⟩ := ih hrest hnow hend
      simp only [← List.append_cons] at hbefore hafter hasks hcount
      refine ⟨e :: before, e', after, rfl, hbefore, hafter, hasks, ?_⟩
      rw [timesAsked_of_not_asksFor hnot]
      exact hcount

/-- In every state that a run reaches: a message that cancels no locks asks for a rollback exactly if, for some
    transaction, it is a counted vote that leaves the lock of a refusal complete, or a first request that the pool
    refuses although its ballot has its votes. As long as only such messages come and the rollback is taken now and
    then, nothing asks on account of a transaction until its refusal is overruled, the event that makes it so asks, and
    so does every vote that is counted on it later: a transaction asks at most once exactly if no more votes for it are
    counted. -/
theorem an_overruled_refusal_asks_for_a_rollback_with_every_further_vote (es : List Event) :
    (∀ e, Event.IsMessage e → (run es).cancelled? e = none →
      (∀ t, AsksFor t (run es) e →
        (run (es ++ [e])).rollback = ((run es).askRollback rollbackBlocks).rollback ∧ Overruled t (run (es ++ [e]))) ∧
      ((∀ t, ¬ AsksFor t (run es) e) → (run (es ++ [e])).rollback = (run es).rollback)) ∧
    ∀ t more, Peaceful es more →
      (¬ Overruled t (run (es ++ more)) → timesAsked t es more = 0) ∧
      (Overruled t (run es) → Overruled t (run (es ++ more)) ∧
        timesAsked t es more + ((run es).votesOn t).length = ((run (es ++ more)).votesOn t).length) ∧
      (¬ Overruled t (run es) → Overruled t (run (es ++ more)) →
        ∃ before e after, more = before ++ e :: after ∧ ¬ Overruled t (run (es ++ before)) ∧
          Overruled t (run (es ++ before ++ [e])) ∧ AsksFor t (run (es ++ before)) e ∧
          timesAsked t es more + ((run (es ++ before ++ [e])).votesOn t).length =
            1 + ((run (es ++ more)).votesOn t).length) := by
  refine ⟨?_, ?_⟩
  · intro e hm hnone
    rw [run_concat]
    exact ⟨fun t hasks => ⟨rollback_of_asksFor hnone hasks, overruled_of_asksFor hasks⟩,
      rollback_of_not_asksFor hm hnone⟩
  · intro t more hpeaceful
    exact ⟨timesAsked_of_not_overruled hpeaceful,
      fun h => ⟨overruled_later hpeaceful h, timesAsked_of_overruled hpeaceful h⟩,
      timesAsked_from_overruling hpeaceful⟩

end NodeQuorum.Locks
