/-
  NodeQuorum.Proofs.Lock.Known — which votes are known, and what a forged one can do.

  The known votes are what later votes are compared with, what peers are served and what a list of votes announces.
  A vote becomes known before its voter is looked at, so a forged one (`isForged`: its voter is not registered, ranks
  too low, or did not sign it) becomes known too, under the hash of any voter and transaction:
  - `known_origin`: a known vote was added by right, or it was refused after it became known (`Refuses`).
  - `agrees_step`: no event but a vote under one of some hashes tells two states apart that differ only in which votes
    under these hashes are known. So the forged votes of a run change nothing else in its locks, as long as no genuine
    vote comes under the hash of a forged one (`run_honest`).
  - While a forged vote is known, the genuine one is refused as already seen. A sweep forgets the forged vote when
    there is no ballot for it, its ballot expires, or its transaction is old (`known_sweep_iff`).
-/

import NodeQuorum.Proofs.Lock.Signers
import NodeQuorum.Proofs.Registry.Seen
import NodeQuorum.Quorum.Inventory

namespace NodeQuorum.Locks

/-! ## Forged votes -/

/-- Whether a vote is refused for its voter: one that is not registered, ranks too low, or did not sign it. -/
def isForged (r : Registry) (v : LockVote) (env : LockEnv) : Bool :=
  let r := r.checkAll env.chain env.now false
  match checkVoter r v (r.rankOf? env.chain v.voter v.height minVoterProtocol) with
  | .ok _ => false
  | .error _ => true

/-- The forged vote that an event brings. -/
def Event.forged? : Event → Option LockVote
  | .vote _ v r _ env => if isForged r v env then some v else none
  | _ => none

/-- A forged vote is looked at and refused. -/
inductive Refuses (s : Locks) : Event → LockVote → Prop
  | vote {peer : PeerId} {v : LockVote} {r : Registry} {m : Mempool} {env : LockEnv} : s.checkVote v env = .ok () →
      isForged r v env = true → Refuses s (.vote peer v r m env) v

/-- What a forged vote is refused as. -/
inductive VoterRefusal (v : LockVote) : Reject → Prop
  | unknown : VoterRefusal v (.unknownSigner v.voter)
  | outranked {rank : Nat} : voters < rank → VoterRefusal v
      (.ignored (v.voter.text ++ " not in the top " ++ toString voters ++ " (" ++ toString rank ++ ")"))
  | unsigned : VoterRefusal v (.badSignature ("lock vote from " ++ v.voter.text) 0)

theorem checkVoter_refusal {r : Registry} {v : LockVote} {rank : Option Nat} {e : Reject}
    (h : checkVoter r v rank = .error e) : VoterRefusal v e := by
  unfold checkVoter at h
  split at h
  · cases h
    exact .unknown
  split at h
  · rename_i hrank
    cases h
    exact .outranked hrank
  split at h
  · cases h
  · cases h
    exact .unsigned

/-- What a refusal does: the vote is known from now on, its sender is told why it was refused, and it is not passed on
    now. -/
theorem processVote_of_refused {s : LockState} {v : LockVote} {env : LockEnv}
    (hcheck : s.locks.checkVote v env = .ok ()) (hforged : isForged s.registry v env = true) (peer : PeerId) :
    (processVote s peer v env).state.locks = s.locks.remember v ∧
      (∃ e, (processVote s peer v env).verdict = .error e ∧ VoterRefusal v e) ∧
      ∀ i, .relay i ∉ (processVote s peer v env).sent := by
  unfold isForged at hforged
  unfold processVote
  rw [hcheck]
  dsimp only at hforged ⊢
  split at hforged
  · cases hforged
  · rename_i e hvoter
    rw [hvoter]
    dsimp only
    split
    · exact ⟨rfl, ⟨e, rfl, checkVoter_refusal hvoter⟩, Registry.relay_not_mem_askForEntry _ peer v.voter env.now⟩
    · exact ⟨rfl, ⟨e, rfl, checkVoter_refusal hvoter⟩, nofun⟩

/-- What a vote does: nothing, or it is refused and only becomes known, or it is taken. -/
theorem vote_cases (s : Locks) (r : Registry) (m : Mempool) (peer : PeerId) (v : LockVote) (env : LockEnv) :
    (∃ e, s.checkVote v env = .error e ∧ step s (.vote peer v r m env) = s) ∨
    (Refuses s (.vote peer v r m env) v ∧ step s (.vote peer v r m env) = s.remember v) ∨
    Taken ⟨s, r, m⟩ v env := by
  cases hcheck : s.checkVote v env with
  | error e =>
    refine Or.inl ⟨e, rfl, ?_⟩
    unfold step processVote
    dsimp only
    rw [hcheck]
  | ok _ =>
    cases hforged : isForged r v env with
    | true =>
      exact Or.inr (Or.inl ⟨.vote hcheck hforged, (processVote_of_refused (s := ⟨s, r, m⟩) hcheck hforged peer).1⟩)
    | false =>
      refine Or.inr (Or.inr ⟨hcheck, ?_⟩)
      unfold isForged at hforged
      dsimp only at hforged
      split at hforged
      · assumption
      · cases hforged

/-! ## Where a known vote comes from -/

theorem lookup_remember (s : Locks) (v : LockVote) (k : Hash) :
    (s.remember v).votes[k]? = if v.hash = k then some v else s.votes[k]? :=
  Table.lookup_insert s.votes v.hash k v

/-- A vote that an event makes known is added by right or refused. -/
theorem known_origin_step {s : Locks} {e : Event} {k : Hash} {v : LockVote} (h : (step s e).votes[k]? = some v) :
    s.votes[k]? = some v ∨ v.hash = k ∧ (Adds s e v ∨ Refuses s e v) := by
  have hremembered : ∀ u : LockVote, (s.remember u).votes[k]? = some v → s.votes[k]? = some v ∨ v.hash = k ∧ u = v := by
    intro u hu
    rw [lookup_remember] at hu
    split at hu
    · cases hu
      rename_i hk
      exact Or.inr ⟨hk, rfl⟩
    · exact Or.inl hu
  cases e with
  | request tx r m env =>
    rcases request_cases s r m tx env with ⟨_, -, he⟩ | ⟨height, hcheck, ⟨_, haccept, he⟩ | ⟨_, -, he⟩⟩
    · rw [he] at h
      exact Or.inl h
    · rw [he] at h
      cases hown : ownVote? r tx.txid height env with
      | none =>
        rw [hown] at h
        exact Or.inl h
      | some u =>
        rw [hown] at h
        refine (hremembered u h).imp_right ?_
        rintro ⟨hk, rfl⟩
        exact ⟨hk, Or.inl (.cast hcheck haccept hown)⟩
    · rw [he, (refuse_record _ tx env).1] at h
      exact Or.inl h
  | vote peer u r m env =>
    rcases vote_cases s r m peer u env with ⟨_, -, he⟩ | ⟨hrefuses, he⟩ | htaken
    · rw [he] at h
      exact Or.inl h
    · rw [he] at h
      refine (hremembered u h).imp_right ?_
      rintro ⟨hk, rfl⟩
      exact ⟨hk, Or.inr hrefuses⟩
    · rw [(vote_of_taken htaken peer).votes] at h
      refine (hremembered u h).imp_right ?_
      rintro ⟨hk, rfl⟩
      exact ⟨hk, Or.inl (.received htaken)⟩
  | check tx now =>
    rw [show (step s (.check tx now)).votes = s.votes from (sameRecord_cancelConflict s tx now).votes] at h
    exact Or.inl h
  | sweep c now =>
    rw [show step s (.sweep c now) = (s.sweep c now).1 from rfl, votes_sweep, Option.filter_eq_some_iff] at h
    exact Or.inl ((known_after_drops_iff (s.expired now)).mp h.1).1
  | takeRollback => exact Or.inl h
  | clear => exact absurd h (by simp [step, clear, empty])

/-- A known vote is known under its hash, and some event of the run added it by right or refused it. -/
theorem known_origin {es : List Event} {k : Hash} {v : LockVote} (h : (run es).votes[k]? = some v) :
    v.hash = k ∧ Happened (fun s e => Adds s e v ∧ ByRight e v ∨ Refuses s e v) es := by
  induction es using List.reverseRecOn with
  | nil => exact absurd h (by simp [run, empty])
  | append_singleton es e ih =>
    rw [run_concat] at h
    rcases known_origin_step h with hold | ⟨hk, hadds | hrefuses⟩
    · exact (ih hold).imp_right fun hbefore => happened_concat.mpr (Or.inl hbefore)
    · exact ⟨hk, happened_concat.mpr (Or.inr (Or.inl ⟨hadds, hadds.byRight⟩))⟩
    · exact ⟨hk, happened_concat.mpr (Or.inr (Or.inr hrefuses))⟩

/-! ## Other known votes

The rest of the locks follows from the rest of the locks, so the known votes can be exchanged before or after. -/

/-- The locks with other known votes. -/
def knowing (s : Locks) (votes : Table Hash LockVote) : Locks := { s with votes }

theorem cancelConflict_knowing (s : Locks) (votes : Table Hash LockVote) (tx : Transaction) (now : Int) :
    (s.knowing votes).cancelConflict tx now =
      ((s.cancelConflict tx now).1.knowing votes, (s.cancelConflict tx now).2) := by
  unfold cancelConflict
  rw [show (s.knowing votes).rival? tx = s.rival? tx from rfl]
  cases s.rival? tx <;> rfl

theorem markCompleted_knowing (s : Locks) (votes : Table Hash LockVote) (txid : Hash) :
    (s.knowing votes).markCompleted txid = ((s.markCompleted txid).1.knowing votes, (s.markCompleted txid).2) := by
  unfold markCompleted
  rw [show (s.knowing votes).ballots = s.ballots from rfl]
  split
  · split <;> rfl
  · rfl

theorem allowUnknown_knowing (s : Locks) (votes : Table Hash LockVote) (voter : OutPoint) (now : Int) :
    (s.knowing votes).allowUnknown voter now =
      ((s.allowUnknown voter now).1.knowing votes, (s.allowUnknown voter now).2) := by
  unfold allowUnknown
  dsimp only [knowing, averageVoteTime]
  split
  · split <;> rfl
  · split <;> rfl

end Locks

/-- The state with other known votes. -/
def LockState.knowing (s : LockState) (votes : Table Hash LockVote) : LockState :=
  { s with locks := s.locks.knowing votes }

namespace Locks

theorem cancel_knowing (s : LockState) (votes : Table Hash LockVote) (tx : Transaction) (now : Int) :
    cancel (s.knowing votes) tx now = ((cancel s tx now).1.knowing votes, (cancel s tx now).2) := by
  unfold cancel
  rw [show (s.knowing votes).locks = s.locks.knowing votes from rfl, cancelConflict_knowing]
  rcases s.locks.cancelConflict tx now with ⟨locks, _ | ⟨ours, theirs⟩⟩ <;> rfl

theorem refuse_knowing (s : LockState) (votes : Table Hash LockVote) (tx : Transaction) (env : LockEnv) :
    refuse (s.knowing votes) tx env = ((refuse s tx env).1.knowing votes, (refuse s tx env).2) := by
  let held : LockState := { s with locks := s.locks.refused tx }
  rw [refuse_eq, refuse_eq]
  rw [show cancel { s.knowing votes with locks := (s.knowing votes).locks.refused tx } tx env.now = _ from
    cancel_knowing held votes tx env.now]
  rw [show (s.knowing votes).locks.ballots = s.locks.ballots from rfl]
  split
  · rcases cancel held tx env.now with ⟨after, _ | pair⟩ <;> rfl
  · rfl

theorem complete_knowing (s : LockState) (votes : Table Hash LockVote) (txid : Hash) (env : LockEnv) :
    complete (s.knowing votes) txid env = ((complete s txid env).1.knowing votes, (complete s txid env).2) := by
  let marked : LockState := { s with locks := (s.locks.markCompleted txid).1 }
  -- the end of every branch without a rival: perhaps a rollback is asked for
  have hfinish : ∀ (s' : LockState) (verdict : Verdict),
      (if (s'.knowing votes).locks.rejected.contains txid then
        { s'.knowing votes with locks := (s'.knowing votes).locks.askRollback rollbackBlocks } else s'.knowing votes,
        verdict) =
      ((if s'.locks.rejected.contains txid then
        { s' with locks := s'.locks.askRollback rollbackBlocks } else s').knowing votes, verdict) := by
    intro s' verdict
    rw [show (s'.knowing votes).locks.rejected = s'.locks.rejected from rfl]
    split <;> rfl
  unfold complete
  rw [show (s.knowing votes).locks.markCompleted txid = _ from markCompleted_knowing s.locks votes txid]
  dsimp only
  rw [show ((s.locks.markCompleted txid).1.knowing votes).requested? txid = marked.locks.requested? txid from rfl]
  cases marked.locks.requested? txid with
  | none => exact hfinish marked _
  | some tx =>
    dsimp only
    rw [show cancel { s.knowing votes with locks := (s.locks.markCompleted txid).1.knowing votes } tx env.now = _ from
      cancel_knowing marked votes tx env.now]
    rw [show ({ s with locks := (s.locks.markCompleted txid).1 } : LockState) = marked from rfl]
    rcases cancel marked tx env.now with ⟨after, _ | pair⟩
    · dsimp only
      rw [show (after.knowing votes).locks.requests = after.locks.requests from rfl]
      split
      · exact hfinish { after with locks := after.locks.hold txid tx.spends } _
      · exact hfinish after _
    · rfl

theorem count_knowing (s : LockState) (votes : Table Hash LockVote) (v : LockVote) (env : LockEnv) :
    count (s.knowing votes) v env = ((count s v env).1.knowing votes, (count s v env).2) := by
  let counting : LockState := { s with locks := s.locks.counted v env.now }
  rw [count_eq, count_eq]
  rw [show complete { s.knowing votes with locks := (s.knowing votes).locks.counted v env.now } v.txid env = _ from
    complete_knowing counting votes v.txid env]
  rw [show ((s.knowing votes).locks.counted v env.now).signatures? v.txid =
    (s.locks.counted v env.now).signatures? v.txid from rfl]
  split <;> rfl

theorem announce_knowing (s : LockState) (votes : Table Hash LockVote) (v : LockVote) (verdict : Verdict)
    (env : LockEnv) :
    (announce (s.knowing votes) v verdict env).state = (announce s v verdict env).state.knowing votes := by
  unfold announce
  rw [show (s.knowing votes).locks.isRequested v.txid = s.locks.isRequested v.txid from rfl]
  rw [show (s.knowing votes).locks.allowUnknown v.voter env.now = _ from
    allowUnknown_knowing s.locks votes v.voter env.now]
  dsimp only
  split
  · rfl
  · rcases s.locks.allowUnknown v.voter env.now with ⟨locks, _ | _⟩ <;> rfl

/-! ## Two states that differ in known votes -/

/-- One state is the other one, but for which votes are known under some hashes. -/
def Agrees (H : Hash → Prop) (s s' : Locks) : Prop :=
  ∃ votes, s' = s.knowing votes ∧ ∀ k, ¬ H k → votes[k]? = s.votes[k]?

section

variable {H : Hash → Prop} {s s' : Locks}

theorem Agrees.refl (s : Locks) : Agrees H s s := ⟨s.votes, rfl, fun _ _ => rfl⟩

/-- What neither looks at the known votes nor changes them keeps two states in agreement. -/
theorem Agrees.map (h : Agrees H s s') {f : Locks → Locks}
    (hf : ∀ (s : Locks) (votes : Table Hash LockVote), f (s.knowing votes) = (f s).knowing votes)
    (hvotes : ∀ s, (f s).votes = s.votes) : Agrees H (f s) (f s') := by
  obtain ⟨votes, rfl, hagree⟩ := h
  exact ⟨votes, hf s votes, by rwa [hvotes]⟩

theorem Agrees.remember (h : Agrees H s s') (v : LockVote) : Agrees H (s.remember v) (s'.remember v) := by
  obtain ⟨votes, rfl, hvotes⟩ := h
  refine ⟨votes.insert v.hash v, rfl, ?_⟩
  intro k hk
  rw [lookup_remember, Table.lookup_insert, hvotes k hk]

theorem Agrees.remember_forged (h : Agrees H s s') {v : LockVote} (hv : H v.hash) : Agrees H s (s'.remember v) := by
  obtain ⟨votes, rfl, hvotes⟩ := h
  refine ⟨votes.insert v.hash v, rfl, ?_⟩
  intro k hk
  have hne : v.hash ≠ k := by
    rintro rfl
    exact hk hv
  rw [Table.lookup_insert, if_neg hne, hvotes k hk]

theorem Agrees.withOwn (h : Agrees H s s') (own : Option LockVote) : Agrees H (s.withOwn own) (s'.withOwn own) := by
  cases own with
  | none => exact h
  | some v =>
    have hadd := (h.remember v).map (f := fun s => s.addVote v) (fun _ _ => rfl) (fun _ => rfl)
    exact hadd

theorem Agrees.drops (h : Agrees H s s') (txids : List Hash) : Agrees H (txids.foldl drop s) (txids.foldl drop s') := by
  induction txids generalizing s s' with
  | nil => exact h
  | cons x rest ih =>
    refine ih ?_
    obtain ⟨votes, rfl, hvotes⟩ := h
    refine ⟨((s.knowing votes).drop x).votes, rfl, ?_⟩
    intro k hk
    rw [votes_drop, votes_drop, show (s.knowing votes).votes = votes from rfl, hvotes k hk]
    rfl

theorem Agrees.sweep (h : Agrees H s s') (c : Chain) (now : Int) : Agrees H (s.sweep c now).1 (s'.sweep c now).1 := by
  have hexpired : s'.expired now = s.expired now := by
    obtain ⟨votes, rfl, -⟩ := h
    rfl
  obtain ⟨votes, hdrops, hvotes⟩ := h.drops (s.expired now)
  have hrest : ∀ s : Locks, (s.sweep c now).1 = ((s.expired now).foldl drop s).knowing (s.sweep c now).1.votes :=
    fun _ => rfl
  have hswept : (s'.sweep c now).1 = (s.sweep c now).1.knowing (s'.sweep c now).1.votes := by
    rw [hrest s', hexpired, hdrops]
    rfl
  refine ⟨_, hswept, ?_⟩
  intro k hk
  rw [votes_sweep, votes_sweep, hexpired, hdrops, show (s'.sweep c now).1.ballots = (s.sweep c now).1.ballots by
    rw [hswept]; rfl]
  rw [show (((s.expired now).foldl drop s).knowing votes).votes = votes from rfl, hvotes k hk]

theorem Agrees.checkVote (h : Agrees H s s') {v : LockVote} (hv : ¬ H v.hash) (env : LockEnv) :
    s'.checkVote v env = s.checkVote v env := by
  obtain ⟨votes, rfl, hvotes⟩ := h
  have hcontains : (s.knowing votes).votes.contains v.hash = s.votes.contains v.hash := by
    rw [Std.ExtTreeMap.contains_eq_isSome_getElem?, Std.ExtTreeMap.contains_eq_isSome_getElem?, ← hvotes v.hash hv]
    rfl
  unfold Locks.checkVote
  rw [hcontains]

/-- A vote that is no other than expected keeps two states in agreement: each looks up only the vote's own hash. -/
theorem Agrees.vote (h : Agrees H s s') (peer : PeerId) {v : LockVote} (hv : ¬ H v.hash) (r : Registry) (m : Mempool)
    (env : LockEnv) : Agrees H (step s (.vote peer v r m env)) (step s' (.vote peer v r m env)) := by
  have hcheck := h.checkVote hv env
  rcases vote_cases s r m peer v env with ⟨e, herror, he⟩ | ⟨hrefuses, he⟩ | htaken
  · rcases vote_cases s' r m peer v env with ⟨_, -, he'⟩ | ⟨⟨hok, -⟩, -⟩ | htaken'
    · rw [he, he']
      exact h
    · rw [hcheck, herror] at hok
      cases hok
    · have hok := htaken'.1
      rw [hcheck, herror] at hok
      cases hok
  · obtain ⟨hok, hforged⟩ := hrefuses
    have he' : step s' (.vote peer v r m env) = s'.remember v :=
      (processVote_of_refused (s := ⟨s', r, m⟩) (hcheck.trans hok) hforged peer).1
    rw [he, he']
    exact h.remember v
  · have htaken' : Taken ⟨s', r, m⟩ v env := ⟨hcheck.trans htaken.1, htaken.2⟩
    obtain ⟨votes, hremember, hvotes⟩ := h.remember v
    let known : LockState := remembered ⟨s, r, m⟩ v env
    have hknown : remembered ⟨s', r, m⟩ v env = known.knowing votes := by
      unfold remembered
      rw [show ({ s' with votes := s'.votes.insert v.hash v } : Locks) = _ from hremember]
      rfl
    refine ⟨votes, ?_, ?_⟩
    · unfold step
      dsimp only
      rw [processVote_of_taken htaken, processVote_of_taken htaken', hknown, count_knowing, announce_knowing]
      rfl
    · intro k hk
      rw [hvotes k hk, (vote_of_taken htaken peer).votes]
      rfl

end

/-- A request is refused, or its ballot gets its height, and the pool takes it or not. -/
theorem request_eq (s : Locks) (r : Registry) (m : Mempool) (tx : Transaction) (env : LockEnv) :
    step s (.request tx r m env) =
      match s.checkRequest tx env with
      | .error _ => s
      | .ok height =>
        match m.accept tx with
        | .ok _ => (s.openBallot tx height env.now).withOwn (ownVote? r tx.txid height env)
        | .error _ => (refuse ⟨s.openBallot tx height env.now, r, m⟩ tx env).1.locks := by
  rcases request_cases s r m tx env with ⟨_, hcheck, he⟩ | ⟨_, hcheck, ⟨_, haccept, he⟩ | ⟨_, haccept, he⟩⟩
  · rw [he, hcheck]
  · rw [he, hcheck, haccept]
  · rw [he, hcheck, haccept]

/-- No event but a vote under one of the hashes tells two states apart that agree but for these. -/
theorem agrees_step {H : Hash → Prop} {s s' : Locks} (h : Agrees H s s') {e : Event}
    (hvote : ∀ peer v r m env, e = .vote peer v r m env → ¬ H v.hash) : Agrees H (step s e) (step s' e) := by
  cases e with
  | request tx r m env =>
    have hcheck : s'.checkRequest tx env = s.checkRequest tx env := by
      obtain ⟨votes, rfl, -⟩ := h
      rfl
    rw [request_eq, request_eq, hcheck]
    cases s.checkRequest tx env with
    | error _ => exact h
    | ok height =>
      have hopen := h.map (f := fun s => s.openBallot tx height env.now) (fun _ _ => rfl) (fun _ => rfl)
      cases m.accept tx with
      | ok _ => exact hopen.withOwn _
      | error _ =>
        refine hopen.map (f := fun s => (refuse ⟨s, r, m⟩ tx env).1.locks) ?_ ?_
        · intro s votes
          exact congrArg (fun p => p.1.locks) (refuse_knowing ⟨s, r, m⟩ votes tx env)
        · exact fun s => (refuse_record ⟨s, r, m⟩ tx env).1
  | vote peer v r m env => exact h.vote peer (hvote peer v r m env rfl) r m env
  | check tx now =>
    refine h.map (f := fun s => (s.cancelConflict tx now).1) ?_ ?_
    · exact fun s votes => congrArg Prod.fst (cancelConflict_knowing s votes tx now)
    · exact fun s => (sameRecord_cancelConflict s tx now).votes
  | sweep c now => exact h.sweep c now
  | takeRollback => exact h.map (f := fun s => s.takeRollback.1) (fun _ _ => rfl) (fun _ => rfl)
  | clear =>
    obtain ⟨votes, rfl, -⟩ := h
    exact .refl _

/-! ## Runs without their forged votes -/

theorem forged?_eq_some {e : Event} {v : LockVote} (h : e.forged? = some v) :
    ∃ peer r m env, e = .vote peer v r m env ∧ isForged r v env = true := by
  unfold Event.forged? at h
  split at h
  · rename_i peer u r m env
    split at h
    · rename_i hforged
      cases h
      exact ⟨peer, r, m, env, rfl, hforged⟩
    · cases h
  · cases h

theorem not_taken_of_forged {s : LockState} {v : LockVote} {env : LockEnv} (h : isForged s.registry v env = true) :
    ¬ Taken s v env := by
  rintro ⟨-, hvoter⟩
  unfold isForged at h
  dsimp only at h
  rw [hvoter] at h
  cases h

/-- The events of a run but for its forged votes. -/
def honest (es : List Event) : List Event := es.filter fun e => e.forged?.isNone

/-- Whether a run has a forged vote with a hash. -/
def ForgedUnder (es : List Event) (k : Hash) : Prop := ∃ e ∈ es, ∃ v, e.forged? = some v ∧ v.hash = k

/-- The forged votes of a run change nothing but which votes are known under their hashes, as long as no genuine vote
    has one of these. -/
theorem run_honest {H : Hash → Prop} {es : List Event} (hforged : ∀ e ∈ es, ∀ v, e.forged? = some v → H v.hash)
    (hgenuine : ∀ peer v r m env, Event.vote peer v r m env ∈ honest es → ¬ H v.hash) :
    Agrees H (run (honest es)) (run es) := by
  induction es using List.reverseRecOn with
  | nil => exact .refl _
  | append_singleton es e ih =>
    have hhonest : honest (es ++ [e]) = honest es ++ honest [e] := List.filter_append es [e]
    have hbefore : Agrees H (run (honest es)) (run es) := by
      refine ih (fun e' he' => hforged e' (List.mem_append_left _ he')) ?_
      intro peer v r m env hmem
      refine hgenuine peer v r m env ?_
      rw [hhonest]
      exact List.mem_append_left _ hmem
    rw [run_concat, hhonest]
    cases hf : e.forged? with
    | none =>
      have hone : honest [e] = [e] := by simp [honest, hf]
      rw [hone, run_concat]
      refine agrees_step hbefore ?_
      rintro peer v r m env rfl
      refine hgenuine peer v r m env ?_
      rw [hhonest, hone]
      exact List.mem_append_right _ List.mem_cons_self
    | some v =>
      have hnone : honest [e] = [] := by simp [honest, hf]
      have hv := hforged e (List.mem_append_right _ List.mem_cons_self) v hf
      obtain ⟨peer, r, m, env, rfl, hisForged⟩ := forged?_eq_some hf
      rw [hnone, List.append_nil]
      rcases vote_cases (run es) r m peer v env with ⟨_, -, he⟩ | ⟨-, he⟩ | htaken
      · rw [he]
        exact hbefore
      · rw [he]
        exact hbefore.remember_forged hv
      · exact absurd htaken (not_taken_of_forged hisForged)

/-! ## While a vote is known -/

/-- A vote with the hash of a known one is refused as already seen. -/
theorem processVote_of_known {s : LockState} {v : LockVote} {env : LockEnv} (hswitch : checkSwitch env = .ok ())
    (hknown : s.locks.votes.contains v.hash = true) (peer : PeerId) :
    processVote s peer v env = ⟨s, [], .error (.stale ("lock vote " ++ v.hash.text ++ " already seen"))⟩ := by
  have hcheck : s.locks.checkVote v env = .error (.stale ("lock vote " ++ v.hash.text ++ " already seen")) := by
    unfold checkVote
    rw [hswitch]
    simp [hknown, demand, bind, Except.bind]
  unfold processVote
  rw [hcheck]

/-- A known vote outlives a sweep exactly if its ballot does, its transaction is not too old, and no ballot that expires
    has a vote with its hash. -/
theorem known_sweep_iff {s : Locks} (hs : Sound s) (c : Chain) (now : Int) {k : Hash} {v : LockVote}
    (h : s.votes[k]? = some v) : (s.sweep c now).1.votes[k]? = some v ↔
      (∃ l, s.ballots[v.txid]? = some l ∧ now ≤ l.expiration) ∧ c.transactionAge v.txid ≤ maxTransactionAge ∧
      ∀ (t : Hash) (l : Lock), s.ballots[t]? = some l → l.expiration < now → k ∉ l.votes.map LockVote.hash := by
  have hballot : (s.sweep c now).1.ballots.contains v.txid = true ↔
      ∃ l, s.ballots[v.txid]? = some l ∧ now ≤ l.expiration := by
    rw [Table.contains_iff_lookup]
    exact exists_congr fun l => ballot_sweep hs c now v.txid l
  have hdropped : (∀ t ∈ s.expired now, k ∉ (s.votesOn t).map LockVote.hash) ↔
      ∀ (t : Hash) (l : Lock), s.ballots[t]? = some l → l.expiration < now → k ∉ l.votes.map LockVote.hash := by
    constructor
    · intro hall t l hl he
      rw [← votesOn_of_ballot hl]
      exact hall t ((mem_expired hs now t).mpr ⟨l, hl, he⟩)
    · intro hall t ht
      obtain ⟨l, hl, he⟩ := (mem_expired hs now t).mp ht
      rw [votesOn_of_ballot hl]
      exact hall t l hl he
  rw [votes_sweep, Option.filter_eq_some_iff, known_after_drops_iff, hdropped, Bool.and_eq_true, decide_eq_true_eq,
    hballot]
  tauto

/-! ## Every run -/

/-- In every run: a known vote is known under its hash, and was added by right or forged and refused. A refused vote
    becomes known, its sender gets an error, and it is not passed on at once. As long as a vote is known, it is
    announced with the list of votes and served, and every vote with its hash is refused as already seen; a sweep
    forgets it exactly if its ballot is missing or expires, its transaction is old, or a ballot that expires has a vote
    with its hash. But forged votes change nothing else in the locks, nor which other votes are known, as long as no
    genuine vote has the hash of a forged one. -/
theorem forged_votes_are_known_but_change_nothing_else (es : List Event) :
    (∀ k v, (run es).votes[k]? = some v →
      v.hash = k ∧ Happened (fun s e => Adds s e v ∧ ByRight e v ∨ Refuses s e v) es) ∧
    (∀ peer v r m env, Refuses (run es) (.vote peer v r m env) v →
      (run es).step (.vote peer v r m env) = (run es).remember v ∧
      (∃ e, (processVote ⟨run es, r, m⟩ peer v env).verdict = .error e ∧ VoterRefusal v e) ∧
      ∀ i, .relay i ∉ (processVote ⟨run es, r, m⟩ peer v env).sent) ∧
    (∀ k v, (run es).votes[k]? = some v →
      .relay ⟨.lockVote, k⟩ ∈ (run es).announceVotes ∧
      (∀ q : Quorum, q.locks = run es → ∀ peer, q.serve peer ⟨.lockVote, k⟩ = [.push peer (.lockVote v)]) ∧
      (∀ peer u r m env, u.hash = k → checkSwitch env = .ok () → processVote ⟨run es, r, m⟩ peer u env =
        ⟨⟨run es, r, m⟩, [], .error (.stale ("lock vote " ++ k.text ++ " already seen"))⟩) ∧
      ∀ c now, ((run es).sweep c now).1.votes[k]? = some v ↔
        (∃ l, (run es).ballots[v.txid]? = some l ∧ now ≤ l.expiration) ∧
        c.transactionAge v.txid ≤ maxTransactionAge ∧
        ∀ (t : Hash) (l : Lock), (run es).ballots[t]? = some l → l.expiration < now → k ∉ l.votes.map LockVote.hash) ∧
    ((∀ peer v r m env, Event.vote peer v r m env ∈ honest es → ¬ ForgedUnder es v.hash) →
      Agrees (ForgedUnder es) (run (honest es)) (run es)) := by
  refine ⟨fun k v h => known_origin h, ?_, ?_, ?_⟩
  · intro peer v r m env hrefuses
    obtain ⟨hcheck, hforged⟩ := hrefuses
    exact processVote_of_refused (s := ⟨run es, r, m⟩) hcheck hforged peer
  · intro k v hv
    refine ⟨?_, ?_, ?_, fun c now => known_sweep_iff (run_sound es) c now hv⟩
    · unfold announceVotes
      exact List.mem_map_of_mem (Std.ExtTreeMap.mem_keys.mpr (Table.contains_of_lookup hv))
    · intro q hq peer
      unfold Quorum.serve Quorum.object?
      dsimp only
      rw [hq, hv]
      rfl
    · rintro peer u r m env rfl hswitch
      exact processVote_of_known (s := ⟨run es, r, m⟩) hswitch (Table.contains_of_lookup hv) peer
  · intro hgenuine
    exact run_honest (fun e he v hv => ⟨e, he, v, hv, rfl⟩) hgenuine

/-- A vote that nobody signed, for a voter that nobody knows, is known after it was refused. -/
example :
    let v : LockVote := ⟨⟨0, 0⟩, 0, 1, []⟩
    let env : LockEnv := ⟨{ Chain.empty with synced := true }, .empty 0, 1600000000, none⟩
    (run [.vote 1 v (.empty .masternode) .empty env]).votes[v.hash]? = some v := by
  decide +kernel

end Locks
end NodeQuorum
