/-
  NodeQuorum.Proofs.Lock.Outcome — what is counted on which transaction.

  Of a ballot only its height and its votes decide (`Lock.tally`), and most of what a request or a vote does
  leaves the tallies alone (`SameRecord`): marking, cancelling, holding and announcing. What is left is said once:
  - `vote_of_taken`, `vote_of_not_taken`: a vote is counted exactly if it is looked at and its voter may vote.
  - `request_cases`: a request is refused, or its ballot gets its height, and then the pool takes it and this
    node casts its own vote (`ownVote?`), or the pool refuses it and no vote is counted.
  - `votesOn_step`: an event adds one vote to a ballot (`Adds`), or none, or drops the ballot.
  - `isRequested_step`: a request stays known as long as its ballot has a vote.
-/

import Mathlib.Data.List.Induction
import NodeQuorum.Proofs.Lock.Conflict
import NodeQuorum.Proofs.Lock.Sweep

namespace NodeQuorum

/-- What decides of a ballot: its height and its votes. -/
def Lock.tally (l : Lock) : Nat × List LockVote := (l.height, l.votes)

theorem Lock.isComplete_of_tally {l l' : Lock} (h : l'.tally = l.tally) : l'.isComplete = l.isComplete := by
  obtain ⟨hheight, hvotes⟩ := Prod.mk.inj h
  unfold isComplete signatures
  rw [hheight, hvotes]

namespace Locks

def tally? (s : Locks) (t : Hash) : Option (Nat × List LockVote) := s.ballots[t]?.map Lock.tally

/-- The votes in the ballot on a transaction. -/
def votesOn (s : Locks) (t : Hash) : List LockVote := (s.tally? t).elim [] Prod.snd

theorem votesOn_of_ballot {s : Locks} {t : Hash} {l : Lock} (h : s.ballots[t]? = some l) : s.votesOn t = l.votes := by
  unfold votesOn tally?
  rw [h]
  rfl

theorem votesOn_of_none {s : Locks} {t : Hash} (h : s.ballots[t]? = none) : s.votesOn t = [] := by
  unfold votesOn tally?
  rw [h]
  rfl

theorem isComplete_of_tally {s s' : Locks} {t : Hash} (h : s'.tally? t = s.tally? t) (hc : s.IsComplete t) :
    s'.IsComplete t := by
  obtain ⟨l, hl, hlc⟩ := hc
  unfold tally? at h
  rw [hl, Option.map_some, Option.map_eq_some_iff] at h
  obtain ⟨l', hl', htally⟩ := h
  exact ⟨l', hl', (Lock.isComplete_of_tally htally).trans hlc⟩

/-! ## What counts no vote -/

/-- Nothing is requested, remembered or counted that was not, and nothing is lost. -/
structure SameRecord (s s' : Locks) : Prop where
  requests : s'.requests = s.requests
  rejected : s'.rejected = s.rejected
  votes : s'.votes = s.votes
  tally : ∀ t, s'.tally? t = s.tally? t

theorem SameRecord.refl (s : Locks) : SameRecord s s := ⟨rfl, rfl, rfl, fun _ => rfl⟩

theorem SameRecord.trans {s s' s'' : Locks} (h : SameRecord s s') (h' : SameRecord s' s'') : SameRecord s s'' :=
  ⟨h'.requests.trans h.requests, h'.rejected.trans h.rejected, h'.votes.trans h.votes,
    fun t => (h'.tally t).trans (h.tally t)⟩

theorem SameRecord.votesOn {s s' : Locks} (h : SameRecord s s') (t : Hash) : s'.votesOn t = s.votesOn t := by
  unfold Locks.votesOn
  rw [h.tally t]

/-- Changing a ballot in what does not decide leaves the tallies alone. -/
theorem tally?_modify (s : Locks) (txid : Hash) {f : Lock → Lock} (hf : ∀ l, (f l).tally = l.tally) (t : Hash) :
    ((s.ballots.modify txid f)[t]?).map Lock.tally = s.tally? t := by
  unfold tally?
  rw [Table.lookup_modify]
  split
  · rw [Option.map_map, show Lock.tally ∘ f = Lock.tally from funext hf]
  · rfl

theorem sameRecord_markCompleted (s : Locks) (txid : Hash) : SameRecord s (s.markCompleted txid).1 := by
  obtain ⟨hballots, hrequests, hrejected, -⟩ := markCompleted_spec s txid
  refine ⟨hrequests, hrejected, ?_, ?_⟩
  · unfold markCompleted
    split
    · split <;> rfl
    · rfl
  · intro t
    unfold tally?
    rw [hballots]
    exact tally?_modify s txid (f := fun l => { l with completed := true }) (fun _ => rfl) t

theorem sameRecord_expire (s : Locks) (txid : Hash) (now : Int) : SameRecord s (s.expire txid now) :=
  ⟨rfl, rfl, rfl, tally?_modify s txid fun _ => rfl⟩

theorem sameRecord_cancelConflict (s : Locks) (tx : Transaction) (now : Int) :
    SameRecord s (s.cancelConflict tx now).1 := by
  unfold cancelConflict
  split
  · exact .refl s
  · rename_i other _
    have hexpired := (sameRecord_expire s tx.txid now).trans (sameRecord_expire _ other now)
    exact ⟨hexpired.requests, hexpired.rejected, hexpired.votes, hexpired.tally⟩

theorem sameRecord_complete (s : LockState) (txid : Hash) (env : LockEnv) :
    SameRecord s.locks (complete s txid env).1.locks := by
  let marked : LockState := { s with locks := (s.locks.markCompleted txid).1 }
  have hmarked : SameRecord s.locks marked.locks := sameRecord_markCompleted s.locks txid
  -- the end of every branch without a rival: perhaps a rollback is asked for
  have hfinish : ∀ s' : LockState, SameRecord s.locks s'.locks →
      SameRecord s.locks (if s'.locks.rejected.contains txid then
        { s' with locks := s'.locks.askRollback rollbackBlocks } else s').locks := by
    intro s' h
    split
    · exact ⟨h.requests, h.rejected, h.votes, h.tally⟩
    · exact h
  unfold complete
  dsimp only
  split
  · exact hfinish marked hmarked
  rename_i tx _
  rcases cancel_cases marked tx env.now with ⟨-, he⟩ | ⟨other, -, he⟩
  · rw [show cancel { s with locks := (s.locks.markCompleted txid).1 } tx env.now = (marked, none) from he]
    dsimp only
    split
    · have hheld : SameRecord marked.locks (marked.locks.hold txid tx.spends) := ⟨rfl, rfl, rfl, fun _ => rfl⟩
      exact hfinish { marked with locks := marked.locks.hold txid tx.spends } (hmarked.trans hheld)
    · exact hfinish marked hmarked
  · rw [show cancel { s with locks := (s.locks.markCompleted txid).1 } tx env.now = _ from he]
    exact hmarked.trans (sameRecord_cancelConflict marked.locks tx env.now)

theorem sameRecord_announce (s : LockState) (v : LockVote) (verdict : Verdict) (env : LockEnv) :
    SameRecord s.locks (announce s v verdict env).state.locks := by
  obtain ⟨unknownVotes, hrate⟩ := announce_locks s v verdict env
  rw [hrate]
  exact ⟨rfl, rfl, rfl, fun _ => rfl⟩

/-! ## A vote -/

/-- A counted vote is the last of its ballot, which is opened if there is none. -/
theorem votesOn_counted (s : Locks) (v : LockVote) (now : Int) (t : Hash) :
    (s.counted v now).votesOn t = if v.txid = t then s.votesOn t ++ [v] else s.votesOn t := by
  unfold votesOn tally? counted addVote
  dsimp only
  rw [Table.lookup_modify, Table.lookup_insertIfNew]
  by_cases ht : v.txid = t
  · simp only [ht, if_true]
    cases s.ballots[t]? <;> rfl
  · simp only [ht, if_false, Option.or_none]

theorem tally?_counted_of_ne (s : Locks) (v : LockVote) (now : Int) {t : Hash} (ht : v.txid ≠ t) :
    (s.counted v now).tally? t = s.tally? t := by
  unfold tally? counted addVote
  dsimp only
  rw [Table.lookup_modify, Table.lookup_insertIfNew]
  simp only [ht, if_false, Option.or_none]

/-- Counting a vote may complete its lock, and records no more than the vote. -/
theorem sameRecord_count (s : LockState) (v : LockVote) (env : LockEnv) :
    SameRecord (s.locks.counted v env.now) (count s v env).1.locks := by
  rw [count_eq]
  split
  · exact sameRecord_complete { s with locks := s.locks.counted v env.now } v.txid env
  · exact .refl _

/-- Counting ends with the vote counted, its lock complete, or a conflict. -/
theorem verdict_of_count (s : LockState) (v : LockVote) (env : LockEnv) :
    (∃ a, (count s v env).2 = .ok a) ∨ ∃ ours theirs, (count s v env).2 = .error (.conflict ours theirs) := by
  rw [count_eq]
  split
  · unfold complete
    dsimp only
    split
    · exact Or.inl ⟨_, rfl⟩
    split
    · exact Or.inr ⟨_, _, rfl⟩
    · split
      · exact Or.inl ⟨_, rfl⟩
      · exact Or.inl ⟨_, rfl⟩
  · exact Or.inl ⟨_, rfl⟩

/-- A taken vote on a requested transaction is passed on with the verdict of its count; the rate of votes without requests
    is not looked at. -/
theorem processVote_of_requested {s : LockState} {v : LockVote} {env : LockEnv} (h : Taken s v env)
    (hrequested : s.locks.isRequested v.txid = true) (peer : PeerId) :
    processVote s peer v env =
      ⟨(count (remembered s v env) v env).1, [.relay ⟨.lockVote, v.hash⟩], (count (remembered s v env) v env).2⟩ := by
  have hrecord := sameRecord_count (remembered s v env) v env
  have hstill : (count (remembered s v env) v env).1.locks.isRequested v.txid = true := by
    unfold isRequested
    rw [hrecord.requests, hrecord.rejected]
    exact hrequested
  rw [processVote_of_taken h]
  unfold announce
  dsimp only
  rw [if_pos hstill]

theorem verdict_of_taken {s : LockState} {v : LockVote} {env : LockEnv} (h : Taken s v env)
    (hrequested : s.locks.isRequested v.txid = true) (peer : PeerId) :
    (∃ a, (processVote s peer v env).verdict = .ok a) ∨
      ∃ ours theirs, (processVote s peer v env).verdict = .error (.conflict ours theirs) := by
  rw [processVote_of_requested h hrequested]
  exact verdict_of_count _ v env

/-- The locks with a vote known. -/
def remember (s : Locks) (v : LockVote) : Locks := { s with votes := s.votes.insert v.hash v }

/-- A vote of a voter that may vote is known and counted, and nothing else. -/
theorem vote_of_taken {s : Locks} {r : Registry} {m : Mempool} {v : LockVote} {env : LockEnv}
    (h : Taken ⟨s, r, m⟩ v env) (peer : PeerId) :
    SameRecord ((s.remember v).counted v env.now) (step s (.vote peer v r m env)) := by
  unfold step
  dsimp only
  rw [processVote_of_taken h]
  exact (sameRecord_count (remembered ⟨s, r, m⟩ v env) v env).trans (sameRecord_announce _ v _ env)

/-- Any other vote is counted nowhere, and known at most. -/
theorem vote_of_not_taken {s : Locks} {r : Registry} {m : Mempool} {v : LockVote} {env : LockEnv}
    (h : ¬ Taken ⟨s, r, m⟩ v env) (peer : PeerId) :
    step s (.vote peer v r m env) = s ∨ step s (.vote peer v r m env) = s.remember v := by
  unfold step processVote
  dsimp only
  cases hcheck : s.checkVote v env with
  | error e => exact Or.inl rfl
  | ok _ =>
    dsimp only
    split
    · split
      · exact Or.inr rfl
      · exact Or.inr rfl
    · rename_i hvoter
      exact absurd ⟨hcheck, hvoter⟩ h

/-! ## A request -/

/-- The vote that this node casts on a request, if it runs a masternode that is ranked high enough. -/
def ownVote? (r : Registry) (txid : Hash) (height : Nat) (env : LockEnv) : Option LockVote :=
  match env.voter with
  | none => none
  | some (voter, key) =>
    match (r.checkAll env.chain env.now false).rankOf? env.chain voter height minVoterProtocol with
    | none => none
    | some rank => if voters < rank then none else some (.create key voter txid height)

/-- The locks with this node's own vote, if there is one. -/
def withOwn (s : Locks) : Option LockVote → Locks
  | none => s
  | some v => { s.addVote v with votes := s.votes.insert v.hash v }

theorem castVote_locks (s : LockState) (txid : Hash) (height : Nat) (env : LockEnv) :
    (castVote s txid height env).1.locks = s.locks.withOwn (ownVote? s.registry txid height env) := by
  unfold castVote ownVote?
  cases env.voter with
  | none => rfl
  | some own =>
    obtain ⟨voter, key⟩ := own
    dsimp only
    cases (s.registry.checkAll env.chain env.now false).rankOf? env.chain voter height minVoterProtocol with
    | none => rfl
    | some rank =>
      dsimp only
      by_cases hrank : voters < rank
      · rw [if_pos hrank, if_pos hrank]
        rfl
      · rw [if_neg hrank, if_neg hrank]
        rfl

theorem txid_of_ownVote? {r : Registry} {txid : Hash} {height : Nat} {env : LockEnv} {v : LockVote}
    (h : ownVote? r txid height env = some v) : v.txid = txid := by
  unfold ownVote? at h
  split at h
  · cases h
  split at h
  · cases h
  split at h
  · cases h
  · cases h
    rfl

/-- A request that the pool takes opens its ballot, and this node's own vote is added. -/
theorem request_of_accepted {s : Locks} {m m' : Mempool} {tx : Transaction} {env : LockEnv} {height : Nat}
    (hcheck : s.checkRequest tx env = .ok height) (haccept : m.accept tx = .ok m') (r : Registry) :
    step s (.request tx r m env) = (s.openBallot tx height env.now).withOwn (ownVote? r tx.txid height env) := by
  unfold step processRequest
  dsimp only
  rw [hcheck]
  dsimp only
  rw [haccept]
  exact castVote_locks ⟨s.openBallot tx height env.now, r, m'⟩ tx.txid height env

/-- A request that the pool refuses cancels what the refusal cancels. -/
theorem cancelled?_of_refused {s : Locks} {m : Mempool} {tx : Transaction} {env : LockEnv} {height : Nat}
    {e : Mempool.DoubleSpend} (hcheck : s.checkRequest tx env = .ok height) (haccept : m.accept tx = .error e)
    (r : Registry) :
    s.cancelled? (.request tx r m env) = (refuse ⟨s.openBallot tx height env.now, r, m⟩ tx env).2 := by
  unfold cancelled? requestConflict?
  dsimp only
  rw [hcheck]
  dsimp only
  rw [haccept]

/-- What a request does: nothing, or it opens its ballot, and the pool takes the transaction or refuses it. -/
theorem request_cases (s : Locks) (r : Registry) (m : Mempool) (tx : Transaction) (env : LockEnv) :
    (∃ e, s.checkRequest tx env = .error e ∧ step s (.request tx r m env) = s) ∨
    ∃ height, s.checkRequest tx env = .ok height ∧
      ((∃ m', m.accept tx = .ok m' ∧ step s (.request tx r m env) =
          (s.openBallot tx height env.now).withOwn (ownVote? r tx.txid height env)) ∨
        ∃ e, m.accept tx = .error e ∧ step s (.request tx r m env) =
          (refuse ⟨s.openBallot tx height env.now, r, m⟩ tx env).1.locks) := by
  cases hcheck : s.checkRequest tx env with
  | error e =>
    refine Or.inl ⟨e, rfl, ?_⟩
    unfold step processRequest
    dsimp only
    rw [hcheck]
  | ok height =>
    refine Or.inr ⟨height, rfl, ?_⟩
    cases haccept : m.accept tx with
    | ok m' => exact Or.inl ⟨m', rfl, request_of_accepted hcheck haccept r⟩
    | error e =>
      refine Or.inr ⟨e, rfl, ?_⟩
      unfold step processRequest
      dsimp only
      rw [hcheck]
      dsimp only
      rw [haccept]

theorem votesOn_openBallot (s : Locks) (tx : Transaction) (height : Nat) (now : Int) (t : Hash) :
    (s.openBallot tx height now).votesOn t = s.votesOn t := by
  unfold votesOn tally? openBallot
  dsimp only
  rw [Table.lookup_insert]
  by_cases ht : tx.txid = t
  · subst ht
    rw [if_pos rfl]
    cases s.ballots[tx.txid]? <;> rfl
  · rw [if_neg ht]

/-- With its ballot open, a request's own vote is the last of the ballot. -/
theorem votesOn_withOwn {s : Locks} {v : LockVote} (hb : s.ballots.contains v.txid = true) (t : Hash) :
    (s.withOwn (some v)).votesOn t = if v.txid = t then s.votesOn t ++ [v] else s.votesOn t := by
  obtain ⟨l, hl⟩ := Table.contains_iff_lookup.mp hb
  unfold votesOn tally? withOwn addVote
  dsimp only
  rw [Table.lookup_modify]
  by_cases ht : v.txid = t
  · subst ht
    rw [if_pos rfl, if_pos rfl, hl]
    rfl
  · rw [if_neg ht, if_neg ht]

/-- A refusal by the pool counts no vote. -/
theorem refuse_record (s : LockState) (tx : Transaction) (env : LockEnv) :
    (refuse s tx env).1.locks.votes = s.locks.votes ∧
      ∀ t, (refuse s tx env).1.locks.tally? t = s.locks.tally? t := by
  rw [refuse_eq]
  split
  · rcases cancel_cases { s with locks := s.locks.refused tx } tx env.now with ⟨-, he⟩ | ⟨other, -, he⟩
    · rw [he]
      exact ⟨rfl, fun _ => rfl⟩
    · rw [he]
      have hcancel := sameRecord_cancelConflict (s.locks.refused tx) tx env.now
      exact ⟨hcancel.votes, hcancel.tally⟩
  · exact ⟨rfl, fun _ => rfl⟩

/-! ## Any event -/

/-- An event adds a vote to the ballot on the vote's transaction. -/
inductive Adds (s : Locks) : Event → LockVote → Prop
  | received {peer : PeerId} {v : LockVote} {r : Registry} {m : Mempool} {env : LockEnv} : Taken ⟨s, r, m⟩ v env →
      Adds s (.vote peer v r m env) v
  | cast {tx : Transaction} {r : Registry} {m m' : Mempool} {env : LockEnv} {height : Nat} {v : LockVote} :
      s.checkRequest tx env = .ok height → m.accept tx = .ok m' → ownVote? r tx.txid height env = some v →
      Adds s (.request tx r m env) v

theorem adds_request_iff {s : Locks} {tx : Transaction} {r : Registry} {m : Mempool} {env : LockEnv} {v : LockVote} :
    Adds s (.request tx r m env) v ↔ ∃ height m', s.checkRequest tx env = .ok height ∧ m.accept tx = .ok m' ∧
      ownVote? r tx.txid height env = some v := by
  constructor
  · rintro ⟨⟩
    rename_i m' height haccept hcheck hown
    exact ⟨height, m', hcheck, haccept, hown⟩
  · rintro ⟨height, m', hcheck, haccept, hown⟩
    exact .cast hcheck haccept hown

theorem adds_vote_iff {s : Locks} {peer : PeerId} {v v' : LockVote} {r : Registry} {m : Mempool} {env : LockEnv} :
    Adds s (.vote peer v r m env) v' ↔ v' = v ∧ Taken ⟨s, r, m⟩ v env := by
  constructor
  · rintro ⟨⟩
    rename_i htaken
    exact ⟨rfl, htaken⟩
  · rintro ⟨rfl, htaken⟩
    exact .received htaken

/-- A request adds this node's own vote to its ballot, or no vote to any. -/
theorem votesOn_request (s : Locks) (r : Registry) (m : Mempool) (tx : Transaction) (env : LockEnv) :
    (∃ v, Adds s (.request tx r m env) v ∧ v.txid = tx.txid ∧ ∀ t, (step s (.request tx r m env)).votesOn t =
      if v.txid = t then s.votesOn t ++ [v] else s.votesOn t) ∨
    (∀ v, ¬ Adds s (.request tx r m env) v) ∧ ∀ t, (step s (.request tx r m env)).votesOn t = s.votesOn t := by
  simp only [adds_request_iff]
  rcases request_cases s r m tx env with
    ⟨e, hcheck, hs⟩ | ⟨height, hcheck, ⟨m', haccept, hs⟩ | ⟨e, haccept, hs⟩⟩
  · rw [hs, hcheck]
    exact Or.inr ⟨by simp, fun _ => rfl⟩
  · rw [hs, hcheck, haccept]
    cases hown : ownVote? r tx.txid height env with
    | none =>
      refine Or.inr ⟨?_, votesOn_openBallot s tx height env.now⟩
      simp [hown]
    | some v =>
      have hopen : (s.openBallot tx height env.now).ballots.contains v.txid = true := by
        rw [txid_of_ownVote? hown]
        exact Std.ExtTreeMap.contains_insert_self
      refine Or.inl ⟨v, ⟨height, m', rfl, rfl, hown⟩, txid_of_ownVote? hown, ?_⟩
      intro t
      rw [votesOn_withOwn hopen, votesOn_openBallot]
  · rw [hs, haccept]
    refine Or.inr ⟨by simp, ?_⟩
    intro t
    unfold votesOn
    rw [(refuse_record _ tx env).2 t]
    exact votesOn_openBallot s tx height env.now t

/-- A vote is added to the ballot on its transaction, or to none. -/
theorem votesOn_vote (s : Locks) (r : Registry) (m : Mempool) (peer : PeerId) (v : LockVote) (env : LockEnv) :
    (Taken ⟨s, r, m⟩ v env ∧ ∀ t, (step s (.vote peer v r m env)).votesOn t =
      if v.txid = t then s.votesOn t ++ [v] else s.votesOn t) ∨
    ¬ Taken ⟨s, r, m⟩ v env ∧ ∀ t, (step s (.vote peer v r m env)).votesOn t = s.votesOn t := by
  by_cases htaken : Taken ⟨s, r, m⟩ v env
  · refine Or.inl ⟨htaken, ?_⟩
    intro t
    exact ((vote_of_taken htaken peer).votesOn t).trans (votesOn_counted _ v env.now t)
  · refine Or.inr ⟨htaken, ?_⟩
    intro t
    rcases vote_of_not_taken htaken peer with hs | hs
    · rw [hs]
    · rw [hs]
      rfl

/-- A sweep drops a ballot with its votes, or leaves it alone. -/
theorem votesOn_sweep {s : Locks} (h : Sound s) (c : Chain) (now : Int) (t : Hash) :
    (s.sweep c now).1.votesOn t = s.votesOn t ∨ (s.sweep c now).1.votesOn t = [] := by
  cases hl : (s.sweep c now).1.ballots[t]? with
  | none => exact Or.inr (votesOn_of_none hl)
  | some l =>
    have hbefore := ((ballot_sweep h c now t l).mp hl).1
    exact Or.inl (by rw [votesOn_of_ballot hl, votesOn_of_ballot hbefore])

/-- An event adds one vote to a ballot, or none, or drops the ballot. -/
theorem votesOn_step {s : Locks} (h : Sound s) (e : Event) (t : Hash) :
    (∃ v, Adds s e v ∧ v.txid = t ∧ (step s e).votesOn t = s.votesOn t ++ [v]) ∨
    (∀ v, Adds s e v → v.txid ≠ t) ∧ ((step s e).votesOn t = s.votesOn t ∨ (step s e).votesOn t = []) := by
  cases e with
  | request tx r m env =>
    rcases votesOn_request s r m tx env with ⟨v, hadds, htx, hvotes⟩ | ⟨hnone, hvotes⟩
    · by_cases ht : v.txid = t
      · exact Or.inl ⟨v, hadds, ht, by rw [hvotes, if_pos ht]⟩
      · refine Or.inr ⟨?_, Or.inl (by rw [hvotes, if_neg ht])⟩
        intro v' hv'
        obtain ⟨height, m', -, -, hown⟩ := adds_request_iff.mp hv'
        rwa [txid_of_ownVote? hown, ← htx]
    · exact Or.inr ⟨fun v hv => absurd hv (hnone v), Or.inl (hvotes t)⟩
  | vote peer v r m env =>
    rcases votesOn_vote s r m peer v env with ⟨htaken, hvotes⟩ | ⟨htaken, hvotes⟩
    · by_cases ht : v.txid = t
      · exact Or.inl ⟨v, .received htaken, ht, by rw [hvotes, if_pos ht]⟩
      · refine Or.inr ⟨?_, Or.inl (by rw [hvotes, if_neg ht])⟩
        intro v' hv'
        rwa [(adds_vote_iff.mp hv').1]
    · exact Or.inr ⟨fun v' hv' => absurd (adds_vote_iff.mp hv').2 htaken, Or.inl (hvotes t)⟩
  | check tx now => exact Or.inr ⟨nofun, Or.inl ((sameRecord_cancelConflict s tx now).votesOn t)⟩
  | sweep c now => exact Or.inr ⟨nofun, votesOn_sweep h c now t⟩
  | takeRollback => exact Or.inr ⟨nofun, Or.inl rfl⟩
  | clear => exact Or.inr ⟨nofun, Or.inr rfl⟩

/-! ## What stays requested -/

theorem isRequested_refuse {s : LockState} {t : Hash} (h : s.locks.isRequested t = true) (tx : Transaction)
    (env : LockEnv) : (refuse s tx env).1.locks.isRequested t = true := by
  have hrefused : (s.locks.refused tx).isRequested t = true := by
    unfold isRequested at h ⊢
    unfold refused hold
    dsimp only
    rw [Std.ExtTreeMap.contains_erase, Std.ExtTreeMap.contains_insert]
    by_cases ht : compare tx.txid t = .eq
    · simp [ht]
    · simpa [ht] using h
  rw [refuse_eq]
  split
  · rcases cancel_cases { s with locks := s.locks.refused tx } tx env.now with ⟨-, he⟩ | ⟨other, -, he⟩
    · rw [he]
      unfold isRequested at hrefused ⊢
      dsimp only [askRollback]
      rw [Std.ExtTreeMap.contains_insert, Bool.or_assoc, hrefused, Bool.or_true]
    · rw [he]
      exact (isRequested_cancelConflict (s.locks.refused tx) tx env.now t).trans hrefused
  · exact hrefused

theorem isRequested_openBallot {s : Locks} {t : Hash} (h : s.isRequested t = true) (tx : Transaction) (height : Nat)
    (now : Int) : (s.openBallot tx height now).isRequested t = true := by
  unfold isRequested at h ⊢
  unfold openBallot
  dsimp only
  rw [Std.ExtTreeMap.contains_insert, Bool.or_assoc, h, Bool.or_true]

theorem isRequested_withOwn (s : Locks) (own : Option LockVote) (t : Hash) :
    (s.withOwn own).isRequested t = s.isRequested t := by
  cases own <;> rfl

theorem isRequested_of_accepted {s : Locks} {m m' : Mempool} {tx : Transaction} {env : LockEnv} {height : Nat}
    (hcheck : s.checkRequest tx env = .ok height) (haccept : m.accept tx = .ok m') (r : Registry) :
    (step s (.request tx r m env)).isRequested tx.txid = true := by
  rw [request_of_accepted hcheck haccept, isRequested_withOwn]
  unfold isRequested openBallot
  dsimp only
  rw [Std.ExtTreeMap.contains_insert_self, Bool.true_or]

/-- What peers send: requests and votes. -/
def Event.IsMessage : Event → Prop
  | .request .. | .vote .. => True
  | _ => False

/-- No message makes a request unknown. -/
theorem isRequested_message {s : Locks} {t : Hash} (h : s.isRequested t = true) {e : Event} (hm : e.IsMessage) :
    (step s e).isRequested t = true := by
  cases e with
  | request tx r m env =>
    rcases request_cases s r m tx env with ⟨_, -, he⟩ | ⟨height, -, ⟨_, -, he⟩ | ⟨_, -, he⟩⟩
    · rw [he, h]
    · rw [he, isRequested_withOwn]
      exact isRequested_openBallot h tx height env.now
    · rw [he]
      exact isRequested_refuse (isRequested_openBallot h tx height env.now) tx env
  | vote peer v r m env =>
    by_cases htaken : Taken ⟨s, r, m⟩ v env
    · unfold isRequested
      rw [(vote_of_taken htaken peer).requests, (vote_of_taken htaken peer).rejected]
      exact h
    · rcases vote_of_not_taken htaken peer with he | he
      · rw [he, h]
      · rw [he]
        exact h
  | check | sweep | takeRollback | clear => cases hm

/-- A request is known as long as its ballot has a vote. -/
theorem isRequested_step {s : Locks} (hs : Sound s) {t : Hash} (h : s.isRequested t = true) (e : Event) :
    (step s e).isRequested t = true ∨ (step s e).votesOn t = [] := by
  cases e with
  | request tx r m env => exact Or.inl (isRequested_message h trivial)
  | vote peer v r m env => exact Or.inl (isRequested_message h trivial)
  | check tx now => exact Or.inl ((isRequested_cancelConflict s tx now t).trans h)
  | sweep c now =>
    unfold step
    cases hl : (s.sweep c now).1.ballots[t]? with
    | none => exact Or.inr (votesOn_of_none hl)
    | some l =>
      obtain ⟨hrequests, hrejected⟩ := request_sweep hs hl
      refine Or.inl ?_
      unfold isRequested at h ⊢
      rw [Std.ExtTreeMap.contains_eq_isSome_getElem?, Std.ExtTreeMap.contains_eq_isSome_getElem?] at h ⊢
      rw [hrequests, hrejected, h]
  | takeRollback => exact Or.inl h
  | clear => exact Or.inr rfl

/-! ## Runs -/

theorem run_concat (es : List Event) (e : Event) : run (es ++ [e]) = (run es).step e := by
  unfold run
  rw [List.foldl_append]
  rfl

/-- Whether some event of a run has a property, told in the state before it. -/
def Happened (P : Locks → Event → Prop) (es : List Event) : Prop :=
  ∃ before e after, es = before ++ e :: after ∧ P (run before) e

/-- A list with one more item behind it, cut at an item: at the last one, or at one before. -/
theorem concat_eq_append_cons_iff {α : Type} {xs before after : List α} {a b : α} :
    xs ++ [a] = before ++ b :: after ↔
      (xs = before ∧ a = b ∧ after = []) ∨ ∃ rest, after = rest ++ [a] ∧ xs = before ++ b :: rest := by
  constructor
  · intro h
    rcases List.eq_nil_or_concat after with rfl | ⟨rest, x, rfl⟩
    · obtain ⟨hxs, hlast⟩ := List.append_inj' h rfl
      exact Or.inl ⟨hxs, List.singleton_inj.mp hlast, rfl⟩
    · rw [List.concat_eq_append, ← List.cons_append, ← List.append_assoc] at h
      obtain ⟨hxs, hlast⟩ := List.append_inj' h rfl
      exact Or.inr ⟨rest, by rw [List.concat_eq_append, hlast], hxs⟩
  · rintro (⟨rfl, rfl, rfl⟩ | ⟨rest, rfl, rfl⟩)
    · rfl
    · rw [List.append_assoc, List.cons_append]

theorem happened_concat {P : Locks → Event → Prop} {es : List Event} {e : Event} :
    Happened P (es ++ [e]) ↔ Happened P es ∨ P (run es) e := by
  constructor
  · rintro ⟨before, e', after, h, hp⟩
    rcases concat_eq_append_cons_iff.mp h with ⟨rfl, rfl, -⟩ | ⟨rest, -, hes⟩
    · exact Or.inr hp
    · exact Or.inl ⟨before, e', rest, hes, hp⟩
  · rintro (⟨before, e', after, hes, hp⟩ | hp)
    · exact ⟨before, e', after ++ [e], concat_eq_append_cons_iff.mpr (Or.inr ⟨after, rfl, hes⟩), hp⟩
    · exact ⟨es, e, [], rfl, hp⟩

end Locks
end NodeQuorum
