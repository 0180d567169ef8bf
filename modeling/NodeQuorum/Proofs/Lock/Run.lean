/-
  NodeQuorum.Proofs.Lock.Run — what the locks go through, in small moves.

  A request or a vote makes moves that take nothing away (`Move`), and then cancels two locks or none
  (`Effect`): `request_effect` and `vote_effect` say so of the two operations as a whole. What else happens to
  locks is a conflict check from outside, a sweep, the taking of a rollback and a clear (`Event`, `step`, `run`).
-/

import NodeQuorum.Lock.Process
import NodeQuorum.Proofs.Table

namespace NodeQuorum.Locks

/-! ## Events -/

/-- What the locks go through; registry, pool and surroundings of each event are its own. -/
inductive Event where
  | request (tx : Transaction) (registry : Registry) (mempool : Mempool) (env : LockEnv)
  | vote (peer : PeerId) (v : LockVote) (registry : Registry) (mempool : Mempool) (env : LockEnv)
  | check (tx : Transaction) (now : Int)
  | sweep (chain : Chain) (now : Int)
  | takeRollback
  | clear

def step (s : Locks) : Event → Locks
  | .request tx registry mempool env => (processRequest ⟨s, registry, mempool⟩ tx env).state.locks
  | .vote peer v registry mempool env => (processVote ⟨s, registry, mempool⟩ peer v env).state.locks
  | .check tx now => (s.cancelConflict tx now).1
  | .sweep chain now => (s.sweep chain now).1
  | .takeRollback => s.takeRollback.1
  | .clear => s.clear

/-- The locks after some events. -/
def run (es : List Event) : Locks := es.foldl step empty

/-- The two locks that a request cancels. -/
def requestConflict? (s : LockState) (tx : Transaction) (env : LockEnv) : Option (Hash × Hash) :=
  match s.locks.checkRequest tx env with
  | .error _ => none
  | .ok height =>
    match s.mempool.accept tx with
    | .error _ => (refuse { s with locks := s.locks.openBallot tx height env.now } tx env).2
    | .ok _ => none

/-- The two locks named by a verdict. -/
def reported? : Verdict → Option (Hash × Hash)
  | .error (.conflict a b) => some (a, b)
  | _ => none

/-! ## Moves -/

/-- A change that takes no ballot, no request and no held output away. -/
inductive Move : Locks → Locks → Prop
  /-- A change of the known votes, the voters' rates, the count of completed locks or the rollback. -/
  | quiet {s s' : Locks} : s'.requests = s.requests → s'.rejected = s.rejected → s'.ballots = s.ballots →
      s'.inputs = s.inputs → Move s s'
  | openBallot {s : Locks} {tx : Transaction} {height : Nat} {now : Int} : s.isRequested tx.txid = false →
      Move s (s.openBallot tx height now)
  /-- A ballot opened by a vote whose request is not known. -/
  | await {s : Locks} {txid : Hash} {now : Int} :
      Move s { s with ballots := s.ballots.insertIfNew txid (.create txid 0 now) }
  | addVote {s : Locks} {v : LockVote} : Move s (s.addVote v)
  | markCompleted {s : Locks} {txid : Hash} : Move s (s.markCompleted txid).1
  | reject {s : Locks} {tx : Transaction} : s.requests[tx.txid]? = some tx →
      Move s { s with requests := s.requests.erase tx.txid, rejected := s.rejected.insert tx.txid tx }
  /-- Outputs are held for a lock that is complete, and for a transaction that the pool refused. -/
  | hold {s : Locks} {txid : Hash} {tx : Transaction} {l : Lock} : s.requested? txid = some tx →
      s.ballots[txid]? = some l → l.isComplete = true ∨ s.rejected.contains txid = true →
      Move s (s.hold txid tx.spends)
  | reinstate {s : Locks} {tx : Transaction} : s.rejected[tx.txid]? = some tx →
      Move s { s with requests := s.requests.insert tx.txid tx }

/-- Some moves, one after the other. -/
inductive Moves : Locks → Locks → Prop
  | refl (s : Locks) : Moves s s
  | tail {s s' s'' : Locks} : Moves s s' → Move s' s'' → Moves s s''

theorem Move.one {s s' : Locks} (h : Move s s') : Moves s s' := .tail (.refl s) h

theorem Moves.trans {s s' s'' : Locks} (h : Moves s s') (h' : Moves s' s'') : Moves s s'' := by
  induction h' with
  | refl => exact h
  | tail _ hmove ih => exact ih.tail hmove

theorem Moves.quiet {s s' s'' : Locks} (h : Moves s s') (h1 : s''.requests = s'.requests)
    (h2 : s''.rejected = s'.rejected) (h3 : s''.ballots = s'.ballots) (h4 : s''.inputs = s'.inputs) : Moves s s'' :=
  h.tail (.quiet h1 h2 h3 h4)

/-- What a request or a vote does to locks and pool: moves, and at the end the cancelling of two locks or of
    none. The first of the two is complete and the second holds an output that the first spends. -/
inductive Effect (s : Locks) (m : Mempool) (now : Int) : Locks → Mempool → Option (Hash × Hash) → Prop
  | kept {s' : Locks} {m' : Mempool} : Moves s s' →
      (∀ t : Hash, m.transactions.contains t = true → m'.transactions.contains t = true) → Effect s m now s' m' none
  | cancelled {s' : Locks} {txid other : Hash} {tx : Transaction} {l : Lock} : Moves s s' →
      s'.requested? txid = some tx → s'.ballots[txid]? = some l → l.isComplete = true → s'.rival? tx = some other →
      Effect s m now (s'.cancelConflict tx now).1 ((m.remove tx.txid).remove other) (some (tx.txid, other))

theorem Effect.after {s s' s'' : Locks} {m m' : Mempool} {now : Int} {c : Option (Hash × Hash)}
    (he : Effect s' m now s'' m' c) (h : Moves s s') : Effect s m now s'' m' c := by
  cases he with
  | kept hmoves hm => exact .kept (h.trans hmoves) hm
  | cancelled hmoves hrequested hl hc hr => exact .cancelled (h.trans hmoves) hrequested hl hc hr

theorem Effect.kept_of_none {s s' : Locks} {m m' : Mempool} {now : Int} (he : Effect s m now s' m' none) :
    Moves s s' ∧ ∀ t : Hash, m.transactions.contains t = true → m'.transactions.contains t = true := by
  cases he with
  | kept hmoves hm => exact ⟨hmoves, hm⟩

/-! ## Cancelling -/

theorem cancelConflict_none {s : Locks} {tx : Transaction} (h : s.rival? tx = none) (now : Int) :
    s.cancelConflict tx now = (s, none) := by
  unfold cancelConflict
  rw [h]

theorem cancelConflict_some {s : Locks} {tx : Transaction} {other : Hash} (h : s.rival? tx = some other) (now : Int) :
    (s.cancelConflict tx now).2 = some (tx.txid, other) := by
  unfold cancelConflict
  rw [h]

theorem cancel_cases (s : LockState) (tx : Transaction) (now : Int) :
    (s.locks.rival? tx = none ∧ cancel s tx now = (s, none)) ∨
    ∃ other, s.locks.rival? tx = some other ∧
      cancel s tx now = ({ s with locks := (s.locks.cancelConflict tx now).1,
                                  mempool := (s.mempool.remove tx.txid).remove other }, some (tx.txid, other)) := by
  unfold cancel
  cases h : s.locks.rival? tx with
  | none =>
    rw [cancelConflict_none h]
    exact Or.inl ⟨rfl, rfl⟩
  | some other =>
    have h2 := cancelConflict_some h now
    refine Or.inr ⟨other, rfl, ?_⟩
    split
    · rename_i h'
      rw [h'] at h2
      cases h2
    · rename_i h'
      rw [h'] at h2
      cases h2
      rw [h']

/-! ## A request -/

theorem contains_accept {m m' : Mempool} {tx : Transaction} (h : m.accept tx = .ok m') (t : Hash)
    (ht : m.transactions.contains t = true) : m'.transactions.contains t = true := by
  unfold Mempool.accept at h
  dsimp only at h
  split at h
  · cases h
  · cases h
    rw [Std.ExtTreeMap.contains_insert, ht, Bool.or_true]

/-- A request that is taken was not known before. -/
theorem checkRequest_new {s : Locks} {tx : Transaction} {env : LockEnv} {height : Nat}
    (h : s.checkRequest tx env = .ok height) : s.isRequested tx.txid = false := by
  unfold checkRequest checkSwitch at h
  simp only [bind_assoc, demand_bind_eq_ok] at h
  simpa using h.2.2.1

theorem castVote_moves (s : LockState) (txid : Hash) (height : Nat) (env : LockEnv) :
    Moves s.locks (castVote s txid height env).1.locks ∧ (castVote s txid height env).1.mempool = s.mempool := by
  unfold castVote
  split
  · exact ⟨.refl _, rfl⟩
  · dsimp only
    split
    · exact ⟨.refl _, rfl⟩
    · split
      · exact ⟨.refl _, rfl⟩
      · exact ⟨(Move.one .addVote).quiet rfl rfl rfl rfl, rfl⟩

/-- The locks with a requested transaction refused, and its outputs held. -/
def refused (s : Locks) (tx : Transaction) : Locks :=
  Locks.hold { s with requests := s.requests.erase tx.txid, rejected := s.rejected.insert tx.txid tx } tx.txid tx.spends

theorem refused_moves {s : Locks} {tx : Transaction} {l : Lock} (h : s.requests[tx.txid]? = some tx)
    (hl : s.ballots[tx.txid]? = some l) : Moves s (s.refused tx) ∧ (s.refused tx).requested? tx.txid = some tx := by
  let rejected : Locks :=
    { s with requests := s.requests.erase tx.txid, rejected := s.rejected.insert tx.txid tx }
  have hrejected : rejected.rejected[tx.txid]? = some tx := Std.ExtTreeMap.getElem?_insert_self
  have hrequests : rejected.requests[tx.txid]? = none := Std.ExtTreeMap.getElem?_erase_self
  have hrequested : rejected.requested? tx.txid = some tx := by
    unfold requested?
    rw [hrequests, hrejected]
  have hhold : Move rejected (s.refused tx) :=
    .hold hrequested hl (Or.inr (Table.contains_of_lookup hrejected))
  exact ⟨(Move.one (.reject h)).tail hhold, hrequested⟩

theorem refuse_eq (s : LockState) (tx : Transaction) (env : LockEnv) :
    refuse s tx env =
      if (s.locks.ballots[tx.txid]?).any Lock.isComplete then
        match cancel { s with locks := s.locks.refused tx } tx env.now with
        | (s, some pair) => (s, some pair)
        | (s, none) =>
          let locks := s.locks.askRollback rollbackBlocks
          ({ s with locks := { locks with requests := locks.requests.insert tx.txid tx } }, none)
      else ({ s with locks := s.locks.refused tx }, none) := rfl

/-- What a refusal by the pool does: the transaction's outputs are held, and a complete lock is cancelled or its
    request reinstated. -/
theorem refuse_effect (s : LockState) (tx : Transaction) (env : LockEnv) (h : s.locks.requests[tx.txid]? = some tx)
    (hb : s.locks.ballots.contains tx.txid = true) :
    Effect s.locks s.mempool env.now (refuse s tx env).1.locks (refuse s tx env).1.mempool (refuse s tx env).2 := by
  obtain ⟨l, hl⟩ := Table.contains_iff_lookup.mp hb
  obtain ⟨hmoves, hrequested⟩ := refused_moves h hl
  have hrejected : (s.locks.refused tx).rejected[tx.txid]? = some tx := Std.ExtTreeMap.getElem?_insert_self
  have hl' : (s.locks.refused tx).ballots[tx.txid]? = some l := hl
  rw [refuse_eq, hl, Option.any_some]
  by_cases hc : l.isComplete = true
  · rw [if_pos hc]
    rcases cancel_cases { s with locks := s.locks.refused tx } tx env.now with ⟨-, he⟩ | ⟨other, hr, he⟩
    · rw [he]
      let asked := (s.locks.refused tx).askRollback rollbackBlocks
      have hasked : Moves s.locks asked := hmoves.quiet rfl rfl rfl rfl
      have hreinstated : Move asked { asked with requests := asked.requests.insert tx.txid tx } :=
        .reinstate hrejected
      exact .kept (hasked.tail hreinstated) fun _ ht => ht
    · rw [he]
      exact .cancelled hmoves hrequested hl' hc hr
  · rw [if_neg hc]
    exact .kept hmoves fun _ ht => ht

/-- What a request does. -/
theorem request_effect (s : LockState) (tx : Transaction) (env : LockEnv) :
    Effect s.locks s.mempool env.now (processRequest s tx env).state.locks (processRequest s tx env).state.mempool
      (requestConflict? s tx env) := by
  unfold processRequest requestConflict?
  cases hcheck : s.locks.checkRequest tx env with
  | error e => exact .kept (.refl _) fun _ ht => ht
  | ok height =>
    let opened : LockState := { s with locks := s.locks.openBallot tx height env.now }
    have hopen : Moves s.locks opened.locks := Move.one (.openBallot (checkRequest_new hcheck))
    have hrequest : opened.locks.requests[tx.txid]? = some tx := Std.ExtTreeMap.getElem?_insert_self
    have hballot : opened.locks.ballots.contains tx.txid = true := Std.ExtTreeMap.contains_insert_self
    dsimp only
    cases haccept : s.mempool.accept tx with
    | error e =>
      have hrefuse := refuse_effect opened tx env hrequest hballot
      exact hrefuse.after hopen
    | ok m' =>
      obtain ⟨hcast, hm⟩ := castVote_moves { opened with mempool := m' } tx.txid height env
      refine .kept (hopen.trans hcast) ?_
      intro t ht
      dsimp only
      rw [hm]
      exact contains_accept haccept t ht

/-! ## A vote -/

theorem isRequested_of_requested? {s : Locks} {txid : Hash} {tx : Transaction} (h : s.requested? txid = some tx) :
    s.isRequested txid = true := by
  unfold requested? at h
  unfold isRequested
  rw [Bool.or_eq_true, Std.ExtTreeMap.contains_eq_isSome_getElem?, Std.ExtTreeMap.contains_eq_isSome_getElem?]
  split at h
  · rename_i hr
    exact Or.inl (by rw [hr, Option.isSome_some])
  · exact Or.inr (by rw [h, Option.isSome_some])

theorem isRequested_cancelConflict (s : Locks) (tx : Transaction) (now : Int) (txid : Hash) :
    (s.cancelConflict tx now).1.isRequested txid = s.isRequested txid := by
  unfold cancelConflict
  cases s.rival? tx <;> rfl

/-- Marking a ballot as completed changes nothing else in it, and no other table. -/
theorem markCompleted_spec (s : Locks) (txid : Hash) :
    (s.markCompleted txid).1.ballots = s.ballots.modify txid (fun l => { l with completed := true }) ∧
      (s.markCompleted txid).1.requests = s.requests ∧ (s.markCompleted txid).1.rejected = s.rejected ∧
      (s.markCompleted txid).1.inputs = s.inputs := by
  -- where nothing is marked, there is no ballot, or it is marked already
  have hsame : (∀ l, s.ballots[txid]? = some l → l.completed = true) →
      s.ballots = s.ballots.modify txid fun l => { l with completed := true } := by
    intro h
    refine Std.ExtTreeMap.ext_getElem? ?_
    intro t
    rw [Table.lookup_modify]
    by_cases ht : txid = t
    · subst ht
      rw [if_pos rfl]
      cases hl : s.ballots[txid]? with
      | none => rfl
      | some l => rw [Option.map_some, ← h l hl]
    · rw [if_neg ht]
  unfold markCompleted
  cases hl : s.ballots[txid]? with
  | none =>
    refine ⟨hsame ?_, rfl, rfl, rfl⟩
    intro l h
    rw [hl] at h
    cases h
  | some l =>
    dsimp only
    by_cases hc : l.completed = true
    · rw [if_pos hc]
      refine ⟨hsame ?_, rfl, rfl, rfl⟩
      intro l' h
      rw [hl] at h
      cases h
      exact hc
    · rw [if_neg hc]
      refine ⟨Std.ExtTreeMap.ext_getElem? ?_, rfl, rfl, rfl⟩
      intro t
      rw [Table.lookup_insert, Table.lookup_modify]
      by_cases ht : txid = t
      · rw [if_pos ht, if_pos ht, ← ht, hl, Option.map_some]
      · rw [if_neg ht, if_neg ht]

/-- What follows when a ballot has its votes: the lock is cancelled with a rival, or its outputs are held. -/
theorem complete_effect {s : LockState} {txid : Hash} {l : Lock} (hb : s.locks.ballots[txid]? = some l)
    (hc : l.isComplete = true) (env : LockEnv) :
    Effect s.locks s.mempool env.now (complete s txid env).1.locks (complete s txid env).1.mempool
      (reported? (complete s txid env).2) ∧
    (reported? (complete s txid env).2 = none ∨ (complete s txid env).1.locks.isRequested txid = true) := by
  let marked : LockState := { s with locks := (s.locks.markCompleted txid).1 }
  have hmarked : Moves s.locks marked.locks := Move.one .markCompleted
  have hl : marked.locks.ballots[txid]? = some { l with completed := true } := by
    rw [show marked.locks.ballots = _ from (markCompleted_spec s.locks txid).1, Table.lookup_modify, if_pos rfl, hb,
      Option.map_some]
  -- the end of every branch without a rival: perhaps a rollback is asked for
  have hfinish : ∀ s' : LockState, Moves s.locks s'.locks → s'.mempool = s.mempool → ∀ accepted : Accepted,
      let out : LockState :=
        if s'.locks.rejected.contains txid then { s' with locks := s'.locks.askRollback rollbackBlocks } else s'
      Effect s.locks s.mempool env.now out.locks out.mempool (reported? (.ok accepted)) := by
    intro s' hmoves hm accepted
    dsimp only
    split
    · exact .kept (hmoves.quiet rfl rfl rfl rfl) fun t ht => hm ▸ ht
    · exact .kept hmoves fun t ht => hm ▸ ht
  unfold complete
  dsimp only
  cases hr : marked.locks.requested? txid with
  | none =>
    exact ⟨hfinish marked hmarked rfl _, Or.inl rfl⟩
  | some tx =>
    dsimp only
    rcases cancel_cases marked tx env.now with ⟨-, he⟩ | ⟨other, hrival, he⟩
    · rw [show cancel { s with locks := (s.locks.markCompleted txid).1 } tx env.now = (marked, none) from he]
      dsimp only
      split
      · have hheld : Moves s.locks (marked.locks.hold txid tx.spends) := hmarked.tail (.hold hr hl (Or.inl hc))
        exact ⟨hfinish { marked with locks := marked.locks.hold txid tx.spends } hheld rfl _, Or.inl rfl⟩
      · exact ⟨hfinish marked hmarked rfl _, Or.inl rfl⟩
    · rw [show cancel { s with locks := (s.locks.markCompleted txid).1 } tx env.now = _ from he]
      refine ⟨.cancelled hmarked hr hl hc hrival, Or.inr ?_⟩
      dsimp only
      rw [isRequested_cancelConflict]
      exact isRequested_of_requested? hr

/-- The locks with a vote in its ballot. -/
def counted (s : Locks) (v : LockVote) (now : Int) : Locks :=
  Locks.addVote { s with ballots := s.ballots.insertIfNew v.txid (.create v.txid 0 now) } v

theorem count_eq (s : LockState) (v : LockVote) (env : LockEnv) :
    count s v env =
      if lockVotesRequired ≤ ((s.locks.counted v env.now).signatures? v.txid).getD 0 then
        complete { s with locks := s.locks.counted v env.now } v.txid env
      else ({ s with locks := s.locks.counted v env.now }, .ok .added) := rfl

/-- What the counting of a vote does. -/
theorem count_effect (s : LockState) (v : LockVote) (env : LockEnv) :
    Effect s.locks s.mempool env.now (count s v env).1.locks (count s v env).1.mempool (reported? (count s v env).2) ∧
    (reported? (count s v env).2 = none ∨ (count s v env).1.locks.isRequested v.txid = true) := by
  have hcounted : Moves s.locks (s.locks.counted v env.now) := (Move.one .await).tail .addVote
  rw [count_eq]
  by_cases hq : lockVotesRequired ≤ ((s.locks.counted v env.now).signatures? v.txid).getD 0
  · rw [if_pos hq]
    unfold signatures? at hq
    cases hl : (s.locks.counted v env.now).ballots[v.txid]? with
    | none =>
      rw [hl] at hq
      exact absurd hq (by decide)
    | some l =>
      rw [hl] at hq
      obtain ⟨he, hr⟩ := complete_effect (s := { s with locks := s.locks.counted v env.now }) hl (decide_eq_true hq) env
      exact ⟨he.after hcounted, hr⟩
  · rw [if_neg hq]
    exact ⟨.kept hcounted fun _ ht => ht, Or.inl rfl⟩

theorem allowUnknown_moves (s : Locks) (voter : OutPoint) (now : Int) : Moves s (s.allowUnknown voter now).1 := by
  unfold allowUnknown
  dsimp only
  split
  · exact Move.one (.quiet rfl rfl rfl rfl)
  · exact Move.one (.quiet rfl rfl rfl rfl)

/-- A conflict is announced as it is, since its lock was requested. -/
theorem announce_effect {s : Locks} {m : Mempool} {now : Int} {s' : LockState} {v : LockVote} {verdict : Verdict}
    (he : Effect s m now s'.locks s'.mempool (reported? verdict))
    (hr : reported? verdict = none ∨ s'.locks.isRequested v.txid = true) (env : LockEnv) :
    Effect s m now (announce s' v verdict env).state.locks (announce s' v verdict env).state.mempool
      (reported? (announce s' v verdict env).verdict) := by
  unfold announce
  dsimp only
  by_cases hrequested : s'.locks.isRequested v.txid = true
  · rw [if_pos hrequested]
    exact he
  · rw [if_neg hrequested]
    have hnone : reported? verdict = none := hr.resolve_right hrequested
    rw [hnone] at he
    obtain ⟨hmoves, hm⟩ := he.kept_of_none
    have hrate := hmoves.trans (allowUnknown_moves s'.locks v.voter env.now)
    split
    · rename_i locks ha
      rw [ha] at hrate
      rw [hnone]
      exact .kept hrate hm
    · rename_i locks ha
      rw [ha] at hrate
      exact .kept hrate hm

theorem checkVote_reports_none {s : Locks} {v : LockVote} {env : LockEnv} {e : Reject}
    (h : s.checkVote v env = .error e) : reported? (.error e) = none := by
  unfold checkVote checkSwitch at h
  simp only [bind_assoc, demand_bind_eq_error, demand_eq_error] at h
  rcases h with ⟨-, rfl⟩ | ⟨-, ⟨-, rfl⟩ | ⟨-, ⟨-, rfl⟩ | ⟨-, -, rfl⟩⟩⟩ <;> rfl

theorem checkVoter_reports_none {r : Registry} {v : LockVote} {rank : Option Nat} {e : Reject}
    (h : checkVoter r v rank = .error e) : reported? (.error e) = none := by
  unfold checkVoter at h
  split at h
  · cases h
    rfl
  split at h
  · cases h
    rfl
  split at h
  · cases h
  · cases h
    rfl

/-- The state with a vote known and the registry looked through. -/
def remembered (s : LockState) (v : LockVote) (env : LockEnv) : LockState :=
  { s with registry := s.registry.checkAll env.chain env.now false,
           locks := { s.locks with votes := s.locks.votes.insert v.hash v } }

/-- What a vote does. -/
theorem vote_effect (s : LockState) (peer : PeerId) (v : LockVote) (env : LockEnv) :
    Effect s.locks s.mempool env.now (processVote s peer v env).state.locks (processVote s peer v env).state.mempool
      (reported? (processVote s peer v env).verdict) := by
  unfold processVote
  cases hcheck : s.locks.checkVote v env with
  | error e =>
    dsimp only
    rw [checkVote_reports_none hcheck]
    exact .kept (.refl _) fun _ ht => ht
  | ok _ =>
    have hremembered : Moves s.locks (remembered s v env).locks := Move.one (.quiet rfl rfl rfl rfl)
    dsimp only
    split
    · rename_i e hvoter
      have hnone := checkVoter_reports_none hvoter
      split
      · dsimp only
        rw [hnone]
        exact .kept hremembered fun _ ht => ht
      · dsimp only
        rw [hnone]
        exact .kept hremembered fun _ ht => ht
    · obtain ⟨he, hr⟩ := count_effect (remembered s v env) v env
      exact announce_effect (he.after hremembered) hr env

end NodeQuorum.Locks
