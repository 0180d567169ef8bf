/-
  NodeQuorum.Proofs.Lock.Rate — how long a voter waits who votes without a request.

  A vote without a request is allowed if its voter's time has come, or if that time is no more than the window ahead of
  the mean of all voters' times. The mean moves with every call of anybody, so that it may refuse a voter is up to all the
  others; but it is looked at only while the voter's own time has not come, and that time is moved by no one else:
  - `allowUnknown_of_due`: a voter whose time has come is allowed, whatever the mean is.
  - `lookup_allowUnknown`: a call moves the time of its own collateral only, and only if it is allowed or the first one.
  - `next_iff`: so in every run of calls the time of a collateral lies one window behind its last allowed call, or behind
    its first one if none was allowed (`WaitsSince`).
  - `sum_bounds`: the sum behind the mean does not outgrow 64 bits.
  - `unknownVotes_run`: the votes that the locks take make such a run (`calls`).
  `nobody_waits_longer_than_the_window` puts them together.
-/

import Mathlib.Algebra.Order.BigOperators.Group.List
import NodeQuorum.Proofs.Lock.TooFast

namespace NodeQuorum.Locks

/-! ## One call -/

/-- The time of a collateral, which is one window from now if it has none. -/
theorem getD_insertIfNew (t : Table Hash Int) (k : Hash) (v : Int) : (t.insertIfNew k v).getD k 0 = t[k]?.getD v := by
  rw [Std.ExtTreeMap.getD_eq_getD_getElem?, Table.lookup_insertIfNew, if_pos rfl]
  cases t[k]? <;> rfl

/-- A call moves the time of its own collateral only, and only if it is allowed or the first one. -/
theorem lookup_allowUnknown (s : Locks) (voter : OutPoint) (now : Int) (t : Hash) :
    (s.allowUnknown voter now).1.unknownVotes[t]? =
      if voter.txid = t then
        some (if (s.allowUnknown voter now).2 then now + unknownVoteWindow
          else s.unknownVotes[t]?.getD (now + unknownVoteWindow))
      else s.unknownVotes[t]? := by
  unfold allowUnknown
  dsimp only
  split
  · rw [Table.lookup_insertIfNew]
    by_cases ht : voter.txid = t
    · rw [if_pos ht, if_pos ht]
      cases s.unknownVotes[t]? <;> rfl
    · rw [if_neg ht, if_neg ht, Option.or_none]
  · rw [Table.lookup_insert, Table.lookup_insertIfNew]
    by_cases ht : voter.txid = t
    · rw [if_pos ht, if_pos ht]
      rfl
    · rw [if_neg ht, if_neg ht, if_neg ht, Option.or_none]

/-- A voter whose time has come is allowed, whatever the mean is. -/
theorem allowUnknown_of_due {s : Locks} {voter : OutPoint} {now next : Int}
    (hnext : s.unknownVotes[voter.txid]? = some next) (hdue : next ≤ now) : (s.allowUnknown voter now).2 = true := by
  unfold allowUnknown
  dsimp only
  rw [getD_insertIfNew, hnext, Option.getD_some, if_neg]
  rintro ⟨hearly, -⟩
  omega

/-! ## Runs of calls -/

/-- A vote without a request, as the rate sees it. -/
structure Call where
  voter : OutPoint
  now : Int

/-- The locks after the rate of some votes was looked at. -/
def asked (cs : List Call) : Locks := cs.foldl (fun s c => (s.allowUnknown c.voter c.now).1) empty

/-- Whether a vote is allowed after some others. -/
def allowed (cs : List Call) (c : Call) : Bool := ((asked cs).allowUnknown c.voter c.now).2

/-- None of the further calls for a collateral is allowed. -/
def Shut (cs : List Call) (txid : Hash) (more : List Call) : Prop :=
  ∀ before c after, more = before ++ c :: after → c.voter.txid = txid → allowed (cs ++ before) c = false

/-- When the last allowed call for a collateral was, or the first one if none was allowed. -/
def WaitsSince (cs : List Call) (txid : Hash) (since : Int) : Prop :=
  ∃ before c after, cs = before ++ c :: after ∧ c.voter.txid = txid ∧ c.now = since ∧
    (allowed before c = true ∨ ∀ d ∈ before, d.voter.txid ≠ txid) ∧ Shut (before ++ [c]) txid after

variable {cs more : List Call} {c d : Call} {txid : Hash} {since : Int}

theorem asked_concat (cs : List Call) (c : Call) :
    asked (cs ++ [c]) = ((asked cs).allowUnknown c.voter c.now).1 := by
  unfold asked
  rw [List.foldl_append]
  rfl

theorem shut_nil : Shut cs txid [] := by
  intro before c after h
  exact absurd h (by simp)

theorem shut_concat :
    Shut cs txid (more ++ [c]) ↔ Shut cs txid more ∧ (c.voter.txid = txid → allowed (cs ++ more) c = false) := by
  constructor
  · intro h
    exact ⟨fun before d after hmore => h before d (after ++ [c])
      (concat_eq_append_cons_iff.mpr (Or.inr ⟨after, rfl, hmore⟩)), h more c [] rfl⟩
  · rintro ⟨hmore, hc⟩ before d after h
    rcases concat_eq_append_cons_iff.mp h with ⟨rfl, rfl, -⟩ | ⟨rest, -, hrest⟩
    · exact hc
    · exact hmore before d rest hrest

/-- One more call begins the wait of its collateral anew if it is allowed or the first one, and changes nothing else. -/
theorem waitsSince_concat :
    WaitsSince (cs ++ [c]) txid since ↔
      (c.voter.txid = txid ∧ c.now = since ∧ (allowed cs c = true ∨ ∀ d ∈ cs, d.voter.txid ≠ txid)) ∨
      (WaitsSince cs txid since ∧ (c.voter.txid = txid → allowed cs c = false)) := by
  constructor
  · rintro ⟨before, d, after, h, htxid, hsince, hbegins, hshut⟩
    rcases concat_eq_append_cons_iff.mp h with ⟨rfl, rfl, -⟩ | ⟨rest, rfl, rfl⟩
    · exact Or.inl ⟨htxid, hsince, hbegins⟩
    · obtain ⟨hrest, hlast⟩ := shut_concat.mp hshut
      rw [List.append_assoc, List.singleton_append] at hlast
      exact Or.inr ⟨⟨before, d, rest, rfl, htxid, hsince, hbegins, hrest⟩, hlast⟩
  · rintro (⟨htxid, hsince, hbegins⟩ | ⟨⟨before, d, after, rfl, htxid, hsince, hbegins, hshut⟩, hlast⟩)
    · exact ⟨cs, c, [], rfl, htxid, hsince, hbegins, shut_nil⟩
    · refine ⟨before, d, after ++ [c], ?_, htxid, hsince, hbegins, shut_concat.mpr ⟨hshut, ?_⟩⟩
      · rw [List.append_assoc, List.cons_append]
      · rwa [List.append_assoc, List.singleton_append]

/-- Who has not called has no time. -/
theorem next_eq_none_iff : (asked cs).unknownVotes[txid]? = none ↔ ∀ d ∈ cs, d.voter.txid ≠ txid := by
  induction cs using List.reverseRecOn with
  | nil => simp [asked, empty]
  | append_singleton cs c ih =>
    rw [asked_concat, lookup_allowUnknown, List.forall_mem_append, List.forall_mem_singleton, ← ih]
    by_cases ht : c.voter.txid = txid
    · simp [ht]
    · simp [ht]

/-- The time of a collateral lies one window behind the call since which it waits. -/
theorem next_iff : (asked cs).unknownVotes[txid]? = some (since + unknownVoteWindow) ↔ WaitsSince cs txid since := by
  induction cs using List.reverseRecOn generalizing since with
  | nil =>
    refine iff_of_false ?_ ?_
    · simp [asked, empty]
    · rintro ⟨before, c, after, h, -⟩
      simp at h
  | append_singleton cs c ih =>
    rw [asked_concat, lookup_allowUnknown, waitsSince_concat, ← ih, ← next_eq_none_iff]
    rw [show ((asked cs).allowUnknown c.voter c.now).2 = allowed cs c from rfl]
    by_cases ht : c.voter.txid = txid
    · cases allowed cs c with
      | true => simp [ht]
      | false =>
        cases (asked cs).unknownVotes[txid]? with
        | none => simp [ht]
        | some next => simp [ht]
    · simp [ht]

/-- Who has called waits since some call. -/
theorem waitsSince_of_mem (h : c ∈ cs) : ∃ since, WaitsSince cs c.voter.txid since := by
  cases hnext : (asked cs).unknownVotes[c.voter.txid]? with
  | none => exact absurd rfl (next_eq_none_iff.mp hnext c h)
  | some next =>
    refine ⟨next - unknownVoteWindow, next_iff.mp ?_⟩
    rw [hnext, Int.sub_add_cancel]

theorem WaitsSince.unique {since' : Int} (h : WaitsSince cs txid since) (h' : WaitsSince cs txid since') :
    since = since' := by
  rw [← next_iff] at h h'
  have := Option.some_inj.mp (h.symm.trans h')
  omega

/-- The wait begins with one of the calls. -/
theorem WaitsSince.mem (h : WaitsSince cs txid since) : ∃ c ∈ cs, c.now = since := by
  obtain ⟨before, c, after, rfl, -, hsince, -⟩ := h
  exact ⟨c, List.mem_append_right _ List.mem_cons_self, hsince⟩

/-- A wait that has lasted for the window is over. -/
theorem WaitsSince.allowed (h : WaitsSince cs txid since) (hc : c.voter.txid = txid)
    (hwindow : since + unknownVoteWindow ≤ c.now) : allowed cs c = true := by
  subst hc
  exact allowUnknown_of_due (next_iff.mpr h) hwindow

/-- Refused calls and those of others leave the beginning of a wait where it is. -/
theorem WaitsSince.append (h : WaitsSince cs txid since) (hshut : Shut cs txid more) :
    WaitsSince (cs ++ more) txid since := by
  induction more using List.reverseRecOn with
  | nil => rwa [List.append_nil]
  | append_singleton more c ih =>
    obtain ⟨hmore, hc⟩ := shut_concat.mp hshut
    rw [← List.append_assoc]
    exact waitsSince_concat.mpr (Or.inr ⟨ih hmore, hc⟩)

/-- Where times do not go back, every call is followed by an allowed one for its collateral, if there is a call for it
    one window later. -/
theorem allowed_of_later (hsorted : (cs ++ [c]).Pairwise fun a b => a.now ≤ b.now) (hshut : Shut (cs ++ [c]) txid more)
    (hc : c.voter.txid = txid) (hd : d.voter.txid = txid) (hwindow : c.now + unknownVoteWindow ≤ d.now) :
    allowed (cs ++ c :: more) d = true := by
  subst hc
  have hcalled : c ∈ cs ++ [c] := List.mem_concat_self
  obtain ⟨since, hsince⟩ := waitsSince_of_mem hcalled
  have hbegan : since ≤ c.now := by
    obtain ⟨b, hb, rfl⟩ := hsince.mem
    rcases List.mem_append.mp hb with hb | hb
    · exact (List.pairwise_append.mp hsorted).2.2 b hb c List.mem_cons_self
    · exact Int.le_of_eq (congrArg Call.now (List.mem_singleton.mp hb))
  rw [List.append_cons]
  exact (hsince.append hshut).allowed hd (by omega)

/-- The sum behind the mean is at most the latest time and a window, once for each collateral. While seconds are counted
    with ten digits, 63 bits hold it for nine hundred million collaterals. -/
theorem sum_bounds {latest : Int} (h : ∀ c ∈ cs, 0 ≤ c.now ∧ c.now ≤ latest) :
    let times := (asked cs).unknownVotes.values
    0 ≤ times.foldr (· + ·) 0 ∧ times.foldr (· + ·) 0 ≤ times.length * (latest + unknownVoteWindow) := by
  intro times
  have htimes : ∀ next ∈ times, 0 ≤ next ∧ next ≤ latest + unknownVoteWindow := by
    intro next hnext
    obtain ⟨txid, hlookup⟩ := Table.mem_values.mp hnext
    rw [← Int.sub_add_cancel next unknownVoteWindow, next_iff] at hlookup
    obtain ⟨c, hc, hsince⟩ := hlookup.mem
    have := h c hc
    unfold unknownVoteWindow at hsince ⊢
    omega
  refine ⟨List.sum_nonneg fun next hnext => (htimes next hnext).1, ?_⟩
  have hsum := List.sum_le_card_nsmul times _ fun next hnext => (htimes next hnext).2
  rwa [Int.nsmul_eq_mul] at hsum

/-! ## The votes that the locks take -/

instance (s : LockState) (v : LockVote) (env : LockEnv) : Decidable (Taken s v env) :=
  inferInstanceAs (Decidable (_ ∧ _))

/-- The call that an event makes. -/
def call? (s : Locks) : Event → Option Call
  | .vote _ v r m env => if Taken ⟨s, r, m⟩ v env ∧ s.isRequested v.txid = false then some ⟨v.voter, env.now⟩ else none
  | .request .. | .check .. | .sweep .. | .takeRollback | .clear => none

/-- One more event for the locks and for an onlooker who writes down the calls; both forget when the locks are cleared. -/
def listen (o : Locks × List Call) (e : Event) : Locks × List Call :=
  (o.1.step e, match e with
    | .clear => []
    | .request .. | .vote .. | .check .. | .sweep .. | .takeRollback => o.2 ++ (o.1.call? e).toList)

/-- The calls of a run since the locks were cleared. -/
def calls (es : List Event) : List Call := (es.foldl listen (empty, [])).2

theorem unknownVotes_cancelConflict (s : Locks) (tx : Transaction) (now : Int) :
    (s.cancelConflict tx now).1.unknownVotes = s.unknownVotes := by
  unfold cancelConflict
  cases s.rival? tx <;> rfl

theorem unknownVotes_refuse (s : LockState) (tx : Transaction) (env : LockEnv) :
    (refuse s tx env).1.locks.unknownVotes = s.locks.unknownVotes := by
  let held : LockState := { s with locks := s.locks.refused tx }
  rw [refuse_eq]
  split
  · rcases cancel_cases held tx env.now with ⟨-, he⟩ | ⟨other, -, he⟩
    · rw [he]
      rfl
    · rw [he]
      exact unknownVotes_cancelConflict held.locks tx env.now
  · rfl

theorem unknownVotes_request (s : Locks) (r : Registry) (m : Mempool) (tx : Transaction) (env : LockEnv) :
    (step s (.request tx r m env)).unknownVotes = s.unknownVotes := by
  rcases request_cases s r m tx env with ⟨_, -, he⟩ | ⟨height, -, ⟨_, -, he⟩ | ⟨_, -, he⟩⟩
  · rw [he]
  · rw [he]
    cases ownVote? r tx.txid height env <;> rfl
  · rw [he]
    exact unknownVotes_refuse ⟨s.openBallot tx height env.now, r, m⟩ tx env

theorem unknownVotes_markCompleted (s : Locks) (txid : Hash) :
    (s.markCompleted txid).1.unknownVotes = s.unknownVotes := by
  unfold markCompleted
  split
  · split <;> rfl
  · rfl

theorem unknownVotes_complete (s : LockState) (txid : Hash) (env : LockEnv) :
    (complete s txid env).1.locks.unknownVotes = s.locks.unknownVotes := by
  let marked : LockState := { s with locks := (s.locks.markCompleted txid).1 }
  have hmarked : marked.locks.unknownVotes = s.locks.unknownVotes := unknownVotes_markCompleted s.locks txid
  -- the end of every branch without a rival: perhaps a rollback is asked for
  have hfinish : ∀ s' : LockState, s'.locks.unknownVotes = s.locks.unknownVotes →
      (if s'.locks.rejected.contains txid then
        { s' with locks := s'.locks.askRollback rollbackBlocks } else s').locks.unknownVotes = s.locks.unknownVotes := by
    intro s' h
    split
    · exact h
    · exact h
  unfold complete
  dsimp only
  split
  · exact hfinish marked hmarked
  rename_i tx _
  rcases cancel_cases marked tx env.now with ⟨-, he⟩ | ⟨other, -, he⟩
  · rw [show cancel { s with locks := (s.locks.markCompleted txid).1 } tx env.now = (marked, none) from he]
    dsimp only
    split
    · exact hfinish { marked with locks := marked.locks.hold txid tx.spends } hmarked
    · exact hfinish marked hmarked
  · rw [show cancel { s with locks := (s.locks.markCompleted txid).1 } tx env.now = _ from he]
    exact (unknownVotes_cancelConflict marked.locks tx env.now).trans hmarked

theorem unknownVotes_count (s : LockState) (v : LockVote) (env : LockEnv) :
    (count s v env).1.locks.unknownVotes = s.locks.unknownVotes := by
  rw [count_eq]
  split
  · exact unknownVotes_complete { s with locks := s.locks.counted v env.now } v.txid env
  · rfl

theorem unknownVotes_of_requested {s : LockState} {v : LockVote} {env : LockEnv} (htaken : Taken s v env)
    (hrequested : s.locks.isRequested v.txid = true) (peer : PeerId) :
    (processVote s peer v env).state.locks.unknownVotes = s.locks.unknownVotes := by
  rw [processVote_of_requested htaken hrequested]
  exact unknownVotes_count (remembered s v env) v env

theorem unknownVotes_sweep (s : Locks) (c : Chain) (now : Int) : (s.sweep c now).1.unknownVotes = s.unknownVotes := by
  have hdrops : ∀ (txids : List Hash) (s : Locks), (txids.foldl drop s).unknownVotes = s.unknownVotes := by
    intro txids
    induction txids with
    | nil => exact fun _ => rfl
    | cons txid rest ih => exact fun s => ih (s.drop txid)
  exact hdrops _ s

/-- An event that makes a call moves the times as the call does, and no other one moves them, but for a clearing. -/
theorem unknownVotes_step {s : Locks} (h : Targeted s) {e : Event} (he : e ≠ .clear) :
    (step s e).unknownVotes =
      ((s.call? e).elim s fun c => (s.allowUnknown c.voter c.now).1).unknownVotes := by
  cases e with
  | request tx r m env => exact unknownVotes_request s r m tx env
  | vote peer v r m env =>
    unfold call?
    dsimp only
    by_cases htaken : Taken ⟨s, r, m⟩ v env
    · cases hrequested : s.isRequested v.txid with
      | true =>
        rw [if_neg (by simp)]
        exact unknownVotes_of_requested htaken hrequested peer
      | false =>
        rw [if_pos ⟨htaken, rfl⟩]
        have hcounted := (processVote_of_unknown (s := ⟨s, r, m⟩) h htaken hrequested peer).1
        unfold step
        dsimp only
        rw [hcounted]
        rfl
    · rw [if_neg fun hboth => htaken hboth.1]
      rcases vote_of_not_taken htaken peer with hsame | hknown
      · rw [hsame]
        rfl
      · rw [hknown]
        rfl
  | check tx now => exact unknownVotes_cancelConflict s tx now
  | sweep c now => exact unknownVotes_sweep s c now
  | takeRollback => rfl
  | clear => exact absurd rfl he

theorem listen_fst (es : List Event) : (es.foldl listen (empty, [])).1 = run es := by
  induction es using List.reverseRecOn with
  | nil => rfl
  | append_singleton es e ih =>
    rw [List.foldl_append, run_concat, ← ih]
    rfl

theorem calls_concat {es : List Event} {e : Event} (he : e ≠ .clear) :
    calls (es ++ [e]) = calls es ++ ((run es).call? e).toList := by
  unfold calls
  rw [List.foldl_append, ← listen_fst]
  cases e with
  | clear => exact absurd rfl he
  | request tx r m env => rfl
  | vote peer v r m env => rfl
  | check tx now => rfl
  | sweep c now => rfl
  | takeRollback => rfl

theorem calls_clear (es : List Event) : calls (es ++ [.clear]) = [] := by
  unfold calls
  rw [List.foldl_append]
  rfl

/-- What one more vote does that comes before its request: it is known and counted, and makes a call. -/
theorem concat_of_unknown {es : List Event} {r : Registry} {m : Mempool} {v : LockVote} {env : LockEnv}
    (htaken : Taken ⟨run es, r, m⟩ v env) (hnew : (run es).isRequested v.txid = false) (peer : PeerId) :
    run (es ++ [.vote peer v r m env]) = (run es).countedUnknown v env.now ∧
      calls (es ++ [.vote peer v r m env]) = calls es ++ [⟨v.voter, env.now⟩] := by
  constructor
  · rw [run_concat]
    exact (processVote_of_unknown (run_targeted es) htaken hnew peer).1
  · rw [calls_concat (e := .vote peer v r m env) nofun]
    unfold call?
    dsimp only
    rw [if_pos ⟨htaken, hnew⟩]
    rfl

/-- The times of a run are those of its calls. -/
theorem unknownVotes_run (es : List Event) : (run es).unknownVotes = (asked (calls es)).unknownVotes := by
  induction es using List.reverseRecOn with
  | nil => rfl
  | append_singleton es e ih =>
    rw [run_concat]
    by_cases he : e = .clear
    · subst he
      rw [calls_clear]
      rfl
    · rw [unknownVotes_step (run_targeted es) he, calls_concat he]
      cases (run es).call? e with
      | none =>
        rw [Option.toList_none, List.append_nil]
        exact ih
      | some c =>
        rw [Option.toList_some, asked_concat]
        exact congrArg (fun p => p.1.unknownVotes) (allowUnknown_congr (asked (calls es)) (run es) ih c.voter c.now)

/-- A vote of an entitled voter on a transaction whose request is not known is accepted once the window has passed since
    its collateral waits. -/
theorem accepted_of_window {es : List Event} {r : Registry} {m : Mempool} {v : LockVote} {env : LockEnv}
    (htaken : Taken ⟨run es, r, m⟩ v env) (hnew : (run es).isRequested v.txid = false)
    (hsince : WaitsSince (calls es) v.voter.txid since) (hwindow : since + unknownVoteWindow ≤ env.now)
    (peer : PeerId) : (processVote ⟨run es, r, m⟩ peer v env).verdict = .ok .added := by
  have hallowed : ((run es).allowUnknown v.voter env.now).2 = true := by
    rw [allowUnknown_congr (asked (calls es)) (run es) (unknownVotes_run es)]
    exact hsince.allowed (c := ⟨v.voter, env.now⟩) rfl hwindow
  obtain ⟨-, ⟨-, hok⟩ | ⟨hfast, -⟩⟩ :=
    processVote_of_unknown (s := ⟨run es, r, m⟩) (run_targeted es) htaken hnew peer
  · exact hok
  · rw [hallowed] at hfast
    cases hfast

/-! ## Every run -/

/-- In every run of calls: whoever called waits since one time, that of the last allowed call for its collateral, or of
    the first one if none was allowed. Whatever others call, and however often its own calls are refused, it waits since
    the same time, and every call for it is allowed from one window after that time on. So where times do not go back,
    a call for a collateral that comes one window after another one is allowed, or one between them was. The votes that
    the locks take are such a run: in every state that they reach, a vote of an entitled voter on a transaction whose
    request is not known is accepted from one window after the time since which it waits. -/
theorem nobody_waits_longer_than_the_window :
    (∀ cs c, c ∈ cs → ∃! since, WaitsSince cs c.voter.txid since) ∧
    (∀ cs txid since more c, WaitsSince cs txid since → Shut cs txid more → c.voter.txid = txid →
      WaitsSince (cs ++ more) txid since ∧
      (since + unknownVoteWindow ≤ c.now → allowed (cs ++ more) c = true)) ∧
    (∀ cs c more d, (cs ++ c :: more ++ [d]).Pairwise (fun a b => a.now ≤ b.now) → d.voter.txid = c.voter.txid →
      Shut (cs ++ [c]) c.voter.txid more → c.now + unknownVoteWindow ≤ d.now → allowed (cs ++ c :: more) d = true) ∧
    ∀ es r m peer v env since, Taken ⟨run es, r, m⟩ v env → (run es).isRequested v.txid = false →
      WaitsSince (calls es) v.voter.txid since → since + unknownVoteWindow ≤ env.now →
      (processVote ⟨run es, r, m⟩ peer v env).verdict = .ok .added := by
  refine ⟨?_, ?_, ?_, ?_⟩
  · intro cs c hc
    obtain ⟨since, hsince⟩ := waitsSince_of_mem hc
    exact ⟨since, hsince, fun _ h => h.unique hsince⟩
  · intro cs txid since more c hsince hshut hc
    have hstill := hsince.append hshut
    exact ⟨hstill, hstill.allowed hc⟩
  · intro cs c more d hsorted hd hshut hwindow
    have hbefore := (List.pairwise_append.mp hsorted).1
    rw [List.append_cons] at hbefore
    exact allowed_of_later (List.pairwise_append.mp hbefore).1 hshut rfl hd hwindow
  · intro es r m peer v env since htaken hnew hsince hwindow
    exact accepted_of_window htaken hnew hsince hwindow peer

/-! ## A node that comes too fast -/

/-- The first vote of the second node comes 1300 seconds after the only other one. -/
def refusedOnce : List Event := votedOnce ++ [.vote 1 lateVote twoNodes .empty (twoNodesEnv 1300)]

/-- What the second node votes for next. Both nodes have one operator, and a signature does not cover the voter. -/
def nextVote : LockVote := { earlyVote with voter := ⟨2, 0⟩ }

theorem run_refusedOnce : run refusedOnce = (run votedOnce).countedUnknown lateVote (twoNodesEnv 1300).now :=
  (concat_of_unknown lateVote_tooFast.1 lateVote_tooFast.2.1 1).1

theorem calls_refusedOnce :
    calls refusedOnce = [⟨⟨1, 0⟩, (twoNodesEnv 0).now⟩, ⟨⟨2, 0⟩, (twoNodesEnv 1300).now⟩] := by
  obtain ⟨htaken, hnew, -⟩ := lateVote_tooFast
  have hearly : Taken ⟨run [], twoNodes, .empty⟩ earlyVote (twoNodesEnv 0) := earlyVote_taken
  have hopen : (run []).isRequested earlyVote.txid = false := by decide +kernel
  have hfirst : calls votedOnce = calls [] ++ [⟨⟨1, 0⟩, (twoNodesEnv 0).now⟩] := (concat_of_unknown hearly hopen 1).2
  rw [refusedOnce, (concat_of_unknown htaken hnew 1).2, hfirst]
  rfl

set_option maxRecDepth 20000 in
theorem nextVote_taken : Taken ⟨run refusedOnce, twoNodes, .empty⟩ nextVote (twoNodesEnv 1900) ∧
    (run refusedOnce).isRequested nextVote.txid = false := by
  rw [run_refusedOnce, run_votedOnce]
  unfold Taken
  decide +kernel

/-- The first vote of the second node is refused, a second before one window has passed another one would be refused
    too, and then its next vote is accepted. -/
theorem a_node_that_came_too_fast_is_heard_one_window_later :
    TooFast ⟨run votedOnce, twoNodes, .empty⟩ lateVote (twoNodesEnv 1300) ∧
      WaitsSince (calls refusedOnce) nextVote.voter.txid (twoNodesEnv 1300).now ∧
      allowed (calls refusedOnce) ⟨nextVote.voter, (twoNodesEnv 1899).now⟩ = false ∧
      allowed (calls refusedOnce) ⟨nextVote.voter, (twoNodesEnv 1900).now⟩ = true ∧
      Taken ⟨run refusedOnce, twoNodes, .empty⟩ nextVote (twoNodesEnv 1900) ∧
      (run refusedOnce).isRequested nextVote.txid = false ∧
      (processVote ⟨run refusedOnce, twoNodes, .empty⟩ 1 nextVote (twoNodesEnv 1900)).verdict = .ok .added := by
  have hsince : WaitsSince (calls refusedOnce) nextVote.voter.txid (twoNodesEnv 1300).now := by
    rw [calls_refusedOnce]
    exact ⟨[⟨⟨1, 0⟩, (twoNodesEnv 0).now⟩], ⟨⟨2, 0⟩, (twoNodesEnv 1300).now⟩, [], rfl, rfl, rfl, Or.inr (by decide),
      shut_nil⟩
  have hearly : allowed (calls refusedOnce) ⟨nextVote.voter, (twoNodesEnv 1899).now⟩ = false := by
    rw [calls_refusedOnce]
    decide +kernel
  have hwindow : (twoNodesEnv 1300).now + unknownVoteWindow ≤ (twoNodesEnv 1900).now := by decide
  obtain ⟨htaken, hnew⟩ := nextVote_taken
  obtain ⟨-, hcalls, -, hvotes⟩ := nobody_waits_longer_than_the_window
  have hallowed := (hcalls _ _ _ [] ⟨nextVote.voter, (twoNodesEnv 1900).now⟩ hsince shut_nil rfl).2 hwindow
  rw [List.append_nil] at hallowed
  exact ⟨lateVote_tooFast, hsince, hearly, hallowed, htaken, hnew, hvotes _ _ _ 1 _ _ _ htaken hnew hsince hwindow⟩

end NodeQuorum.Locks
