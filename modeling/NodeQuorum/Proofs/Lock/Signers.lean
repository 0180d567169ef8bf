/-
  NodeQuorum.Proofs.Lock.Signers — whose votes make a lock complete.

  Every vote of a ballot was added by right (`ByRight`): it was received while its voter ranked among the first ten
  at the vote's height and was signed with the voter's registered key, or this node cast it while it ranked so.
  That a voter is counted once rests on the known votes, since the hash of a vote names its voter and transaction.
  A received vote is counted only if it is not known; this node's own vote is cast without a look at what is known:
  - `signers_are_distinct_but_for_an_own_vote`: while sweeps forget no vote of a ballot that they keep (`Forgets`),
    at most one vote of a ballot repeats a voter, and then this node cast its vote on a request whose ballot held
    one already (`Doubles`). So a complete lock has five signers, and six if no own vote was doubled.
  - A vote is forgotten by a sweep that finds its transaction too old, though the ballot has not expired.
-/

import Mathlib.Data.List.Nodup
import NodeQuorum.Proofs.Lock.Outcome

namespace NodeQuorum

/-- The voters whose votes count. -/
def Lock.signers (l : Lock) : List OutPoint := (l.votes.filter fun v => v.height = l.height).map LockVote.voter

/-- A complete lock counts the votes required. -/
theorem Lock.le_length_signers {l : Lock} (h : l.isComplete = true) : lockVotesRequired ≤ l.signers.length := by
  have hcount : lockVotesRequired ≤ l.signatures := of_decide_eq_true h
  unfold signatures at hcount
  split at hcount
  · exact absurd hcount (by decide)
  · rwa [List.countP_eq_length_filter, ← List.length_map] at hcount

/-- Votes of one voter on one transaction have one hash. -/
theorem LockVote.hash_congr {u v : LockVote} (hvoter : u.voter = v.voter) (htxid : u.txid = v.txid) :
    u.hash = v.hash := by
  unfold hash
  rw [hvoter, htxid]

namespace Locks

/-- The voters of the votes in a ballot. -/
def votersOn (s : Locks) (t : Hash) : List OutPoint := (s.votesOn t).map LockVote.voter

/-! ## By right -/

/-- Whether a node ranks high enough to vote at a height, in the registry as it is when it is looked through. -/
def Ranks (r : Registry) (env : LockEnv) (voter : OutPoint) (height : Nat) : Prop :=
  ∃ rank, (r.checkAll env.chain env.now false).rankOf? env.chain voter height minVoterProtocol = some rank ∧
    rank ≤ voters

/-- Whether an event may add a vote: the voter ranks high enough, and the vote is signed with the voter's registered
    key or is this node's own. -/
inductive ByRight : Event → LockVote → Prop
  | signed {peer : PeerId} {v : LockVote} {r : Registry} {m : Mempool} {env : LockEnv} {entry : NodeEntry} :
      Ranks r env v.voter v.height → (r.checkAll env.chain env.now false).find? v.voter = some entry →
      entry.operatorKey.Signed v.signature (LockVote.signedText v.txid v.height) → ByRight (.vote peer v r m env) v
  | own {tx : Transaction} {r : Registry} {m : Mempool} {env : LockEnv} {voter : OutPoint} {key : KeyPair}
      {height : Nat} : env.voter = some (voter, key) → Ranks r env voter height →
      ByRight (.request tx r m env) (.create key voter tx.txid height)

theorem checkVoter_eq_ok {r : Registry} {v : LockVote} {rank : Option Nat} (h : checkVoter r v rank = .ok ()) :
    (∃ k, rank = some k ∧ k ≤ voters) ∧ isSigned r v = true := by
  unfold checkVoter at h
  split at h
  · cases h
  rename_i k
  split at h
  · cases h
  rename_i hrank
  split at h
  · rename_i hsigned
    exact ⟨⟨k, rfl, Nat.le_of_not_lt hrank⟩, hsigned⟩
  · cases h

theorem ownVote?_eq_some {r : Registry} {txid : Hash} {height : Nat} {env : LockEnv} {v : LockVote}
    (h : ownVote? r txid height env = some v) :
    ∃ voter key, env.voter = some (voter, key) ∧ Ranks r env voter height ∧ v = .create key voter txid height := by
  unfold ownVote? at h
  split at h
  · cases h
  rename_i voter key hvoter
  split at h
  · cases h
  rename_i rank hrank
  split at h
  · cases h
  · rename_i hle
    cases h
    exact ⟨voter, key, hvoter, ⟨rank, hrank, Nat.le_of_not_lt hle⟩, rfl⟩

theorem Adds.byRight {s : Locks} {e : Event} {v : LockVote} (h : Adds s e v) : ByRight e v := by
  cases h with
  | received htaken =>
    obtain ⟨hrank, hsigned⟩ := checkVoter_eq_ok htaken.2
    unfold isSigned at hsigned
    split at hsigned
    · rename_i entry hentry
      exact .signed hrank hentry (of_decide_eq_true hsigned)
    · cases hsigned
  | cast _ _ hown =>
    obtain ⟨voter, key, hvoter, hranks, rfl⟩ := ownVote?_eq_some hown
    exact .own hvoter hranks

/-- Every vote of a ballot is on the ballot's transaction, and some event of the run added it by right. -/
theorem added_by_right (es : List Event) (t : Hash) (v : LockVote) (hv : v ∈ (run es).votesOn t) :
    v.txid = t ∧ Happened (fun s e => Adds s e v ∧ ByRight e v) es := by
  induction es using List.reverseRecOn with
  | nil => cases hv
  | append_singleton es e ih =>
    have hbefore : v ∈ (run es).votesOn t →
        v.txid = t ∧ Happened (fun s e => Adds s e v ∧ ByRight e v) (es ++ [e]) :=
      fun hold => (ih hold).imp_right fun h => happened_concat.mpr (Or.inl h)
    rw [run_concat] at hv
    rcases votesOn_step (run_sound es) e t with ⟨u, hadds, htxid, hvotes⟩ | ⟨-, hvotes | hvotes⟩
    · rw [hvotes, List.mem_append, List.mem_singleton] at hv
      rcases hv with hold | rfl
      · exact hbefore hold
      · exact ⟨htxid, happened_concat.mpr (Or.inr ⟨hadds, hadds.byRight⟩)⟩
    · exact hbefore (hvotes ▸ hv)
    · rw [hvotes] at hv
      cases hv

/-! ## The known votes -/

/-- A sweep forgets a vote of a ballot that it keeps. -/
def Forgets (s : Locks) (e : Event) : Prop :=
  ∃ c now, e = .sweep c now ∧ ∃ t, ∃ v ∈ (s.sweep c now).1.votesOn t, (s.sweep c now).1.votes.contains v.hash = false

/-- This node casts its vote on a transaction whose ballot has a vote of the same voter. -/
def Doubles (t : Hash) (s : Locks) (e : Event) : Prop :=
  ∃ tx r m env v, e = .request tx r m env ∧ Adds s e v ∧ v.txid = t ∧ v.voter ∈ s.votersOn t

theorem Taken.unknown {s : LockState} {v : LockVote} {env : LockEnv} (h : Taken s v env) :
    s.locks.votes.contains v.hash = false := by
  have hcheck := h.1
  unfold checkVote checkSwitch at hcheck
  simp only [bind_assoc, demand_bind_eq_ok] at hcheck
  exact Bool.eq_false_iff.mpr hcheck.2.2.1

theorem contains_remember (s : Locks) (v : LockVote) (h : Hash) :
    (s.remember v).votes.contains h = (compare v.hash h == .eq || s.votes.contains h) :=
  Std.ExtTreeMap.contains_insert

/-- Requests and votes only add to the known votes. -/
theorem known_step {s : Locks} {h : Hash} (hk : s.votes.contains h = true) {e : Event}
    (hsweep : ∀ c now, e ≠ .sweep c now) (hclear : e ≠ .clear) : (step s e).votes.contains h = true := by
  cases e with
  | request tx r m env =>
    rcases request_cases s r m tx env with ⟨_, -, hs⟩ | ⟨height, -, ⟨_, -, hs⟩ | ⟨_, -, hs⟩⟩
    · rw [hs, hk]
    · rw [hs]
      cases ownVote? r tx.txid height env with
      | none => exact hk
      | some v => exact (contains_remember s v h).trans (by rw [hk, Bool.or_true])
    · rw [hs, (refuse_record _ tx env).1]
      exact hk
  | vote peer v r m env =>
    have hremember : (s.remember v).votes.contains h = true := by rw [contains_remember, hk, Bool.or_true]
    by_cases htaken : Taken ⟨s, r, m⟩ v env
    · rw [(vote_of_taken htaken peer).votes]
      exact hremember
    · rcases vote_of_not_taken htaken peer with hs | hs
      · rw [hs, hk]
      · rw [hs, hremember]
  | check tx now =>
    rw [show (step s (.check tx now)).votes = s.votes from (sameRecord_cancelConflict s tx now).votes, hk]
  | sweep c now => exact absurd rfl (hsweep c now)
  | takeRollback => exact hk
  | clear => exact absurd rfl hclear

/-- An added vote is known. -/
theorem known_of_adds {s : Locks} {e : Event} {v : LockVote} (h : Adds s e v) :
    (step s e).votes.contains v.hash = true := by
  have hself : ∀ s : Locks, (s.remember v).votes.contains v.hash = true := fun s => Std.ExtTreeMap.contains_insert_self
  cases h with
  | @received peer _ r m env htaken =>
    rw [(vote_of_taken htaken peer).votes]
    exact hself s
  | @cast tx r m m' env height _ hcheck haccept hown =>
    rw [request_of_accepted hcheck haccept, hown]
    exact hself s

/-! ## Counted once -/

theorem nodup_erase_concat {xs : List OutPoint} {o w : OutPoint} (h : (xs.erase o).Nodup) (hw : w ∉ xs) :
    ((xs.concat w).erase o).Nodup := by
  rw [List.concat_eq_append, List.erase_append]
  split
  · rw [← List.concat_eq_append]
    exact .concat (fun hm => hw (List.mem_of_mem_erase hm)) h
  · rename_i ho
    rw [List.erase_of_not_mem ho] at h
    have hsub : (xs ++ [w].erase o).Sublist (xs.concat w) := by
      rw [List.concat_eq_append]
      exact List.erase_sublist.append_left xs
    exact (List.Nodup.concat hw h).sublist hsub

theorem nodup_erase_concat_self {xs : List OutPoint} (h : xs.Nodup) (o : OutPoint) :
    ((xs.concat o).erase o).Nodup := by
  rw [List.concat_eq_append, List.erase_append]
  split
  · rw [← List.concat_eq_append]
    exact .concat h.not_mem_erase (h.erase o)
  · simpa using h

/-- What holds while no vote is forgotten: the votes of the ballots are known, and the voters of a ballot are
    distinct but for one, and that only once its request is known. -/
structure Orderly (s : Locks) : Prop where
  known : ∀ t, ∀ v ∈ s.votesOn t, s.votes.contains v.hash = true
  once : ∀ t, (s.votersOn t).Nodup ∨ s.isRequested t = true ∧ ∃ o, ((s.votersOn t).erase o).Nodup

theorem orderly_empty : Orderly empty := ⟨nofun, fun _ => Or.inl List.nodup_nil⟩

theorem votersOn_concat {s s' : Locks} {t : Hash} {v : LockVote} (h : s'.votesOn t = s.votesOn t ++ [v]) :
    s'.votersOn t = (s.votersOn t).concat v.voter := by
  unfold votersOn
  rw [h, List.map_append, List.concat_eq_append]
  rfl

theorem votersOn_congr {s s' : Locks} {t : Hash} (h : s'.votesOn t = s.votesOn t) : s'.votersOn t = s.votersOn t := by
  unfold votersOn
  rw [h]

theorem nodup_of_no_votes {s : Locks} {t : Hash} (h : s.votesOn t = []) : (s.votersOn t).Nodup := by
  unfold votersOn
  rw [h]
  exact List.nodup_nil

/-- A received vote that is counted is the first of its voter, since an earlier one would be known. -/
theorem Taken.new_voter {s : Locks} {r : Registry} {m : Mempool} {v : LockVote} {env : LockEnv}
    (h : Taken ⟨s, r, m⟩ v env)
    (hknown : ∀ u ∈ s.votesOn v.txid, u.txid = v.txid ∧ s.votes.contains u.hash = true) :
    v.voter ∉ s.votersOn v.txid := by
  intro hmem
  obtain ⟨u, hu, hvoter⟩ := List.mem_map.mp hmem
  obtain ⟨htxid, hk⟩ := hknown u hu
  rw [LockVote.hash_congr hvoter htxid, h.unknown] at hk
  cases hk

/-- A vote that stays in its ballot stays known, unless a sweep forgets it. -/
theorem known_of_kept {s : Locks} {e : Event} {t : Hash} {v : LockVote} (hf : ¬ Forgets s e)
    (hk : s.votes.contains v.hash = true) (hv : v ∈ (step s e).votesOn t) :
    (step s e).votes.contains v.hash = true := by
  by_cases hclear : e = .clear
  · subst hclear
    cases hv
  by_cases hsweep : ∃ c now, e = .sweep c now
  · obtain ⟨c, now, rfl⟩ := hsweep
    by_contra hlost
    exact hf ⟨c, now, rfl, t, v, hv, Bool.eq_false_iff.mpr hlost⟩
  · exact known_step hk (fun c now he => hsweep ⟨c, now, he⟩) hclear

/-- One more vote keeps the voters distinct but for one: a received vote is the first of its voter, and this node's own
    is cast only where no request was known, so where no voter was doubled. -/
theorem once_of_adds {s : Locks} (ho : Orderly s) (htxid : ∀ t, ∀ v ∈ s.votesOn t, v.txid = t) {e : Event}
    {v : LockVote} (hadds : Adds s e v) (hkept : s.isRequested v.txid = true → (step s e).isRequested v.txid = true) :
    ((s.votersOn v.txid).concat v.voter).Nodup ∨
      (step s e).isRequested v.txid = true ∧ ∃ o, (((s.votersOn v.txid).concat v.voter).erase o).Nodup := by
  cases hadds with
  | received htaken =>
    have hnew := htaken.new_voter fun u hu => ⟨htxid v.txid u hu, ho.known v.txid u hu⟩
    rcases ho.once v.txid with h | ⟨hr, o, h⟩
    · exact Or.inl (.concat hnew h)
    · exact Or.inr ⟨hkept hr, o, nodup_erase_concat h hnew⟩
  | @cast tx r m m' env height _ hcheck haccept hown =>
    have htx : v.txid = tx.txid := txid_of_ownVote? hown
    rcases ho.once v.txid with h | ⟨hr, -⟩
    · refine Or.inr ⟨?_, v.voter, nodup_erase_concat_self h v.voter⟩
      rw [htx]
      exact isRequested_of_accepted hcheck haccept r
    · rw [htx, checkRequest_new hcheck] at hr
      cases hr

theorem orderly_step {s : Locks} (hs : Sound s) (ho : Orderly s)
    (htxid : ∀ t, ∀ v ∈ s.votesOn t, v.txid = t) {e : Event} (hf : ¬ Forgets s e) : Orderly (step s e) := by
  refine ⟨?_, ?_⟩
  · intro t v hv
    rcases votesOn_step hs e t with ⟨u, hadds, -, hvotes⟩ | ⟨-, hvotes | hvotes⟩
    · by_cases hold : v ∈ s.votesOn t
      · exact known_of_kept hf (ho.known t v hold) hv
      · rw [hvotes, List.mem_append, List.mem_singleton] at hv
        rw [hv.resolve_left hold]
        exact known_of_adds hadds
    · exact known_of_kept hf (ho.known t v (hvotes ▸ hv)) hv
    · rw [hvotes] at hv
      cases hv
  · intro t
    -- a request is forgotten only with all votes of its ballot
    have hkept : s.isRequested t = true → (step s e).votesOn t ≠ [] → (step s e).isRequested t = true :=
      fun hr hvotes => (isRequested_step hs hr e).resolve_right hvotes
    rcases votesOn_step hs e t with ⟨v, hadds, rfl, hvotes⟩ | ⟨-, hvotes | hvotes⟩
    · rw [votersOn_concat hvotes]
      refine once_of_adds ho htxid hadds fun hr => hkept hr ?_
      rw [hvotes]
      exact List.append_ne_nil_of_right_ne_nil _ (List.cons_ne_nil _ _)
    · rw [votersOn_congr hvotes]
      rcases ho.once t with h | ⟨hr, o, h⟩
      · exact Or.inl h
      · by_cases hnil : (step s e).votesOn t = []
        · rw [← votersOn_congr hvotes]
          exact Or.inl (nodup_of_no_votes hnil)
        · exact Or.inr ⟨hkept hr hnil, o, h⟩
    · exact Or.inl (nodup_of_no_votes hvotes)

theorem run_orderly {es : List Event} (hf : ¬ Happened Forgets es) : Orderly (run es) := by
  induction es using List.reverseRecOn with
  | nil => exact orderly_empty
  | append_singleton es e ih =>
    rw [happened_concat, not_or] at hf
    rw [run_concat]
    exact orderly_step (run_sound es) (ih hf.1) (fun t v hv => (added_by_right es t v hv).1) hf.2

/-- The voters of a ballot are distinct in a run in which no own vote was doubled and no vote forgotten. -/
theorem nodup_votersOn {es : List Event} {t : Hash} (hf : ¬ Happened Forgets es) (hd : ¬ Happened (Doubles t) es) :
    ((run es).votersOn t).Nodup := by
  induction es using List.reverseRecOn with
  | nil => exact List.nodup_nil
  | append_singleton es e ih =>
    rw [happened_concat, not_or] at hf hd
    rw [run_concat]
    have hbefore := ih hf.1 hd.1
    rcases votesOn_step (run_sound es) e t with ⟨v, hadds, rfl, hvotes⟩ | ⟨-, hvotes | hvotes⟩
    · rw [votersOn_concat hvotes]
      refine .concat ?_ hbefore
      cases hadds with
      | received htaken =>
        exact htaken.new_voter fun u hu =>
          ⟨(added_by_right es v.txid u hu).1, (run_orderly hf.1).known v.txid u hu⟩
      | cast hcheck haccept hown =>
        intro hmem
        exact hd.2 ⟨_, _, _, _, v, rfl, .cast hcheck haccept hown, rfl, hmem⟩
    · rw [votersOn_congr hvotes]
      exact hbefore
    · exact nodup_of_no_votes hvotes

theorem Adds.unique {s : Locks} {e : Event} {u v : LockVote} (hu : Adds s e u) (hv : Adds s e v) : u = v := by
  cases hu with
  | received _ => exact (adds_vote_iff.mp hv).1.symm
  | cast hcheck _ hown =>
    obtain ⟨height, _, hcheck', -, hown'⟩ := adds_request_iff.mp hv
    rw [hcheck] at hcheck'
    cases hcheck'
    rw [hown] at hown'
    exact Option.some.inj hown'

/-- A doubled vote is counted, so a voter is in the ballot twice. -/
theorem Doubles.repeats {s : Locks} (hs : Sound s) {t : Hash} {e : Event} (h : Doubles t s e) :
    ¬ ((step s e).votersOn t).Nodup := by
  obtain ⟨tx, r, m, env, v, rfl, hadds, rfl, hmem⟩ := h
  rcases votesOn_step hs (.request tx r m env) v.txid with ⟨u, hadds', -, hvotes⟩ | ⟨hnone, -⟩
  · rw [votersOn_concat hvotes, hadds'.unique hadds]
    intro hnodup
    exact ((List.nodup_concat _ _).mp hnodup).1 hmem
  · exact absurd rfl (hnone v hadds)

/-! ## What a sweep forgets -/

theorem lookup_forget (vs : List LockVote) (t : Table Hash LockVote) (k : Hash) :
    (vs.foldl (fun t v => t.erase v.hash) t)[k]? = if k ∈ vs.map LockVote.hash then none else t[k]? := by
  induction vs generalizing t with
  | nil => simp
  | cons v rest ih =>
    rw [List.foldl_cons, ih, Table.lookup_erase]
    by_cases hk : k = v.hash
    · simp [hk]
    · simp [hk, Ne.symm hk]

theorem votes_drop (s : Locks) (x k : Hash) :
    (s.drop x).votes[k]? = if k ∈ (s.votesOn x).map LockVote.hash then none else s.votes[k]? := by
  have hdrop : (s.drop x).votes = (s.votesOn x).foldl (fun t v => t.erase v.hash) s.votes := by
    unfold drop votesOn tally?
    cases s.ballots[x]? <;> rfl
  rw [hdrop, lookup_forget]

theorem votesOn_drop (s : Locks) (x t : Hash) : (s.drop x).votesOn t = if x = t then [] else s.votesOn t := by
  unfold votesOn tally? drop
  dsimp only
  rw [Table.lookup_erase]
  by_cases hx : x = t
  · rw [if_pos hx, if_pos hx]
    rfl
  · rw [if_neg hx, if_neg hx]

/-- A vote is known after some drops exactly if it was before and no dropped ballot has a vote with its hash. -/
theorem known_after_drops_iff {s : Locks} {k : Hash} {u : LockVote} (txids : List Hash) :
    (txids.foldl drop s).votes[k]? = some u ↔
      s.votes[k]? = some u ∧ ∀ x ∈ txids, k ∉ (s.votesOn x).map LockVote.hash := by
  induction txids generalizing s with
  | nil => simp
  | cons x rest ih =>
    rw [List.foldl_cons, ih, votes_drop, List.forall_mem_cons]
    by_cases hx : k ∈ (s.votesOn x).map LockVote.hash
    · rw [if_pos hx]
      simp [hx]
    · rw [if_neg hx]
      simp only [hx, not_false_eq_true, true_and]
      refine and_congr_right fun _ => forall₂_congr fun y _ => ?_
      rw [votesOn_drop]
      by_cases hxy : x = y
      · rw [if_pos hxy, ← hxy]
        simp [hx]
      · rw [if_neg hxy]

/-- A known vote that outlives the drops is kept if its ballot is kept and its transaction is not too old. -/
theorem votes_sweep (s : Locks) (c : Chain) (now : Int) (k : Hash) :
    (s.sweep c now).1.votes[k]? = (((s.expired now).foldl drop s).votes[k]?).filter fun v =>
      (s.sweep c now).1.ballots.contains v.txid && decide (c.transactionAge v.txid ≤ maxTransactionAge) :=
  Std.ExtTreeMap.getElem?_filter'

/-- A sweep forgets a vote of a ballot that it keeps only if the vote's transaction is too old, or a vote on another
    transaction has its hash. -/
theorem Forgets.cause {s : Locks} (hs : Sound s) (ho : Orderly s) (htxid : ∀ t, ∀ v ∈ s.votesOn t, v.txid = t)
    {e : Event} (h : Forgets s e) :
    ∃ c now t v, e = .sweep c now ∧ v ∈ s.votesOn t ∧
      (maxTransactionAge < c.transactionAge t ∨
        ∃ u : LockVote, u.txid ≠ t ∧ (s.votes[v.hash]? = some u ∨ u ∈ s.votesOn u.txid ∧ u.hash = v.hash)) := by
  obtain ⟨c, now, rfl, t, v, hv, hlost⟩ := h
  obtain ⟨l, hl⟩ : ∃ l, (s.sweep c now).1.ballots[t]? = some l := by
    cases hl : (s.sweep c now).1.ballots[t]? with
    | none =>
      rw [votesOn_of_none hl] at hv
      cases hv
    | some l => exact ⟨l, rfl⟩
  obtain ⟨hbefore, hlasts⟩ := (ballot_sweep hs c now t l).mp hl
  have hvotes : v ∈ s.votesOn t := by
    rw [votesOn_of_ballot hl] at hv
    rwa [votesOn_of_ballot hbefore]
  refine ⟨c, now, t, v, rfl, hvotes, ?_⟩
  obtain ⟨u, hu⟩ := Table.contains_iff_lookup.mp (ho.known t v hvotes)
  by_cases hdropped : ∀ x ∈ s.expired now, v.hash ∉ (s.votesOn x).map LockVote.hash
  · -- the stored vote outlived the drops, so it was filtered out
    have hkept := (known_after_drops_iff (s.expired now)).mpr ⟨hu, hdropped⟩
    by_cases hut : u.txid = t
    · refine Or.inl (Nat.lt_of_not_le ?_)
      intro hage
      have hknown : (s.sweep c now).1.votes[v.hash]? = some u := by
        rw [votes_sweep, hkept, Option.filter_some, hut, Table.contains_of_lookup hl, decide_eq_true hage]
        rfl
      rw [Table.contains_of_lookup hknown] at hlost
      cases hlost
    · exact Or.inr ⟨u, hut, Or.inl hu⟩
  · push Not at hdropped
    obtain ⟨x, hx, hk⟩ := hdropped
    obtain ⟨w, hw, hhash⟩ := List.mem_map.mp hk
    have hwx := htxid x w hw
    refine Or.inr ⟨w, ?_, Or.inr ⟨hwx ▸ hw, hhash⟩⟩
    rintro rfl
    obtain ⟨l', hl', hexpired⟩ := (mem_expired hs now x).mp hx
    rw [← hwx, hbefore, Option.some.injEq] at hl'
    exact Int.not_lt.mpr hlasts (hl' ▸ hexpired)

/-! ## Every run -/

/-- In every state that a run reaches, every counted vote was added by right. While no sweep forgot a vote of a kept
    ballot, the signers of a lock are distinct but for one, who is doubled only by this node's own vote; so a complete
    lock has at least five, and six if no own vote was doubled. A doubled vote is always counted twice, and a sweep
    forgets only votes on transactions that are too old, hashes of votes being told apart. -/
theorem signers_are_distinct_but_for_an_own_vote (es : List Event) :
    (∀ t l, (run es).ballots[t]? = some l → ∀ v ∈ l.votes,
      v.txid = t ∧ Happened (fun s e => Adds s e v ∧ ByRight e v) es) ∧
    (¬ Happened Forgets es → ∀ t l, (run es).ballots[t]? = some l →
      (∃ o, (l.signers.erase o).Nodup ∧
        (l.isComplete = true → lockVotesRequired - 1 ≤ (l.signers.erase o).length)) ∧
      (¬ Happened (Doubles t) es →
        l.signers.Nodup ∧ (l.isComplete = true → lockVotesRequired ≤ l.signers.length))) ∧
    (∀ t e, Doubles t (run es) e → ¬ (((run es).step e).votersOn t).Nodup) ∧
    (¬ Happened Forgets es → ∀ e, Forgets (run es) e → ∃ c now t v, e = .sweep c now ∧ v ∈ (run es).votesOn t ∧
      (maxTransactionAge < c.transactionAge t ∨
        ∃ u : LockVote, u.txid ≠ t ∧
          ((run es).votes[v.hash]? = some u ∨ u ∈ (run es).votesOn u.txid ∧ u.hash = v.hash))) := by
  have hs := run_sound es
  refine ⟨?_, ?_, ?_, ?_⟩
  · intro t l hl v hv
    exact added_by_right es t v (votesOn_of_ballot hl ▸ hv)
  · intro hf t l hl
    have hsub : l.signers.Sublist ((run es).votersOn t) := by
      unfold Lock.signers votersOn
      rw [votesOn_of_ballot hl]
      exact List.filter_sublist.map LockVote.voter
    refine ⟨?_, fun hd => ⟨(nodup_votersOn hf hd).sublist hsub, Lock.le_length_signers⟩⟩
    obtain ⟨o, ho⟩ : ∃ o, (((run es).votersOn t).erase o).Nodup := by
      rcases (run_orderly hf).once t with h | ⟨-, h⟩
      · exact ⟨⟨0, 0⟩, h.erase _⟩
      · exact h
    refine ⟨o, ho.sublist (hsub.erase o), ?_⟩
    intro hc
    have hsix := Lock.le_length_signers hc
    have hlength : l.signers.length - 1 ≤ (l.signers.erase o).length := List.le_length_erase
    omega
  · intro t e h
    exact h.repeats hs
  · intro hf e h
    exact h.cause hs (run_orderly hf) fun t v hv => (added_by_right es t v hv).1

end Locks
end NodeQuorum
