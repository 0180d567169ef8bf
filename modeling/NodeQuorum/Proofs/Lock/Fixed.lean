/-
  NodeQuorum.Proofs.Lock.Fixed — a lock's height is fixed once, and its count never falls.

  The height of a ballot says whether its request is known: it is zero until then, and no request gives a ballot the
  height zero, since its inputs lie four or more below the tip (`three_le_of_lockHeight?`).
  - `height_step`: an event leaves height and request of a transaction alone, or makes an unknown request known and
    gives the ballot its height, or both are gone. So height and request go together in every run (`run_targeted`).
  - `ballot_step`: while a ballot stands it keeps a height that it was given and gains votes only, so its count does
    not fall.
  - `ballot_gone_iff`: only a sweep that finds it expired, and a clear, take a ballot away.
-/

import NodeQuorum.Proofs.Lock.Erased
import NodeQuorum.Proofs.Lock.Height

namespace NodeQuorum

/-- Of two ballots for one height the one with more votes has no smaller count. -/
theorem Lock.signatures_le {l l' : Lock} (hheight : l.height ≠ 0 → l'.height = l.height)
    (hvotes : l.votes <+: l'.votes) : l.signatures ≤ l'.signatures := by
  unfold signatures
  by_cases hzero : l.height = 0
  · rw [if_pos hzero]
    exact Nat.zero_le _
  · rw [if_neg hzero, hheight hzero, if_neg hzero]
    exact hvotes.sublist.countP_le

namespace Locks

/-! ## The height of a request -/

/-- The inputs of a request lie four or more below the tip, and a transaction without inputs has a height above it. -/
theorem three_le_of_lockHeight? {c : Chain} {tx : Transaction} {height : Nat} (h : lockHeight? c tx = some height) :
    3 ≤ height := by
  cases hlast : tx.spends.getLast? with
  | some last =>
    obtain ⟨-, coin, -, rfl⟩ := (lockHeight?_eq_some_iff hlast).mp h
    exact Nat.le_add_left 3 coin.height
  | none =>
    unfold lockHeight? at h
    rw [List.getLast?_eq_none_iff.mp hlast] at h
    unfold inputAge? heightOffset at h
    split at h
    · rename_i hage _
      cases hage
      cases h
      omega
    · cases h

theorem three_le_of_checkRequest {s : Locks} {tx : Transaction} {env : LockEnv} {height : Nat}
    (h : s.checkRequest tx env = .ok height) : 3 ≤ height := by
  unfold checkRequest checkSwitch at h
  simp only [bind_assoc, demand_bind_eq_ok] at h
  obtain ⟨-, -, -, -, -, hheight⟩ := h
  split at hheight
  · rename_i hfound
    cases hheight
    exact three_le_of_lockHeight? hfound
  · cases hheight

/-! ## Height and request of one transaction -/

/-- The height of the ballot on a transaction, zero if there is none. -/
def heightOn (s : Locks) (t : Hash) : Nat := (s.tally? t).elim 0 Prod.fst

theorem heightOn_of_ballot {s : Locks} {t : Hash} {l : Lock} (h : s.ballots[t]? = some l) :
    s.heightOn t = l.height := by
  unfold heightOn tally?
  rw [h]
  rfl

theorem heightOn_of_none {s : Locks} {t : Hash} (h : s.ballots[t]? = none) : s.heightOn t = 0 := by
  unfold heightOn tally?
  rw [h]
  rfl

/-- A height that is not zero is that of a ballot. -/
theorem heightOn_ne_zero_iff {s : Locks} {t : Hash} :
    s.heightOn t ≠ 0 ↔ ∃ l, s.ballots[t]? = some l ∧ l.height ≠ 0 := by
  cases hl : s.ballots[t]? with
  | none => simp [heightOn_of_none hl]
  | some l => simp [heightOn_of_ballot hl]

theorem isRequested_congr {s s' : Locks} {t : Hash} (hrequests : s'.requests[t]? = s.requests[t]?)
    (hrejected : s'.rejected[t]? = s.rejected[t]?) : s'.isRequested t = s.isRequested t := by
  rw [Bool.eq_iff_iff, isRequested_iff, isRequested_iff, hrequests, hrejected]

/-- Height and request of a transaction are what they were. -/
def SameTarget (s s' : Locks) (t : Hash) : Prop :=
  s'.heightOn t = s.heightOn t ∧ s'.isRequested t = s.isRequested t

theorem SameRecord.sameTarget {s s' : Locks} (h : SameRecord s s') (t : Hash) : SameTarget s s' t := by
  refine ⟨?_, isRequested_congr (by rw [h.requests]) (by rw [h.rejected])⟩
  unfold heightOn
  rw [h.tally t]

/-- A ballot that a vote opens has the height zero, which it had without being open. -/
theorem sameTarget_counted (s : Locks) (v : LockVote) (now : Int) (t : Hash) : SameTarget s (s.counted v now) t := by
  refine ⟨?_, rfl⟩
  by_cases ht : v.txid = t
  · subst ht
    unfold heightOn tally? counted addVote
    dsimp only
    rw [Table.lookup_modify, Table.lookup_insertIfNew, if_pos rfl, if_pos rfl]
    cases s.ballots[v.txid]? <;> rfl
  · unfold heightOn
    rw [tally?_counted_of_ne s v now ht]

theorem sameTarget_vote (s : Locks) (r : Registry) (m : Mempool) (peer : PeerId) (v : LockVote) (env : LockEnv)
    (t : Hash) : SameTarget s (step s (.vote peer v r m env)) t := by
  by_cases htaken : Taken ⟨s, r, m⟩ v env
  · obtain ⟨hheight, hrequested⟩ := (vote_of_taken htaken peer).sameTarget t
    obtain ⟨hheight', hrequested'⟩ := sameTarget_counted (s.remember v) v env.now t
    exact ⟨hheight.trans hheight', hrequested.trans hrequested'⟩
  · rcases vote_of_not_taken htaken peer with he | he
    · rw [he]
      exact ⟨rfl, rfl⟩
    · rw [he]
      exact ⟨rfl, rfl⟩

/-- A refusal by the pool makes no other request known. -/
theorem isRequested_refuse_of_ne {s : LockState} {tx : Transaction} {env : LockEnv} {t : Hash} (hne : tx.txid ≠ t) :
    (refuse s tx env).1.locks.isRequested t = s.locks.isRequested t := by
  have hrejected : (s.locks.refused tx).rejected[t]? = s.locks.rejected[t]? := by
    unfold refused hold
    dsimp only
    rw [Table.lookup_insert, if_neg hne]
  refine isRequested_congr (refuse_requests_of_ne hne) ?_
  rw [refuse_eq]
  split
  · rcases cancel_cases { s with locks := s.locks.refused tx } tx env.now with ⟨-, he⟩ | ⟨other, -, he⟩
    · rw [he]
      exact hrejected
    · rw [he]
      dsimp only
      rw [rejected_cancelConflict, hrejected]
  · exact hrejected

/-- A request leaves height and request of every other transaction alone. -/
theorem sameTarget_request_of_ne (s : Locks) (r : Registry) (m : Mempool) {tx : Transaction} (env : LockEnv)
    {t : Hash} (hne : tx.txid ≠ t) : SameTarget s (step s (.request tx r m env)) t := by
  have hopen : ∀ height, (s.openBallot tx height env.now).isRequested t = s.isRequested t := by
    intro height
    refine isRequested_congr ?_ rfl
    unfold openBallot
    dsimp only
    rw [Table.lookup_insert, if_neg hne]
  refine ⟨?_, ?_⟩
  · unfold heightOn
    rw [(request_frame s r m env hne).2]
  · rcases request_cases s r m tx env with ⟨_, -, he⟩ | ⟨height, -, ⟨_, -, he⟩ | ⟨_, -, he⟩⟩
    · rw [he]
    · rw [he, isRequested_withOwn, hopen]
    · rw [he, isRequested_refuse_of_ne hne, hopen]

/-- This node's own vote leaves the heights alone. -/
theorem heightOn_withOwn (s : Locks) (own : Option LockVote) (t : Hash) :
    (s.withOwn own).heightOn t = s.heightOn t := by
  cases own with
  | none => rfl
  | some v =>
    unfold heightOn tally? withOwn addVote
    dsimp only
    rw [Table.lookup_modify]
    split
    · cases s.ballots[t]? <;> rfl
    · rfl

/-- A request that is taken is known, and its ballot has the height that was reckoned for it. -/
theorem target_of_request {s : Locks} {tx : Transaction} {env : LockEnv} {height : Nat}
    (hcheck : s.checkRequest tx env = .ok height) (r : Registry) (m : Mempool) :
    (step s (.request tx r m env)).isRequested tx.txid = true ∧
      (step s (.request tx r m env)).heightOn tx.txid = height := by
  have hopen : (s.openBallot tx height env.now).isRequested tx.txid = true :=
    isRequested_iff.mpr (Or.inl ⟨tx, Std.ExtTreeMap.getElem?_insert_self⟩)
  have hheight : (s.openBallot tx height env.now).heightOn tx.txid = height := by
    obtain ⟨l, hl, rfl⟩ := Option.map_eq_some_iff.mp (height_openBallot s tx height env.now)
    exact heightOn_of_ballot hl
  rcases request_cases s r m tx env with ⟨_, hrefused, -⟩ | ⟨height', hcheck', ⟨_, -, he⟩ | ⟨_, -, he⟩⟩
  · rw [hcheck] at hrefused
    cases hrefused
  · obtain rfl : height = height' := Except.ok.inj (hcheck.symm.trans hcheck')
    rw [he, isRequested_withOwn, heightOn_withOwn]
    exact ⟨hopen, hheight⟩
  · obtain rfl : height = height' := Except.ok.inj (hcheck.symm.trans hcheck')
    rw [he]
    refine ⟨isRequested_refuse hopen tx env, ?_⟩
    unfold heightOn
    rw [(refuse_record _ tx env).2]
    exact hheight

theorem ballot_of_request {s : Locks} {tx : Transaction} {env : LockEnv} {height : Nat}
    (hcheck : s.checkRequest tx env = .ok height) (r : Registry) (m : Mempool) :
    ∃ l, (step s (.request tx r m env)).ballots[tx.txid]? = some l ∧ l.height = height := by
  obtain ⟨-, hheight⟩ := target_of_request hcheck r m
  have hset : (step s (.request tx r m env)).heightOn tx.txid ≠ 0 := by
    have hthree := three_le_of_checkRequest hcheck
    omega
  obtain ⟨l, hl, -⟩ := heightOn_ne_zero_iff.mp hset
  exact ⟨l, hl, (heightOn_of_ballot hl).symm.trans hheight⟩

/-! ## Any event -/

/-- What an event does to height and request of a transaction: nothing, or the request becomes known and the ballot
    gets its height, or ballot and request are gone. -/
theorem height_step {s : Locks} (hs : Sound s) (hb : Balloted s) (e : Event) (t : Hash) :
    SameTarget s (step s e) t ∨
    (s.isRequested t = false ∧ (step s e).isRequested t = true ∧ 3 ≤ (step s e).heightOn t) ∨
    ((step s e).ballots[t]? = none ∧ (step s e).isRequested t = false) := by
  cases e with
  | request tx r m env =>
    by_cases ht : tx.txid = t
    · subst ht
      rcases request_cases s r m tx env with ⟨_, -, he⟩ | ⟨height, hcheck, -⟩
      · rw [he]
        exact Or.inl ⟨rfl, rfl⟩
      · obtain ⟨hrequested, hheight⟩ := target_of_request hcheck r m
        exact Or.inr (Or.inl ⟨checkRequest_new hcheck, hrequested, hheight ▸ three_le_of_checkRequest hcheck⟩)
    · exact Or.inl (sameTarget_request_of_ne s r m env ht)
  | vote peer v r m env => exact Or.inl (sameTarget_vote s r m peer v env t)
  | check tx now => exact Or.inl ((sameRecord_cancelConflict s tx now).sameTarget t)
  | sweep c now =>
    unfold step
    dsimp only
    cases hl : (s.sweep c now).1.ballots[t]? with
    | none =>
      refine Or.inr (Or.inr ⟨rfl, ?_⟩)
      exact not_isRequested_iff.mpr (erased_of_no_ballot hs hb hl).request
    | some l =>
      obtain ⟨hrequests, hrejected⟩ := request_sweep hs hl
      have hbefore := ((ballot_sweep hs c now t l).mp hl).1
      exact Or.inl ⟨(heightOn_of_ballot hl).trans (heightOn_of_ballot hbefore).symm,
        isRequested_congr hrequests hrejected⟩
  | takeRollback => exact Or.inl ⟨rfl, rfl⟩
  | clear =>
    refine Or.inr (Or.inr ⟨?_, not_isRequested_iff.mpr ⟨?_, ?_⟩⟩) <;> exact Std.ExtTreeMap.getElem?_empty

/-- A ballot has a height exactly if its request is known. -/
structure Targeted (s : Locks) : Prop where
  requested : ∀ t : Hash, s.isRequested t = true → 3 ≤ s.heightOn t
  unknown : ∀ t : Hash, s.isRequested t = false → s.heightOn t = 0

theorem targeted_empty : Targeted empty where
  requested t h := by simp [isRequested, empty] at h
  unknown _ _ := rfl

theorem targeted_step {s : Locks} (hs : Sound s) (hb : Balloted s) (h : Targeted s) (e : Event) :
    Targeted (step s e) where
  requested t hr := by
    rcases height_step hs hb e t with ⟨hheight, hrequested⟩ | ⟨-, -, hheight⟩ | ⟨-, hgone⟩
    · rw [hheight]
      exact h.requested t (hrequested ▸ hr)
    · exact hheight
    · rw [hgone] at hr
      cases hr
  unknown t hr := by
    rcases height_step hs hb e t with ⟨hheight, hrequested⟩ | ⟨-, hknown, -⟩ | ⟨hgone, -⟩
    · rw [hheight]
      exact h.unknown t (hrequested ▸ hr)
    · rw [hknown] at hr
      cases hr
    · exact heightOn_of_none hgone

theorem run_targeted (es : List Event) : Targeted (run es) := by
  induction es using List.reverseRecOn with
  | nil => exact targeted_empty
  | append_singleton es e ih =>
    rw [run_concat]
    exact targeted_step (run_sound es) (run_balloted es) ih e

/-- A request is known exactly if there is a ballot for it with a height. -/
theorem Targeted.isRequested_iff {s : Locks} (h : Targeted s) (t : Hash) :
    s.isRequested t = true ↔ ∃ l, s.ballots[t]? = some l ∧ l.height ≠ 0 := by
  rw [← heightOn_ne_zero_iff]
  cases hr : s.isRequested t with
  | true =>
    have hthree := h.requested t hr
    exact iff_of_true rfl (by omega)
  | false => exact iff_of_false nofun fun hne => hne (h.unknown t hr)

/-! ## While a ballot stands -/

/-- As long as a ballot stands its votes stay, in their order, and new ones come after them. -/
theorem votesOn_prefix {s : Locks} (hs : Sound s) {e : Event} {t : Hash} {l : Lock}
    (hl : (step s e).ballots[t]? = some l) : s.votesOn t <+: (step s e).votesOn t := by
  have hadded : ∀ {v : LockVote},
      (step s e).votesOn t = (if v.txid = t then s.votesOn t ++ [v] else s.votesOn t) →
      s.votesOn t <+: (step s e).votesOn t := by
    intro v hvotes
    rw [hvotes]
    split
    · exact List.prefix_append _ _
    · exact List.prefix_rfl
  have hsame : (step s e).votesOn t = s.votesOn t → s.votesOn t <+: (step s e).votesOn t :=
    fun hvotes => ⟨[], by rw [List.append_nil, hvotes]⟩
  cases e with
  | request tx r m env =>
    rcases votesOn_request s r m tx env with ⟨v, -, -, hvotes⟩ | ⟨-, hvotes⟩
    · exact hadded (hvotes t)
    · exact hsame (hvotes t)
  | vote peer v r m env =>
    rcases votesOn_vote s r m peer v env with ⟨-, hvotes⟩ | ⟨-, hvotes⟩
    · exact hadded (hvotes t)
    · exact hsame (hvotes t)
  | check tx now => exact hsame ((sameRecord_cancelConflict s tx now).votesOn t)
  | sweep c now =>
    have hbefore := ((ballot_sweep hs c now t l).mp hl).1
    exact hsame ((votesOn_of_ballot hl).trans (votesOn_of_ballot hbefore).symm)
  | takeRollback => exact hsame rfl
  | clear => exact absurd hl (by simp [step, clear, empty])

/-- A ballot that stands before and after an event keeps a height that it was given, and its count does not fall. -/
theorem ballot_step {s : Locks} (hs : Sound s) (hb : Balloted s) (h : Targeted s) {e : Event} {t : Hash} {l l' : Lock}
    (hl : s.ballots[t]? = some l) (hl' : (step s e).ballots[t]? = some l') :
    (l.height ≠ 0 → l'.height = l.height) ∧ l.signatures ≤ l'.signatures := by
  have hheight : l.height ≠ 0 → l'.height = l.height := by
    intro hne
    have hrequested : s.isRequested t = true := (h.isRequested_iff t).mpr ⟨l, hl, hne⟩
    rcases height_step hs hb e t with ⟨hsame, -⟩ | ⟨hnew, -⟩ | ⟨hgone, -⟩
    · rwa [heightOn_of_ballot hl, heightOn_of_ballot hl'] at hsame
    · rw [hrequested] at hnew
      cases hnew
    · rw [hl'] at hgone
      cases hgone
  have hvotes := votesOn_prefix hs hl'
  rw [votesOn_of_ballot hl, votesOn_of_ballot hl'] at hvotes
  exact ⟨hheight, Lock.signatures_le hheight hvotes⟩

/-- A ballot is taken away: by a sweep that finds it expired, or with all others. -/
inductive Drops (l : Lock) : Event → Prop
  | sweep {c : Chain} {now : Int} : l.expiration < now → Drops l (.sweep c now)
  | clear : Drops l .clear

theorem contains_ballots_effect {s s' : Locks} {m m' : Mempool} {now : Int} {c : Option (Hash × Hash)}
    (he : Effect s m now s' m' c) {t : Hash} (h : s.ballots.contains t = true) : s'.ballots.contains t = true := by
  have hkept : ∀ {s' : Locks}, Moves s s' → s'.ballots.contains t = true := by
    intro s' hmoves
    induction hmoves with
    | refl => exact h
    | tail _ hmove ih => exact ballot_of_move hmove ih
  cases he with
  | kept hmoves _ => exact hkept hmoves
  | cancelled hmoves _ _ _ _ =>
    rw [contains_ballots_cancelConflict]
    exact hkept hmoves

theorem ballot_gone_iff {s : Locks} (hs : Sound s) {e : Event} {t : Hash} {l : Lock} (hl : s.ballots[t]? = some l) :
    (step s e).ballots[t]? = none ↔ Drops l e := by
  have hballot : s.ballots.contains t = true := Table.contains_of_lookup hl
  -- what keeps every ballot keeps this one, and is no drop
  have hkeeps : (step s e).ballots.contains t = true → ¬ Drops l e →
      ((step s e).ballots[t]? = none ↔ Drops l e) := by
    intro hkept hno
    rw [Table.getElem?_eq_none_iff, hkept]
    exact iff_of_false nofun hno
  cases e with
  | request tx r m env => exact hkeeps (contains_ballots_effect (request_effect ⟨s, r, m⟩ tx env) hballot) nofun
  | vote peer v r m env => exact hkeeps (contains_ballots_effect (vote_effect ⟨s, r, m⟩ peer v env) hballot) nofun
  | check tx now => exact hkeeps ((contains_ballots_cancelConflict s tx now t).trans hballot) nofun
  | sweep c now =>
    have hdrops : Drops l (.sweep c now) ↔ l.expiration < now := by
      constructor
      · rintro ⟨hexpired⟩
        exact hexpired
      · exact .sweep
    rw [hdrops, Option.eq_none_iff_forall_ne_some]
    constructor
    · intro hgone
      exact Int.not_le.mp fun hlasts => hgone l ((ballot_sweep hs c now t l).mpr ⟨hl, hlasts⟩)
    · intro hexpired l' hl'
      obtain ⟨hbefore, hlasts⟩ := (ballot_sweep hs c now t l').mp hl'
      rw [hl, Option.some.injEq] at hbefore
      subst hbefore
      exact Int.not_le.mpr hexpired hlasts
  | takeRollback => exact hkeeps hballot nofun
  | clear => exact iff_of_true Std.ExtTreeMap.getElem?_empty .clear

/-! ## Every run -/

/-- While the ballot on a transaction stands, it keeps a height that it was given, and its count does not fall. -/
theorem standing_ballot (es later : List Event) {t : Hash} {l : Lock} (hl : (run es).ballots[t]? = some l)
    (hstands : ∀ part, part <+: later → (run (es ++ part)).ballots.contains t = true) :
    ∃ l', (run (es ++ later)).ballots[t]? = some l' ∧ (l.height ≠ 0 → l'.height = l.height) ∧
      l.signatures ≤ l'.signatures := by
  induction later using List.reverseRecOn with
  | nil =>
    rw [List.append_nil]
    exact ⟨l, hl, fun _ => rfl, Nat.le_refl _⟩
  | append_singleton later e ih =>
    obtain ⟨mid, hmid, hheight, hcount⟩ := ih fun part hpart => hstands part (hpart.trans (List.prefix_append _ _))
    obtain ⟨l', hl'⟩ := Table.contains_iff_lookup.mp (hstands (later ++ [e]) List.prefix_rfl)
    have hafter := hl'
    rw [← List.append_assoc, run_concat] at hafter
    have hsound := run_sound (es ++ later)
    obtain ⟨hheight', hcount'⟩ := ballot_step hsound (run_balloted _) (run_targeted _) hmid hafter
    refine ⟨l', hl', ?_, Nat.le_trans hcount hcount'⟩
    intro hne
    have hsame := hheight hne
    rw [hheight' (hsame ▸ hne), hsame]

/-- In every state that a run reaches: a request is known, taken or refused by the pool, exactly if there is a ballot
    for it with a height, which is three or more; its request gives it the height that is reckoned then. A ballot goes
    only with a sweep after its expiration, or when all locks are forgotten; and while it stands, whatever comes, a
    height that it was given stays and its count does not fall. -/
theorem heights_are_fixed_once_and_counts_never_fall (es : List Event) :
    (∀ t : Hash, (run es).isRequested t = true ↔ ∃ l, (run es).ballots[t]? = some l ∧ l.height ≠ 0) ∧
    (∀ (t : Hash) (l : Lock), (run es).ballots[t]? = some l → l.height = 0 ∨ 3 ≤ l.height) ∧
    (∀ tx r m env height, (run es).checkRequest tx env = .ok height →
      ∃ l, (run (es ++ [.request tx r m env])).ballots[tx.txid]? = some l ∧ l.height = height) ∧
    (∀ (t : Hash) (l : Lock), (run es).ballots[t]? = some l →
      ∀ e, (run (es ++ [e])).ballots[t]? = none ↔ Drops l e) ∧
    ∀ (t : Hash) (l : Lock), (run es).ballots[t]? = some l → ∀ later : List Event,
      (∀ part, part <+: later → (run (es ++ part)).ballots.contains t = true) →
      ∃ l', (run (es ++ later)).ballots[t]? = some l' ∧ (l.height ≠ 0 → l'.height = l.height) ∧
        l.signatures ≤ l'.signatures := by
  have htargeted := run_targeted es
  refine ⟨htargeted.isRequested_iff, ?_, ?_, ?_, fun t l hl later => standing_ballot es later hl⟩
  · intro t l hl
    rw [← heightOn_of_ballot hl]
    cases hr : (run es).isRequested t with
    | true => exact Or.inr (htargeted.requested t hr)
    | false => exact Or.inl (htargeted.unknown t hr)
  · intro tx r m env height hcheck
    rw [run_concat]
    exact ballot_of_request hcheck r m
  · intro t l hl e
    rw [run_concat]
    exact ballot_gone_iff (run_sound es) hl

end Locks
end NodeQuorum
