/-
  NodeQuorum.Proofs.Lock.TooFast — what a refused lock vote leaves behind.

  A vote is refused before its voter is looked at, for its voter, or, if its request is not known, for its rate. The
  first changes nothing, the second makes the vote known, but the rate is looked at after the vote was counted:
  - `refused_cases`: a refused vote is counted nowhere, or it comes too fast (`TooFast`), and then it is in its ballot.
  - `votes_of_request`: it is among the votes of the lock when the request comes.
  `refused_votes_change_no_ballot_unless_they_come_too_fast` puts them together for every run.
-/

import NodeQuorum.Proofs.Lock.Fixed
import NodeQuorum.Proofs.Lock.Known
import NodeQuorum.Proofs.Quorum.OwnVotes

namespace NodeQuorum.Locks

/-! ## The rate of votes without a request -/

/-- A vote of a voter that may vote is for a transaction whose request is not known, and comes too early for its voter,
    by the mean of the times at which voters may vote next. -/
def TooFast (s : LockState) (v : LockVote) (env : LockEnv) : Prop :=
  Taken s v env ∧ s.locks.isRequested v.txid = false ∧ (s.locks.allowUnknown v.voter env.now).2 = false

/-- The rate goes by the times at which voters may vote next, and changes no more than these. -/
theorem allowUnknown_congr (s s' : Locks) (h : s'.unknownVotes = s.unknownVotes) (voter : OutPoint) (now : Int) :
    s'.allowUnknown voter now =
      ({ s' with unknownVotes := (s.allowUnknown voter now).1.unknownVotes }, (s.allowUnknown voter now).2) := by
  have haverage : ∀ next : Table Hash Int, averageVoteTime { s' with unknownVotes := next } =
      averageVoteTime { s with unknownVotes := next } := fun _ => rfl
  unfold allowUnknown
  dsimp only
  rw [h, haverage]
  split <;> rfl

/-- A vote on a transaction whose request is not known does not complete its ballot, which has no height. -/
theorem count_of_unknown {s : LockState} (h : Targeted s.locks) {v : LockVote}
    (hnew : s.locks.isRequested v.txid = false) (env : LockEnv) :
    count s v env = ({ s with locks := s.locks.counted v env.now }, .ok .added) := by
  have hheight : (s.locks.counted v env.now).heightOn v.txid = 0 :=
    (sameTarget_counted s.locks v env.now v.txid).1.trans (h.unknown v.txid hnew)
  have hcount : ((s.locks.counted v env.now).signatures? v.txid).getD 0 = 0 := by
    unfold signatures?
    cases hl : (s.locks.counted v env.now).ballots[v.txid]? with
    | none => rfl
    | some l =>
      rw [heightOn_of_ballot hl] at hheight
      rw [Option.map_some, Option.getD_some, Lock.signatures, if_pos hheight]
  rw [count_eq, hcount, if_neg (by decide)]

/-- Without a request the rate decides whether a vote is passed on with its verdict or refused. -/
theorem announce_of_unknown {s : LockState} {v : LockVote} (hnew : s.locks.isRequested v.txid = false)
    (verdict : Verdict) (env : LockEnv) {unknownVotes : Table Hash Int} {allowed : Bool}
    (hrate : s.locks.allowUnknown v.voter env.now = ({ s.locks with unknownVotes }, allowed)) :
    announce s v verdict env =
      if allowed then ⟨{ s with locks := { s.locks with unknownVotes } }, [.relay ⟨.lockVote, v.hash⟩], verdict⟩
      else ⟨{ s with locks := { s.locks with unknownVotes } }, [],
        .error (.ignored (v.voter.text ++ " exceeds the unknown vote rate"))⟩ := by
  unfold announce
  dsimp only
  rw [hnew, if_neg Bool.false_ne_true, hrate]
  cases allowed <;> rfl

/-- The locks with a vote known and counted on a transaction whose request is not known, and its rate looked at. -/
def countedUnknown (s : Locks) (v : LockVote) (now : Int) : Locks :=
  { (s.remember v).counted v now with unknownVotes := (s.allowUnknown v.voter now).1.unknownVotes }

/-- What a vote on a transaction whose request is not known does, if its voter may vote: it is known and counted, and
    then its rate decides whether it is passed on or refused. -/
theorem processVote_of_unknown {s : LockState} (h : Targeted s.locks) {v : LockVote} {env : LockEnv}
    (htaken : Taken s v env) (hnew : s.locks.isRequested v.txid = false) (peer : PeerId) :
    (processVote s peer v env).state.locks = s.locks.countedUnknown v env.now ∧
      ((s.locks.allowUnknown v.voter env.now).2 = true ∧ (processVote s peer v env).verdict = .ok .added ∨
        (s.locks.allowUnknown v.voter env.now).2 = false ∧ (processVote s peer v env).sent = [] ∧
          (processVote s peer v env).verdict =
            .error (.ignored (v.voter.text ++ " exceeds the unknown vote rate"))) := by
  let known : LockState := remembered s v env
  let counted : LockState := { known with locks := known.locks.counted v env.now }
  have hknown : Targeted known.locks := ⟨h.requested, h.unknown⟩
  have hrate := allowUnknown_congr s.locks counted.locks rfl v.voter env.now
  rw [processVote_of_taken htaken, count_of_unknown hknown hnew,
    announce_of_unknown (s := counted) hnew (.ok .added) env hrate]
  cases (s.locks.allowUnknown v.voter env.now).2 with
  | true => exact ⟨rfl, Or.inl ⟨rfl, rfl⟩⟩
  | false => exact ⟨rfl, Or.inr ⟨rfl, rfl, rfl⟩⟩

theorem TooFast.verdict {s : LockState} {v : LockVote} {env : LockEnv} (hfast : TooFast s v env)
    (h : Targeted s.locks) (peer : PeerId) : (processVote s peer v env).verdict =
      .error (.ignored (v.voter.text ++ " exceeds the unknown vote rate")) := by
  obtain ⟨htaken, hnew, hrate⟩ := hfast
  obtain ⟨-, ⟨hallowed, -⟩ | ⟨-, -, hrefused⟩⟩ := processVote_of_unknown h htaken hnew peer
  · rw [hrate] at hallowed
    cases hallowed
  · exact hrefused

/-- Counting a vote changes its ballot. -/
theorem ballots_counted_ne (s : Locks) (v : LockVote) (now : Int) : (s.counted v now).ballots ≠ s.ballots := by
  intro hsame
  have hkept : (s.counted v now).votesOn v.txid = s.votesOn v.txid := by
    unfold votesOn tally?
    rw [hsame]
  rw [votesOn_counted, if_pos rfl] at hkept
  exact absurd hkept (by simp)

/-! ## A refused vote -/

/-- A vote that is refused, and reports no conflict, is counted nowhere and not passed on, or it comes too fast: then it
    is not passed on either, but it is counted. -/
theorem refused_cases {s : LockState} (h : Targeted s.locks) {peer : PeerId} {v : LockVote} {env : LockEnv} {e : Reject}
    (herror : (processVote s peer v env).verdict = .error e) (hconflict : ∀ a b, e ≠ .conflict a b) :
    (¬ Taken s v env ∧ (∀ i, .relay i ∉ (processVote s peer v env).sent) ∧
      ((processVote s peer v env).state.locks = s.locks ∨
        (processVote s peer v env).state.locks = s.locks.remember v)) ∨
    (TooFast s v env ∧ (processVote s peer v env).sent = [] ∧
      e = .ignored (v.voter.text ++ " exceeds the unknown vote rate") ∧
      (processVote s peer v env).state.locks = s.locks.countedUnknown v env.now) := by
  by_cases htaken : Taken s v env
  · cases hrequested : s.locks.isRequested v.txid with
    | true =>
      rcases verdict_of_taken htaken hrequested peer with ⟨a, hok⟩ | ⟨ours, theirs, hreported⟩
      · rw [hok] at herror
        cases herror
      · rw [hreported] at herror
        cases herror
        exact absurd rfl (hconflict ours theirs)
    | false =>
      obtain ⟨hlocks, ⟨-, hok⟩ | ⟨hfast, hsent, hrefused⟩⟩ := processVote_of_unknown h htaken hrequested peer
      · rw [hok] at herror
        cases herror
      · rw [hrefused] at herror
        cases herror
        exact Or.inr ⟨⟨htaken, hrequested, hfast⟩, hsent, rfl, hlocks⟩
  · refine Or.inl ⟨htaken, ?_⟩
    rcases vote_cases s.locks s.registry s.mempool peer v env with ⟨e, hcheck, -⟩ | ⟨hrefuses, -⟩ | htaken'
    · have hnothing : processVote s peer v env = ⟨s, [], .error e⟩ := by
        unfold processVote
        rw [hcheck]
      rw [hnothing]
      exact ⟨fun _ => List.not_mem_nil, Or.inl rfl⟩
    · cases hrefuses with
      | vote hcheck hforged =>
        obtain ⟨hlocks, -, hsent⟩ := processVote_of_refused hcheck hforged peer
        exact ⟨hsent, Or.inr hlocks⟩
    · exact absurd htaken' htaken

/-! ## When the request comes -/

/-- The votes that a ballot has when its request is taken are votes of its lock, with this node's own behind them. -/
theorem votes_of_request {s : Locks} {tx : Transaction} {env : LockEnv} {height : Nat}
    (hcheck : s.checkRequest tx env = .ok height) (r : Registry) (m : Mempool) :
    ∃ l own, (step s (.request tx r m env)).ballots[tx.txid]? = some l ∧ l.height = height ∧
      l.votes = s.votesOn tx.txid ++ own := by
  obtain ⟨l, hl, hheight⟩ := ballot_of_request hcheck r m
  have hvotes : s.votesOn tx.txid <+: l.votes := by
    rw [← votesOn_of_ballot hl]
    rcases votesOn_request s r m tx env with ⟨v, -, htxid, hadded⟩ | ⟨-, hsame⟩
    · rw [hadded, if_pos htxid]
      exact List.prefix_append _ _
    · exact ⟨[], by rw [List.append_nil, hsame]⟩
  obtain ⟨own, hown⟩ := hvotes
  exact ⟨l, own, hl, hheight, hown.symm⟩

/-! ## Every run -/

/-- In every state that a run reaches: a vote that is refused, and reports no conflict, is not passed on, and changes no
    request, no held output, no count of completed locks and no rollback. It changes no ballot either, unless it comes
    too fast. Then it is refused as ignored, but it is in the ballot on its transaction as if it had been accepted; and
    when the request comes it is one of the votes of the lock. -/
theorem refused_votes_change_no_ballot_unless_they_come_too_fast (es : List Event) (r : Registry) (m : Mempool)
    (peer : PeerId) (v : LockVote) (env : LockEnv) {e : Reject}
    (herror : (processVote ⟨run es, r, m⟩ peer v env).verdict = .error e) (hconflict : ∀ a b, e ≠ .conflict a b) :
    let s := run es
    let s' := (processVote ⟨s, r, m⟩ peer v env).state.locks
    (∀ i, .relay i ∉ (processVote ⟨s, r, m⟩ peer v env).sent) ∧
    s' = { s with ballots := s'.ballots, votes := s'.votes, unknownVotes := s'.unknownVotes } ∧
    (s'.ballots = s.ballots ↔ ¬ TooFast ⟨s, r, m⟩ v env) ∧
    (TooFast ⟨s, r, m⟩ v env →
      e = .ignored (v.voter.text ++ " exceeds the unknown vote rate") ∧
      s'.ballots = (s.counted v env.now).ballots ∧
      ∀ tx r' m' env' height, tx.txid = v.txid → s'.checkRequest tx env' = .ok height →
        ∃ l own, (step s' (.request tx r' m' env')).ballots[v.txid]? = some l ∧ l.height = height ∧
          l.votes = s.votesOn v.txid ++ v :: own) := by
  intro s s'
  rcases refused_cases (s := ⟨s, r, m⟩) (run_targeted es) herror hconflict with
    ⟨htaken, hsent, hlocks⟩ | ⟨hfast, hsent, he, hlocks⟩
  · have hrest : s' = { s with ballots := s'.ballots, votes := s'.votes, unknownVotes := s'.unknownVotes } ∧
        s'.ballots = s.ballots := by
      rcases hlocks with hlocks | hlocks
      · rw [show s' = s from hlocks]
        exact ⟨rfl, rfl⟩
      · rw [show s' = s.remember v from hlocks]
        exact ⟨rfl, rfl⟩
    have hslow : ¬ TooFast ⟨s, r, m⟩ v env := fun hfast => htaken hfast.1
    exact ⟨hsent, hrest.1, iff_of_true hrest.2 hslow, fun hfast => absurd hfast hslow⟩
  · have hs' : s' = s.countedUnknown v env.now := hlocks
    have hballots : s'.ballots = (s.counted v env.now).ballots := by
      rw [hs']
      rfl
    have hvotes : s'.votesOn v.txid = s.votesOn v.txid ++ [v] := by
      rw [hs']
      exact (votesOn_counted s v env.now v.txid).trans (if_pos rfl)
    refine ⟨?_, ?_, iff_of_false ?_ (not_not_intro hfast), fun _ => ⟨he, hballots, ?_⟩⟩
    · rw [hsent]
      exact fun _ => List.not_mem_nil
    · rw [hs']
      rfl
    · rw [hballots]
      exact ballots_counted_ne s v env.now
    · intro tx r' m' env' height htxid hcheck
      obtain ⟨l, own, hl, hheight, hlvotes⟩ := votes_of_request hcheck r' m'
      rw [htxid] at hl hlvotes
      rw [hvotes, List.append_assoc] at hlvotes
      exact ⟨l, own, hl, hheight, hlvotes⟩

/-! ## Two nodes that vote rarely -/

open Registry (underOldOperator handoverEnv)

/-- Two nodes that one operator runs. -/
def twoNodes : Registry :=
  let first : NodeEntry := .ofAnnouncement .masternode underOldOperator
  { Registry.empty .masternode with
    entries := ((∅ : Table OutPoint NodeEntry).insert ⟨1, 0⟩ first).insert ⟨2, 0⟩ { first with outpoint := ⟨2, 0⟩ } }

/-- Their chain, so many seconds later. -/
def twoNodesEnv (seconds : Int) : LockEnv where
  chain := handoverEnv.chain.addCoin ⟨2, 0⟩
    { value := ClassParams.masternode.collateral
      script := Script.ofPublicKey underOldOperator.collateralKey
      height := 0 }
  sporks := .empty 0
  now := handoverEnv.now + seconds
  voter := none

/-- What the first node votes for. -/
def earlyVote : LockVote where
  voter := ⟨1, 0⟩
  txid := 1
  height := 3
  signature := Bytes.ofNatBE 64
    (0x8bb943a68436c2a623e4443317c5a2ee944665b78255a17d367466355aa064a4 * 2 ^ 256 +
      0xcb49232bb3afc5a309ee631987b42e502b7e2a9ce22a5dd816fc56d6aca48107)

/-- What the second one votes for. -/
def lateVote : LockVote where
  voter := ⟨2, 0⟩
  txid := spendsCollateral.txid
  height := 3
  signature := Bytes.ofNatBE 64
    (0xc1bfeefe1da66dfe6c3162c5e1f6ee9cc7fa0ca5ddfa6254bc3a20ba146e4daf * 2 ^ 256 +
      0x25e9e2532f7136a4463ad6866790ef7b9e3c4b523b3969d27b4e629148f43e0c)

/-- The first node votes, and nobody else for 1300 seconds. -/
def votedOnce : List Event := [.vote 1 earlyVote twoNodes .empty (twoNodesEnv 0)]

set_option maxRecDepth 20000 in
theorem earlyVote_taken : Taken ⟨empty, twoNodes, .empty⟩ earlyVote (twoNodesEnv 0) := by
  unfold Taken
  decide +kernel

theorem run_votedOnce : run votedOnce = empty.countedUnknown earlyVote (twoNodesEnv 0).now := by
  -- over variables, so that nothing is evaluated
  have hvote : ∀ {r : Registry} {m : Mempool} {v : LockVote} {env : LockEnv}, Taken ⟨empty, r, m⟩ v env →
      empty.isRequested v.txid = false → run [.vote 1 v r m env] = empty.countedUnknown v env.now :=
    fun htaken hnew => (processVote_of_unknown targeted_empty htaken hnew 1).1
  exact hvote earlyVote_taken (by decide +kernel)

set_option maxRecDepth 20000 in
theorem lateVote_tooFast : TooFast ⟨run votedOnce, twoNodes, .empty⟩ lateVote (twoNodesEnv 1300) := by
  rw [run_votedOnce]
  unfold TooFast Taken
  decide +kernel

/-- The first vote of the second node is refused, and counts when its request comes. -/
theorem the_first_vote_of_a_node_comes_too_fast_and_counts :
    let h := processVote ⟨run votedOnce, twoNodes, .empty⟩ 1 lateVote (twoNodesEnv 1300)
    h.verdict = .error (.ignored (lateVote.voter.text ++ " exceeds the unknown vote rate")) ∧
      h.state.locks.ballots ≠ (run votedOnce).ballots ∧
      ∃ l, (step h.state.locks (.request spendsCollateral twoNodes .empty (twoNodesEnv 1300))).ballots[lateVote.txid]? =
        some l ∧ l.height = lateVote.height ∧ lateVote ∈ l.votes := by
  intro h
  -- over variables, so that nothing is evaluated
  have hcounts : ∀ {es : List Event} {r : Registry} {m : Mempool} {v : LockVote} {env : LockEnv} (tx : Transaction),
      TooFast ⟨run es, r, m⟩ v env → tx.txid = v.txid → (run es).checkRequest tx env = .ok v.height →
      let h := processVote ⟨run es, r, m⟩ 1 v env
      h.verdict = .error (.ignored (v.voter.text ++ " exceeds the unknown vote rate")) ∧
        h.state.locks.ballots ≠ (run es).ballots ∧
        ∃ l, (step h.state.locks (.request tx r m env)).ballots[v.txid]? = some l ∧ l.height = v.height ∧
          v ∈ l.votes := by
    intro es r m v env tx hfast htxid hcheck h
    have hrefused := hfast.verdict (run_targeted es) 1
    obtain ⟨-, hrest, hballots, hcounted⟩ :=
      refused_votes_change_no_ballot_unless_they_come_too_fast es r m 1 v env hrefused nofun
    refine ⟨hrefused, fun hsame => hballots.mp hsame hfast, ?_⟩
    have hcheck' : h.state.locks.checkRequest tx env = .ok v.height := by
      rw [show h.state.locks = _ from hrest]
      exact hcheck
    obtain ⟨l, own, hl, hheight, hvotes⟩ := (hcounted hfast).2.2 tx r m env v.height htxid hcheck'
    refine ⟨l, hl, hheight, ?_⟩
    rw [hvotes]
    exact List.mem_append_right _ List.mem_cons_self
  refine hcounts spendsCollateral lateVote_tooFast rfl ?_
  rw [run_votedOnce]
  decide +kernel

end NodeQuorum.Locks
