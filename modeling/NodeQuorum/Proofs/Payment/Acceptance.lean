/-
  NodeQuorum.Proofs.Payment.Acceptance — which payment votes are accepted, and all that acceptance does.

  A received vote goes through one check after the other. On the way nodes may be asked for, the registry is looked
  through and the height of the voter is noted, and only a vote that passed everything is stored.
  - `Eligible`: what the checks come to, said of the state that the vote finds. The last check, whether the block that
    ranks the voters is known, never fails: a height within the window is ranked by a block of the chain
    (`ranked_of_inWindow`).
  - `process_of_eligible`, `process_of_not_eligible`: all that is left, sent and answered.
  - `stopsAt_iff`: the program stops at the eligible votes that make the count of their payee run over, and so does the
    whole node (`receive?_paymentVote_eq_none_iff`).
  - `exactly_the_eligible_votes_are_accepted_unless_a_count_runs_over`: every other vote is accepted exactly if it is
    eligible, and only then it is stored, counted with its weight and announced.
-/

import NodeQuorum.Proofs.Chain
import NodeQuorum.Proofs.Payment.Tally
import NodeQuorum.Proofs.Registry.Run
import NodeQuorum.Quorum.Process

namespace NodeQuorum

/-- A look through the registry keeps the keys that nodes sign with. -/
theorem Registry.operatorKey_checkAll (r : Registry) (c : Chain) (now : Int) (force : Bool) (o : OutPoint) :
    ((r.checkAll c now force).find? o).map NodeEntry.operatorKey = (r.find? o).map NodeEntry.operatorKey := by
  rw [find?_checkAll, Option.map_map]
  refine Option.map_congr ?_
  intro e _
  exact congrArg (fun e => e.operatorKey) (NodeEntry.announced_check e c r.params now force)

namespace Payments

/-! ## What makes a vote eligible -/

/-- Whether a node may vote at a height: it is a reference node, or it runs a protocol that votes and ranks high enough
    once the registry was looked through. -/
def Entitled (r : Registry) (v : PaymentVote) (env : PaymentEnv) : Prop :=
  env.params.isReference v.voter = true ∨
    ∃ e, r.find? v.voter = some e ∧ minVoterProtocol ≤ e.protocol ∧
      ∃ rank, (r.checkAll env.chain env.now false).rankOf? env.chain v.voter (v.height - paymentRankOffset)
        minVoterProtocol = some rank ∧ rank ≤ voters

/-- What a vote has to be, in the state that it finds, to be accepted. -/
structure Eligible (p : Payments) (r : Registry) (peer : Peer) (v : PaymentVote) (env : PaymentEnv) : Prop where
  peer_current : minVoterProtocol ≤ peer.protocol
  unseen : p.votes[v.hash]? = none
  in_window : InWindow r env.chain v.height
  entitled : Entitled r v env
  /-- The voter was not last heard of for the same height. -/
  not_repeated : p.lastVote[v.voter]? ≠ some v.height
  signed : ∃ e, r.find? v.voter = some e ∧
    e.operatorKey.Signed v.signature (PaymentVote.signedText v.voter v.height v.payee)

variable {p : Payments} {r : Registry} {peer : Peer} {v : PaymentVote} {env : PaymentEnv}

theorem checkRank_eq_ok {rank : Option Nat} {synced : Bool} :
    checkRank v rank synced = .ok () ↔ ∃ k, rank = some k ∧ k ≤ voters := by
  cases rank with
  | none => simp [checkRank]
  | some k =>
    simp only [checkRank, Option.some.injEq, exists_eq_left']
    split
    · rename_i hk
      exact iff_of_true rfl hk
    · rename_i hk
      refine iff_of_false ?_ hk
      split <;> exact nofun

/-- A vote is signed as far as the key that its voter is registered with verifies it. -/
theorem isSigned_eq :
    isSigned r v = ((r.find? v.voter).map NodeEntry.operatorKey).any fun key =>
      decide (key.Signed v.signature (PaymentVote.signedText v.voter v.height v.payee)) := by
  unfold isSigned
  cases r.find? v.voter with
  | none => rfl
  | some e => rw [Option.map_some, Option.any_some]

theorem isSigned_iff :
    isSigned r v = true ↔ ∃ e, r.find? v.voter = some e ∧
      e.operatorKey.Signed v.signature (PaymentVote.signedText v.voter v.height v.payee) := by
  unfold isSigned
  cases r.find? v.voter with
  | none => simp
  | some e => simp

/-! ## Looking at the voter -/

/-- Nothing is announced to every peer. -/
def Unannounced (sent : List Outbound) : Prop := ∀ i, Outbound.relay i ∉ sent

theorem unannounced_nil : Unannounced [] := fun _ => List.not_mem_nil

theorem unannounced_askForEntry (r : Registry) (peer : PeerId) (o : OutPoint) (now : Int) :
    Unannounced (r.askForEntry peer o now).2 := by
  unfold Registry.askForEntry
  split
  · exact unannounced_nil
  · intro i hi
    cases List.mem_singleton.mp hi

/-- A voter that may vote passes, and no key is changed by looking at it. -/
theorem checkVoter_of_entitled (h : Entitled r v env) (peer : Peer) :
    ∃ r', checkVoter r peer v env = (r', [], .ok ()) ∧ isSigned r' v = isSigned r v := by
  unfold checkVoter
  by_cases href : env.params.isReference v.voter = true
  · rw [if_pos href]
    exact ⟨r, rfl, rfl⟩
  · obtain ⟨e, he, hprotocol, hrank⟩ := h.resolve_left href
    rw [if_neg href, he]
    dsimp only
    rw [if_neg (Nat.not_lt.mpr hprotocol), checkRank_eq_ok.mpr hrank]
    refine ⟨_, rfl, ?_⟩
    rw [isSigned_eq, isSigned_eq, Registry.operatorKey_checkAll]

/-- Any other voter is refused, and at most asked for. -/
theorem checkVoter_of_not_entitled (h : ¬ Entitled r v env) (peer : Peer) :
    ∃ r' sent e, checkVoter r peer v env = (r', sent, .error e) ∧ Unannounced sent := by
  unfold Entitled at h
  rw [not_or] at h
  obtain ⟨href, hrank⟩ := h
  unfold checkVoter
  rw [if_neg href]
  cases he : r.find? v.voter with
  | none => exact ⟨_, _, _, rfl, unannounced_askForEntry r peer.id v.voter env.now⟩
  | some e =>
    dsimp only
    by_cases hold : e.protocol < minVoterProtocol
    · rw [if_pos hold]
      exact ⟨_, _, _, rfl, unannounced_nil⟩
    · rw [if_neg hold]
      cases hchecked : checkRank v ((r.checkAll env.chain env.now false).rankOf? env.chain v.voter
          (v.height - paymentRankOffset) minVoterProtocol) env.synced with
      | error e' => exact ⟨_, _, _, rfl, unannounced_nil⟩
      | ok _ => exact absurd ⟨e, he, Nat.not_lt.mp hold, checkRank_eq_ok.mp hchecked⟩ hrank

/-- The block that ranks the voters of a height within the window is below the tip. -/
theorem ranked_of_inWindow (h : InWindow r env.chain v.height) : Ranked env.chain v := by
  obtain ⟨tip, htip, -, hhigh⟩ := h
  have hbelow : v.height - paymentRankOffset ≤ tip := by
    unfold lookahead at hhigh
    unfold paymentRankOffset
    omega
  obtain ⟨hash, -, hseen⟩ := Ranking.seenHash_of_le htip (Nat.le_succ_of_le hbelow)
  exact ⟨hash, hseen⟩

/-! ## Taking a vote -/

/-- An eligible vote is stored and announced, and the answer says whether it decides on its payee. -/
theorem process_of_eligible (h : p.Eligible r peer v env) :
    ∃ r', p.process r peer v env =
      ⟨⟨(p.noted v).withVote v (env.params.voteWeight v.voter), r'⟩, [.relay ⟨.paymentVote p.nodeClass, v.hash⟩],
        .ok (if p.votesFor v.height v.payee < paymentVotesRequired ∧
            paymentVotesRequired ≤ (p.withVote v (env.params.voteWeight v.voter)).votesFor v.height v.payee
          then .quorumReached else .added)⟩ := by
  obtain ⟨r', hvoter, hkeys⟩ := checkVoter_of_entitled h.entitled peer
  have hsigned : isSigned r' v = true := hkeys.trans (isSigned_iff.mpr h.signed)
  have hfirst : p.canVote v.voter v.height = (p.noted v, true) := if_neg h.not_repeated
  have hadd : (p.noted v).addVote env.chain v (env.params.voteWeight v.voter) =
      some ((p.noted v).withVote v (env.params.voteWeight v.voter)) :=
    addVote_eq_some.mpr ⟨ranked_of_inWindow h.in_window, h.unseen, rfl⟩
  refine ⟨r', ?_⟩
  unfold process
  rw [checkVote_eq_ok.mpr ⟨h.peer_current, h.unseen, h.in_window⟩, hvoter]
  dsimp only
  rw [hfirst]
  dsimp only
  rw [if_pos hsigned]
  unfold count
  rw [hadd]
  rfl

/-- Any other vote is refused and not announced, and at most its height is noted. -/
theorem process_of_not_eligible (h : ¬ p.Eligible r peer v env) :
    ∃ q r' sent e, p.process r peer v env = ⟨⟨q, r'⟩, sent, .error e⟩ ∧ (q = p ∨ q = p.noted v) ∧ Unannounced sent := by
  unfold process
  cases hvote : p.checkVote r peer v env with
  | error e => exact ⟨p, r, [], e, rfl, Or.inl rfl, unannounced_nil⟩
  | ok _ =>
    obtain ⟨hpeer, hunseen, hwindow⟩ := checkVote_eq_ok.mp hvote
    dsimp only
    by_cases hentitled : Entitled r v env
    · obtain ⟨r', hvoter, hkeys⟩ := checkVoter_of_entitled hentitled peer
      rw [hvoter]
      dsimp only
      by_cases hrepeated : p.lastVote[v.voter]? = some v.height
      · have hrefused : p.canVote v.voter v.height = (p, false) := if_pos hrepeated
        rw [hrefused]
        exact ⟨p, r', [], _, rfl, Or.inl rfl, unannounced_nil⟩
      · have hnoted : p.canVote v.voter v.height = (p.noted v, true) := if_neg hrepeated
        rw [hnoted]
        dsimp only
        -- all that is left to miss is the signature
        have hsigned : ¬ isSigned r' v = true := fun hs =>
          h ⟨hpeer, hunseen, hwindow, hentitled, hrepeated, isSigned_iff.mp (hkeys.symm.trans hs)⟩
        rw [if_neg hsigned]
        exact ⟨p.noted v, _, _, _, rfl, Or.inr rfl, unannounced_askForEntry r' peer.id v.voter env.now⟩
    · obtain ⟨r', sent, e, hvoter, hsent⟩ := checkVoter_of_not_entitled hentitled peer
      rw [hvoter]
      exact ⟨p, r', sent, e, rfl, Or.inl rfl, hsent⟩

/-- A vote is accepted exactly if it is eligible. -/
theorem isOk_process : (p.process r peer v env).verdict.isOk = true ↔ p.Eligible r peer v env := by
  by_cases h : p.Eligible r peer v env
  · obtain ⟨r', hprocess⟩ := process_of_eligible h
    rw [hprocess]
    exact iff_of_true rfl h
  · obtain ⟨q, r', sent, e, hprocess, -⟩ := process_of_not_eligible h
    rw [hprocess]
    exact iff_of_false nofun h

/-! ## Where the program stops -/

theorem overruns_iff {weight : Nat} : p.overruns v weight = true ↔ 2 ^ 32 ≤ p.votesFor v.height v.payee + weight := by
  have hballot : (p.ballots.getD v.height (.empty v.height)).votesFor v.payee = p.votesFor v.height v.payee := by
    unfold votesFor
    rw [Std.ExtTreeMap.getD_eq_getD_getElem?]
    cases p.ballots[v.height]? with
    | none => rfl
    | some b => rfl
  unfold overruns Ballot.overruns
  rw [decide_eq_true_iff, hballot]

theorem stopsAt_iff :
    p.stopsAt r peer v env = true ↔
      p.Eligible r peer v env ∧ 2 ^ 32 ≤ p.votesFor v.height v.payee + env.params.voteWeight v.voter := by
  unfold stopsAt
  rw [Bool.and_eq_true, overruns_iff, isOk_process, and_comm]

/-- The program stops at the eligible votes that make a count run over. -/
theorem process?_eq_none_iff :
    p.process? r peer v env = none ↔
      p.Eligible r peer v env ∧ 2 ^ 32 ≤ p.votesFor v.height v.payee + env.params.voteWeight v.voter := by
  rw [← stopsAt_iff]
  unfold process?
  cases p.stopsAt r peer v env with
  | true => simp
  | false => simp

theorem process?_eq_some {handled : Handled PaymentState} (h : p.process? r peer v env = some handled) :
    handled = p.process r peer v env := by
  unfold process? at h
  split at h
  · cases h
  · exact (Option.some_inj.mp h).symm

/-- A whole node stops at a payment vote exactly where its votes do. -/
theorem receive?_paymentVote_eq_none_iff {q : Quorum} {c : NodeClass} {now : Int} :
    q.receive? peer (.paymentVote c v) now = none ↔
      (q.payments.get c).process? (q.registries.get c) peer v (q.paymentEnv c now) = none := by
  have hstops : q.overruns peer (.paymentVote c v) now =
      (q.payments.get c).stopsAt (q.registries.get c) peer v (q.paymentEnv c now) := rfl
  unfold Quorum.receive? process?
  rw [hstops]
  cases (q.payments.get c).stopsAt (q.registries.get c) peer v (q.paymentEnv c now) with
  | true => simp
  | false => simp

/-- The program stops at a vote exactly if the vote is eligible and its weight makes the count of its payee reach 2 ^ 32;
    and so does the whole node. Every other vote is accepted exactly if it is eligible. Then it is stored, its weight is
    added to its payee at its height and nowhere else, where 32 bits hold the count, it alone is announced, and the
    answer is that a quorum is reached exactly if the payee gets its sixth vote by it. A vote that is refused leaves
    votes and ballots as they are and is not announced. -/
theorem exactly_the_eligible_votes_are_accepted_unless_a_count_runs_over (p : Payments) (r : Registry) (peer : Peer)
    (v : PaymentVote) (env : PaymentEnv) :
    (p.process? r peer v env = none ↔
      p.Eligible r peer v env ∧ 2 ^ 32 ≤ p.votesFor v.height v.payee + env.params.voteWeight v.voter) ∧
    (∀ handled, p.process? r peer v env = some handled →
      let q := handled.state.payments
      ((∃ a, handled.verdict = .ok a) ↔ p.Eligible r peer v env) ∧
      (∀ a, handled.verdict = .ok a →
        q.votes = p.votes.insert v.hash v ∧
        (∀ height, height ≠ v.height → q.ballots[height]? = p.ballots[height]?) ∧
        (∀ height s, q.votesFor height s = p.votesFor height s +
          if v.height = height ∧ v.payee = s then env.params.voteWeight v.voter else 0) ∧
        q.votesFor v.height v.payee < 2 ^ 32 ∧
        handled.sent = [.relay ⟨.paymentVote p.nodeClass, v.hash⟩] ∧
        a = if p.votesFor v.height v.payee < paymentVotesRequired ∧
            paymentVotesRequired ≤ q.votesFor v.height v.payee then .quorumReached else .added) ∧
      ∀ e, handled.verdict = .error e → q.votes = p.votes ∧ q.ballots = p.ballots ∧ Unannounced handled.sent) ∧
    ∀ (q : Quorum) (c : NodeClass) (now : Int),
      q.receive? peer (.paymentVote c v) now = none ↔
        (q.payments.get c).Eligible (q.registries.get c) peer v (q.paymentEnv c now) ∧
          2 ^ 32 ≤ (q.payments.get c).votesFor v.height v.payee + q.params.voteWeight v.voter := by
  refine ⟨process?_eq_none_iff, ?_, fun q c now => receive?_paymentVote_eq_none_iff.trans process?_eq_none_iff⟩
  intro handled hhandled
  have hpasses : ¬ (p.Eligible r peer v env ∧
      2 ^ 32 ≤ p.votesFor v.height v.payee + env.params.voteWeight v.voter) := by
    rw [← process?_eq_none_iff, hhandled]
    exact nofun
  obtain rfl := process?_eq_some hhandled
  by_cases h : p.Eligible r peer v env
  · obtain ⟨r', hprocess⟩ := process_of_eligible h
    dsimp only
    rw [hprocess]
    refine ⟨iff_of_true ⟨_, rfl⟩ h, ?_, nofun⟩
    intro a ha
    cases ha
    have hcounts := votesFor_withVote p v (env.params.voteWeight v.voter)
    refine ⟨rfl, ?_, hcounts, ?_, rfl, rfl⟩
    · intro height hne
      exact (Table.lookup_insert _ _ _ _).trans (if_neg hne.symm)
    · refine Nat.lt_of_not_le fun hover => hpasses ⟨h, ?_⟩
      have hcount := hcounts v.height v.payee
      rw [if_pos ⟨rfl, rfl⟩] at hcount
      exact hcount ▸ hover
  · obtain ⟨q, r', sent, e, hprocess, hq, hsent⟩ := process_of_not_eligible h
    dsimp only
    rw [hprocess]
    refine ⟨iff_of_false (fun ⟨_, ha⟩ => nomatch ha) h, nofun, ?_⟩
    intro _ _
    rcases hq with rfl | rfl
    · exact ⟨rfl, rfl, hsent⟩
    · exact ⟨rfl, rfl, hsent⟩

/-! ## Two nodes of one operator -/

/-- The key of an operator that runs two nodes. -/
def sharedKey : PublicKey := 0xd75a980182b10ab7d54bfed3c964073a0ee172f3daa62325af021a68f707511a

/-- A vote of the node of output 1, for height 12. -/
def signedVote : PaymentVote where
  voter := ⟨0xa1, 1⟩
  height := 12
  payee := Script.payToKeyHash (Bytes.ofNatBE 20 0x566f58a213eb01d0efec065456b8539145388f15)
  signature := Bytes.ofNatBE 64
    (0x70040d03fed3aa0273207ee4d2c67efe300f447c0a73aab960222f1f87e4fcb8 * 2 ^ 256 +
      0xd8880bea7bded9eaa6b30ca6b056522c0cb8d36ef211b230c30914e799e76e0c)

/-- The entry of the node of an output. -/
def entryOf (index : UInt32) : NodeEntry :=
  .ofAnnouncement .masternode
    { outpoint := ⟨0xa1, index⟩
      address := ⟨.v4 0x7f000001, 9340, 0⟩
      collateralKey := sharedKey
      operatorKey := sharedKey
      signature := []
      sigTime := 0
      protocol := 70058
      lastPing := ⟨⟨0xa1, index⟩, 0, 0, []⟩ }

def twoNodes : Registry :=
  { Registry.empty .masternode with
    entries := ((∅ : Table OutPoint NodeEntry).insert ⟨0xa1, 1⟩ (entryOf 1)).insert ⟨0xa1, 11⟩ (entryOf 11) }

/-- Both are reference nodes, so that no ranks are needed. -/
def twoNodesEnv : PaymentEnv :=
  let references := ((∅ : Table OutPoint Nat).insert ⟨0xa1, 1⟩ 1).insert ⟨0xa1, 11⟩ 1
  ⟨.generate 4 0 60, .empty, { NetworkParams.of .regtest with referenceWeights := references }, .empty 0, 0, true⟩

/-- The other node's vote for the same payee. -/
def otherNodesVote : PaymentVote where
  voter := ⟨0xa1, 11⟩
  height := 12
  payee := signedVote.payee
  signature := Bytes.ofNatBE 64
    (0xc330049699ebb35b5d3ab1d94a799e28c53c117167def38fbb04521fbda0f57f * 2 ^ 256 +
      0xbdf9c75b4edbc5c6f021d5bf7e090b1ba7c4e36b12f19a8137f8dff2113d170e)

/-- The other node's vote weighs as much as 32 bits hold. -/
def heavyEnv : PaymentEnv :=
  let references := twoNodesEnv.params.referenceWeights.insert ⟨0xa1, 11⟩ (2 ^ 32 - 1)
  { twoNodesEnv with params := { twoNodesEnv.params with referenceWeights := references } }

/-- A vote of weight one is accepted, and the program stops at the vote behind it. -/
theorem a_heavy_vote_behind_a_light_one_stops_the_program :
    let peer : Peer := ⟨1, ⟨.v4 0x7f000001, 9340, 0⟩, 70058⟩
    let first := (empty .masternode).process twoNodes peer signedVote heavyEnv
    (empty .masternode).process? twoNodes peer signedVote heavyEnv = some first ∧ first.verdict.isOk = true ∧
      first.state.payments.process? first.state.registry peer otherNodesVote heavyEnv = none := by
  intro peer first
  have hlight : (empty .masternode).stopsAt twoNodes peer signedVote heavyEnv = false := by decide +kernel
  obtain ⟨hfirst, hsecond, hcount⟩ : first.verdict.isOk = true ∧
      (first.state.payments.process first.state.registry peer otherNodesVote heavyEnv).verdict.isOk = true ∧
      2 ^ 32 ≤ first.state.payments.votesFor otherNodesVote.height otherNodesVote.payee +
        heavyEnv.params.voteWeight otherNodesVote.voter := by decide +kernel
  refine ⟨?_, hfirst, ?_⟩
  · unfold process?
    rw [hlight, if_neg Bool.false_ne_true]
  · exact (exactly_the_eligible_votes_are_accepted_unless_a_count_runs_over first.state.payments first.state.registry
      peer otherNodesVote heavyEnv).1.mpr ⟨isOk_process.mp hsecond, hcount⟩

end Payments
end NodeQuorum
