/-
  NodeQuorum.Proofs.Payment.OneVote — how often a voter is counted for one height.

  Of each voter only the height heard last is remembered, so a second vote for a height is told only while no
  vote for another height was heard in between. `History` keeps what the votes themselves do not: the heights
  heard of each voter and the votes this node cast.
  - `one_vote_for_each_coming`: the stored votes of a voter for a height are no more than the times the voter
    came to the height from another, and the node's own votes; a voter that never returns to a height has one
    vote for it at most.
  - A vote that is heard is counted exactly if it is in order and the voter was last heard for another height,
    whether or not a vote of the voter for the height is stored already. The program may stop at such a vote, and at
    no other.
  - `a_voter_is_counted_twice_for_one_height`: a voter that returns, and a node that votes after it was heard, have two
    votes for one height.
-/

import NodeQuorum.Proofs.Payment.Overrun
import NodeQuorum.Proofs.Quorum.OwnVotes

namespace NodeQuorum.Payments

/-- The stored votes of a voter for a height. -/
def votesBy (p : Payments) (voter : OutPoint) (height : Nat) : List PaymentVote :=
  p.votes.values.filter fun v => v.voter = voter ∧ v.height = height

/-- How often a list of heights, the newest first, comes to a height from another one or from none. -/
def comings (height : Nat) : List Nat → Nat
  | [] => 0
  | g :: earlier => comings height earlier + if g = height ∧ earlier.head? ≠ some height then 1 else 0

example : comings 7 [7, 7, 8, 7] = 2 := by decide

instance (p : Payments) (r : Registry) (peer : Peer) (v : PaymentVote) (env : PaymentEnv) :
    Decidable (p.Heard r peer v env) :=
  inferInstanceAs (Decidable (_ ∧ _))

/-- Votes with what was heard and cast since the last clear. -/
structure History where
  payments : Payments
  /-- The heights of the votes heard of a voter, the newest first. -/
  heard : OutPoint → List Nat
  /-- The number of this node's own votes as a voter for a height. -/
  own : OutPoint → Nat → Nat

namespace History

def empty (params : ClassParams) : History := ⟨.empty params, fun _ => [], fun _ _ => 0⟩

/-- Adds a height to those heard of a voter. -/
def hear (heard : OutPoint → List Nat) (v : PaymentVote) : OutPoint → List Nat :=
  fun w => if w = v.voter then v.height :: heard w else heard w

/-- Counts a vote of this node's own, if one was cast. -/
def note (own : OutPoint → Nat → Nat) (cast : Option PaymentVote) : OutPoint → Nat → Nat :=
  fun w h => own w h + if cast.any fun v => v.voter = w ∧ v.height = h then 1 else 0

def step (net : NetworkParams) (s : History) (e : Event) : History :=
  let p := s.payments.step net e
  match e with
  | .receive r peer v env =>
    ⟨p, if s.payments.Heard r peer v { env with params := net } then hear s.heard v else s.heard, s.own⟩
  | .cast r voter operator height env =>
    ⟨p, s.heard, note s.own (s.payments.castVote r voter operator height { env with params := net }).vote⟩
  | .sweep .. => ⟨p, s.heard, s.own⟩
  | .clear => ⟨p, fun _ => [], fun _ _ => 0⟩

theorem payments_step (net : NetworkParams) (s : History) (e : Event) :
    (s.step net e).payments = s.payments.step net e := by
  cases e <;> rfl

/-- How often a voter came to a height or this node cast its vote for it. -/
def chances (s : History) (voter : OutPoint) (height : Nat) : Nat := comings height (s.heard voter) + s.own voter height

/-- The history of a run. -/
def after (net : NetworkParams) (params : ClassParams) (es : List Event) : History :=
  es.foldl (step net) (empty params)

theorem after_payments (net : NetworkParams) (params : ClassParams) (es : List Event) :
    (after net params es).payments = run net params es := by
  unfold after run
  rw [show Payments.empty params = (empty params).payments from rfl]
  generalize empty params = s
  induction es generalizing s with
  | nil => rfl
  | cons e rest ih =>
    rw [List.foldl_cons, List.foldl_cons, ih, payments_step]

end History

/-! ## Counting the votes of one voter -/

theorem votesBy_noted (p : Payments) (v : PaymentVote) : (p.noted v).votesBy = p.votesBy := rfl

theorem length_votesBy_withVote {p : Payments} {v : PaymentVote} (hnew : p.votes[v.hash]? = none) (weight : Nat)
    (voter : OutPoint) (height : Nat) :
    ((p.withVote v weight).votesBy voter height).length =
      (p.votesBy voter height).length + if v.voter = voter ∧ v.height = height then 1 else 0 := by
  have hperm := (values_withVote hnew weight).filter fun u => decide (u.voter = voter ∧ u.height = height)
  unfold votesBy
  rw [hperm.length_eq, List.filter_cons]
  by_cases hv : v.voter = voter ∧ v.height = height
  · rw [if_pos (decide_eq_true hv), if_pos hv, List.length_cons]
  · rw [if_neg (by simpa using hv), if_neg hv, Nat.add_zero]

theorem length_votesBy_sweep (p : Payments) (tip registrySize : Nat) (voter : OutPoint) (height : Nat) :
    ((p.sweep tip registrySize).1.votesBy voter height).length ≤ (p.votesBy voter height).length := by
  unfold votesBy
  rw [sweep_values]
  exact (List.filter_sublist.filter _).length_le

/-! ## What every history keeps -/

/-- The height remembered of a voter is the last one heard, its votes for a height are no more than its chances,
    and this node's own vote for a height is cast once. -/
structure Bounded (s : History) : Prop where
  last : ∀ w, s.payments.lastVote[w]? = (s.heard w).head?
  bound : ∀ w h, (s.payments.votesBy w h).length ≤ s.chances w h
  own : ∀ w h, s.own w h ≤ if h ≤ s.payments.lastOwnHeight then 1 else 0

theorem bounded_empty (params : ClassParams) : Bounded (.empty params) := by
  refine ⟨?_, ?_, ?_⟩ <;> simp [History.empty, empty, votesBy]

/-- A vote that is heard for another height than the last makes its voter come to the height. -/
theorem comings_hear (heard : OutPoint → List Nat) (v : PaymentVote) (w : OutPoint) (h : Nat) :
    comings h (History.hear heard v w) =
      comings h (heard w) + if v.voter = w ∧ v.height = h ∧ (heard w).head? ≠ some h then 1 else 0 := by
  unfold History.hear
  by_cases hw : w = v.voter
  · subst hw
    simp only [if_true, comings, true_and]
  · simp only [hw, Ne.symm hw, if_false, false_and, Nat.add_zero]

theorem lastVote_noted (p : Payments) (v : PaymentVote) (w : OutPoint) :
    (p.noted v).lastVote[w]? = if v.voter = w then some v.height else p.lastVote[w]? := by
  simp only [noted, Table.lookup_insert]

theorem head_hear (heard : OutPoint → List Nat) (v : PaymentVote) (w : OutPoint) :
    (History.hear heard v w).head? = if v.voter = w then some v.height else (heard w).head? := by
  unfold History.hear
  by_cases hw : w = v.voter
  · simp [hw]
  · simp [hw, Ne.symm hw]

theorem bounded_receive {net : NetworkParams} {s : History} (hs : Bounded s) (r : Registry) (peer : Peer)
    (v : PaymentVote) (env : PaymentEnv) : Bounded (s.step net (.receive r peer v env)) := by
  rcases process_cases s.payments r peer v { env with params := net } with
    ⟨hh, h⟩ | ⟨hh, hl, h⟩ | ⟨hh, hl, ⟨-, h⟩ | ⟨-, h⟩⟩
  · simp only [History.step, step, h, hh, if_false]
    exact hs
  · simp only [History.step, step, h, hh, if_true]
    have hhead : (s.heard v.voter).head? = some v.height := (hs.last v.voter).symm.trans hl
    refine ⟨?_, ?_, hs.own⟩
    · intro w
      rw [head_hear, hs.last w]
      by_cases hw : v.voter = w
      · rw [if_pos hw, ← hw, hhead]
      · rw [if_neg hw]
    · intro w height
      have hb := hs.bound w height
      simp only [History.chances, comings_hear] at hb ⊢
      omega
  · simp only [History.step, step, h, hh, if_true]
    refine ⟨?_, ?_, hs.own⟩
    · intro w
      rw [head_hear, ← hs.last w, ← lastVote_noted]
      rfl
    · intro w height
      have hb := hs.bound w height
      simp only [History.chances, comings_hear] at hb ⊢
      rw [length_votesBy_withVote (checkVote_new hh.1 : (s.payments.noted v).votes[v.hash]? = none), votesBy_noted]
      -- the voter was last heard for another height, so it comes to this one
      by_cases hv : v.voter = w ∧ v.height = height
      · obtain ⟨rfl, rfl⟩ := hv
        have hne : (s.heard v.voter).head? ≠ some v.height := fun he => hl ((hs.last v.voter).trans he)
        simp only [hne, ne_eq, not_false_eq_true, and_self, if_true]
        omega
      · simp only [hv, if_false]
        omega
  · simp only [History.step, step, h, hh, if_true]
    refine ⟨?_, ?_, hs.own⟩
    · intro w
      rw [head_hear, ← hs.last w, ← lastVote_noted]
    · intro w height
      have hb := hs.bound w height
      simp only [History.chances, comings_hear, votesBy_noted] at hb ⊢
      omega

theorem bounded_cast {net : NetworkParams} {s : History} (hs : Bounded s) (r : Registry) (voter : OutPoint)
    (operator : KeyPair) (height : Nat) (env : PaymentEnv) :
    Bounded (s.step net (.cast r voter operator height env)) := by
  rcases castVote_cases s.payments r voter operator height { env with params := net } with
    ⟨hv, h⟩ | ⟨v, hv, rfl, rfl, hlast, hnew, h⟩
  · simp only [History.step, step, h, hv]
    exact hs
  · simp only [History.step, step, h, hv]
    refine ⟨hs.last, ?_, ?_⟩
    · intro w height
      have hb := hs.bound w height
      have hlen := length_votesBy_withVote hnew (net.voteWeight v.voter) w height
      simp only [History.chances, History.note, Option.any_some, decide_eq_true_eq] at hb ⊢
      refine Nat.le_trans (Nat.le_of_eq hlen) ?_
      omega
    · intro w height
      have ho := hs.own w height
      simp only [History.note, Option.any_some, decide_eq_true_eq]
      -- below the new height nothing changes, and at it nothing was cast before
      by_cases hh : v.height = height
      · subst hh
        rw [if_neg (by omega)] at ho
        rw [if_pos (Nat.le_refl _)]
        split <;> omega
      · simp only [hh, and_false, if_false]
        split at ho <;> split <;> omega

theorem bounded_step {net : NetworkParams} {s : History} (hs : Bounded s) (e : Event) : Bounded (s.step net e) := by
  cases e with
  | receive r peer v env => exact bounded_receive hs r peer v env
  | cast r voter operator height env => exact bounded_cast hs r voter operator height env
  | sweep tip registrySize =>
    refine ⟨hs.last, ?_, hs.own⟩
    intro w height
    exact Nat.le_trans (length_votesBy_sweep s.payments tip registrySize w height) (hs.bound w height)
  | clear => refine ⟨?_, ?_, ?_⟩ <;> simp [History.step, step, clear, votesBy]

theorem after_bounded (net : NetworkParams) (params : ClassParams) (es : List Event) :
    Bounded (.after net params es) :=
  List.foldlRecOn es (History.step net) (bounded_empty params) fun _ h e _ => bounded_step h e

/-! ## When a vote is counted -/

/-- A vote heard for the height that its voter was last heard for changes nothing. -/
theorem repeated_vote_changes_nothing {net : NetworkParams} {s : History} (hs : Bounded s) {r : Registry} {peer : Peer}
    {v : PaymentVote} {env : PaymentEnv} (hh : s.payments.Heard r peer v { env with params := net })
    (hlast : (s.heard v.voter).head? = some v.height) :
    s.payments.step net (.receive r peer v env) = s.payments := by
  rcases process_cases s.payments r peer v { env with params := net } with ⟨hn, -⟩ | ⟨-, -, h⟩ | ⟨-, hl, -⟩
  · exact absurd hh hn
  · exact h
  · exact absurd ((hs.last v.voter).trans hlast) hl

/-- A vote heard for another height than the last is stored if it is in order. -/
theorem coming_vote_is_stored {net : NetworkParams} {s : History} (hs : Bounded s) {r : Registry} {peer : Peer}
    {v : PaymentVote} {env : PaymentEnv} (hh : s.payments.Heard r peer v { env with params := net })
    (hlast : (s.heard v.voter).head? ≠ some v.height) (ho : InOrder r peer v { env with params := net }) :
    s.payments.step net (.receive r peer v env) = (s.payments.noted v).withVote v (net.voteWeight v.voter) := by
  rcases process_cases s.payments r peer v { env with params := net } with
    ⟨hn, -⟩ | ⟨-, hl, -⟩ | ⟨-, -, ⟨-, h⟩ | ⟨hn, -⟩⟩
  · exact absurd hh hn
  · exact absurd ((hs.last v.voter).symm.trans hl) hlast
  · exact h
  · exact absurd ho hn

/-- Whether an event is about the vote of a voter for a height. -/
def Event.IsFor (voter : OutPoint) (height : Nat) : Event → Prop
  | .receive _ _ v _ => v.voter = voter ∧ v.height = height
  | .cast _ w _ h _ => w = voter ∧ h = height
  | _ => False

/-- A vote for a height changes the ballots only by taking a chance of its voter's. -/
theorem ballots_step_of_chances {net : NetworkParams} {s : History} (hs : Bounded s) {voter : OutPoint} {height : Nat}
    {e : Event} (he : e.IsFor voter height)
    (hc : (s.step net e).chances voter height ≤ s.chances voter height) :
    (s.payments.step net e).ballots = s.payments.ballots := by
  cases e with
  | receive r peer v env =>
    obtain ⟨rfl, rfl⟩ := he
    rcases process_cases s.payments r peer v { env with params := net } with
      ⟨-, h⟩ | ⟨-, -, h⟩ | ⟨hh, hl, ⟨-, h⟩ | ⟨-, h⟩⟩
    · simp only [step, h]
    · simp only [step, h]
    · have hne : (s.heard v.voter).head? ≠ some v.height := fun he => hl ((hs.last v.voter).trans he)
      simp only [History.chances, History.step, hh, if_true, comings_hear, hne, ne_eq, not_false_eq_true,
        and_self] at hc
      omega
    · simp only [step, h, noted]
  | cast r w operator h env =>
    obtain ⟨rfl, rfl⟩ := he
    rcases castVote_cases s.payments r w operator h { env with params := net } with
      ⟨-, hp⟩ | ⟨v, hv, rfl, rfl, -, -, -⟩
    · simp only [step, hp]
    · simp only [History.chances, History.step, History.note, hv, Option.any_some, and_self, decide_true,
        if_true] at hc
      omega
  | sweep tip registrySize => exact he.elim
  | clear => exact he.elim

/-- Two stored votes of one voter for one height take two chances. -/
theorem eq_of_votesBy {p : Payments} {voter : OutPoint} {height : Nat} (h : (p.votesBy voter height).length ≤ 1)
    {u v : PaymentVote} (hu : u ∈ p.votesBy voter height) (hv : v ∈ p.votesBy voter height) : u = v := by
  match hl : p.votesBy voter height, hu, hv with
  | [w], hu, hv => rw [List.mem_singleton.mp hu, List.mem_singleton.mp hv]
  | _ :: _ :: _, _, _ => simp [hl] at h

/-- After every run a voter has no more votes for a height than it had chances, so one at most if it never returned to the
    height. If the program came through the run, then no further vote of such a voter for the height changes the ballots;
    a vote heard for the height that its voter was last heard for changes nothing; and a vote in order of a voter last
    heard for another height is counted once more, unless the count of its payee runs over and the program ends. -/
theorem one_vote_for_each_coming (net : NetworkParams) (params : ClassParams) (es : List Event) :
    let s := History.after net params es
    s.payments = run net params es ∧
    (∀ w h, (s.payments.votesBy w h).length ≤ s.chances w h ∧ s.own w h ≤ 1) ∧
    (∀ w h, s.chances w h ≤ 1 → ∀ u ∈ s.payments.votesBy w h, ∀ v ∈ s.payments.votesBy w h, u = v) ∧
    ∀ p, run? net params es = some p →
      p = s.payments ∧ (∀ h t, p.votesFor h t < 2 ^ 32) ∧
      (∀ w h e, e.IsFor w h → p.votesBy w h ≠ [] → (s.step net e).chances w h ≤ 1 →
        ∃ q, step? net p e = some q ∧ q.ballots = p.ballots) ∧
      ∀ r peer v env, p.Heard r peer v { env with params := net } →
        ((s.heard v.voter).head? = some v.height → step? net p (.receive r peer v env) = some p) ∧
        ((s.heard v.voter).head? ≠ some v.height → InOrder r peer v { env with params := net } →
          (step? net p (.receive r peer v env) = none ↔
            2 ^ 32 ≤ p.votesFor v.height v.payee + net.voteWeight v.voter) ∧
          ∀ q, step? net p (.receive r peer v env) = some q →
            (q.votesBy v.voter v.height).length = (p.votesBy v.voter v.height).length + 1 ∧
            q.votesFor v.height v.payee = p.votesFor v.height v.payee + net.voteWeight v.voter) := by
  intro s
  have hs : Bounded s := after_bounded net params es
  refine ⟨History.after_payments net params es, ?_, ?_, ?_⟩
  · intro w h
    refine ⟨hs.bound w h, ?_⟩
    have hown := hs.own w h
    split at hown <;> omega
  · intro w h hc u hu v hv
    have hone : (s.payments.votesBy w h).length ≤ 1 := Nat.le_trans (hs.bound w h) hc
    exact eq_of_votesBy hone hu hv
  intro p hp
  obtain ⟨hrun, -⟩ := run?_eq_some_iff.mp hp
  have hfits : p.Fits := fun height t => (run?_counted hp height t).2
  have ht : Tallied net p := hrun ▸ run_tallied net params es
  have hsp : p = s.payments := hrun.trans (History.after_payments net params es).symm
  refine ⟨hsp, hfits, ?_, ?_⟩
  · intro w h e he hne hc
    rw [hsp] at hne
    -- the stored vote took the one chance there is
    have hb := hs.bound w h
    have hpos := List.length_pos_iff.mpr hne
    have hsame : (step net p e).ballots = p.ballots := by
      rw [hsp]
      exact ballots_step_of_chances hs he (by omega)
    exact ⟨_, step?_of_same_ballots ht hfits hsame, hsame⟩
  · intro r peer v env hh
    have hheard : s.payments.Heard r peer v { env with params := net } := hsp ▸ hh
    constructor
    · intro hlast
      have hsame : step net p (.receive r peer v env) = p := by
        rw [hsp]
        exact repeated_vote_changes_nothing hs hheard hlast
      rw [step?_of_same_ballots ht hfits (congrArg ballots hsame), hsame]
    · intro hlast ho
      have hstored : step net p (.receive r peer v env) = (p.noted v).withVote v (net.voteWeight v.voter) := by
        rw [hsp]
        exact coming_vote_is_stored hs hheard hlast ho
      refine ⟨step?_of_stored ht hfits hstored, ?_⟩
      intro q hq
      obtain ⟨rfl, -⟩ := (step?_eq_some_iff ht hfits _).mp hq
      have hnew : (p.noted v).votes[v.hash]? = none := checkVote_new hh.1
      rw [hstored, length_votesBy_withVote hnew, votesBy_noted, votesFor_withVote]
      simp only [and_self, if_true, true_and]
      rfl

/-- A voter has one vote for a height behind some events, and behind one more event a second vote and its weight. -/
def CountsTwice (net : NetworkParams) (es : List Event) (e : Event) (voter : OutPoint) (height : Nat) : Prop :=
  ∃ p q, run? net .masternode es = some p ∧ step? net p e = some q ∧
    ((p.votesBy voter height).length = 1 ∧ (p.ballots[height]?.map fun b => b.payees.map Payee.votes) = some [1]) ∧
    (q.votesBy voter height).length = 2 ∧ (q.ballots[height]?.map fun b => b.payees.map Payee.votes) = some [1, 1]

theorem countsTwice_of_any {net : NetworkParams} {es : List Event} {e : Event} {voter : OutPoint} {height : Nat}
    (h : (run? net .masternode es).any (fun p => (step? net p e).any fun q => decide
      (((p.votesBy voter height).length = 1 ∧ (p.ballots[height]?.map fun b => b.payees.map Payee.votes) = some [1]) ∧
        (q.votesBy voter height).length = 2 ∧
        (q.ballots[height]?.map fun b => b.payees.map Payee.votes) = some [1, 1])) = true) :
    CountsTwice net es e voter height := by
  obtain ⟨p, hp, hstep⟩ := (Option.any_eq_true _ _).mp h
  obtain ⟨q, hq, hvotes⟩ := (Option.any_eq_true _ _).mp hstep
  exact ⟨p, q, hp, hq, of_decide_eq_true hvotes⟩

/-- A vote of the same node for the next height. -/
def voteBetween : PaymentVote where
  voter := ⟨0xa1, 1⟩
  height := 13
  payee := signedVote.payee
  signature := Bytes.ofNatBE 64
    (0xf9bf7bba8e1f6f34013eb188300fb8627563254e20bd9971628dca4c99ccb4af * 2 ^ 256 +
      0xa1be76228e354e188c18959c530203bd2a09bdb8d741c27be1e717e1d4d53b0f)

/-- A vote of the same node for the first height again, for another payee. -/
def returnVote : PaymentVote where
  voter := ⟨0xa1, 1⟩
  height := 12
  payee := Script.payToKeyHash (Bytes.ofNatBE 20 0xb3984335d1797a41f4c6835d187b6d0114974449)
  signature := Bytes.ofNatBE 64
    (0x115f0ba18d8aeed6e476514f7ab351ac3ee88cbb63f389ee82c98dc36d8a8952 * 2 ^ 256 +
      0x5fd6ea3a1f9840d699d1ba639da5ed385a643d135022c3d0b974f593853da804)

/-- The vote of one of the two nodes comes in. -/
def arrival (v : PaymentVote) : Event := .receive twoNodes ⟨1, ⟨.v4 0x7f000001, 9340, 0⟩, 70058⟩ v twoNodesEnv

/-- What the only node of a network votes for. -/
def genuineVote : PaymentVote where
  voter := ⟨1, 0⟩
  height := 21
  payee := [1]
  signature := Bytes.ofNatBE 64
    (0xb217364f907eea1f7cd160c5b16d97cbe477b3a3a784fb631e68ded4e834155e * 2 ^ 256 +
      0x7ff94b7eee8b640ab778f92142a5538cc30ec53c3c1b0f292fae6dbcf723dc0b)

/-- Who sends the votes. -/
def sender : Peer := ⟨1, ⟨.v4 0x7f000001, 9340, 0⟩, 70057⟩

set_option maxRecDepth 20000 in
/-- A voter is counted twice for one height if it votes for another height in between, and if it is this node itself and
    a vote of it was heard before it casts its own. -/
theorem a_voter_is_counted_twice_for_one_height :
    CountsTwice twoNodesEnv.params [arrival signedVote, arrival voteBetween] (arrival returnVote) ⟨0xa1, 1⟩ 12 ∧
      CountsTwice castEnv.params
        [.receive (Registry.run .masternode Registry.announcedOnce) sender genuineVote castEnv]
        (.cast (Registry.run .masternode Registry.announcedOnce) ⟨1, 0⟩ operatorPair 21 castEnv) ⟨1, 0⟩ 21 := by
  refine ⟨countsTwice_of_any (by decide +kernel), countsTwice_of_any ?_⟩
  rw [Registry.run_announcedOnce]
  decide +kernel

end NodeQuorum.Payments
