/-
  NodeQuorum.Proofs.Payment.Pruning — nobody who reads the payment votes tells that old ones were swept away.

  A sweep drops what is older than a cycle of the registered nodes and than a thousand blocks. Everybody else looks back
  a cycle of the enabled nodes at most, and there are no more of these than registered ones:
  - `Recent`, `not_old_of_recent`: the heights of such a cycle and all that come are not swept. The search for the last
    payment, the look ahead, the list for a peer and the window for new votes all stay within them.
  - `agreeOn_sweep`: the ballots of all heights that are not old are the same. Every reader has a lemma that names the
    heights whose ballots it looks at.
  - `Reachable`: the states that there are. In each of them the ballots belong to the stored votes and the votes stand
    under their hashes (`reachable_voted`, `reachable_keyed`), so a sweep by the votes drops whole ballots of old heights
    and no other ones.
  `a_sweep_takes_only_what_nobody_reads` puts them together.
-/

import NodeQuorum.Proofs.Payment.Acceptance
import NodeQuorum.Proofs.Payment.Age

namespace NodeQuorum.Payments

variable {p q : Payments} {params : ClassParams} {tip registrySize enabled height : Nat}

/-! ## The states that there are -/

/-- The states that the votes of a class come to, by whatever they go through: events, the note of a height for a voter,
    and votes that are counted without a look at who casts them. -/
inductive Reachable (params : ClassParams) : Payments → Prop
  | empty : Reachable params (empty params)
  | step {p : Payments} (net : NetworkParams) (e : Event) : Reachable params p → Reachable params (step net p e)
  | note {p : Payments} (voter : OutPoint) (height : Nat) :
      Reachable params p → Reachable params (p.canVote voter height).1
  | add {p q : Payments} (c : Chain) (v : PaymentVote) (weight : Nat) :
      Reachable params p → p.addVote c v weight = some q → Reachable params q

theorem canVote_stored (p : Payments) (voter : OutPoint) (height : Nat) :
    (p.canVote voter height).1.votes = p.votes ∧ (p.canVote voter height).1.ballots = p.ballots := by
  unfold canVote
  split
  · exact ⟨rfl, rfl⟩
  · exact ⟨rfl, rfl⟩

theorem reachable_voted (h : Reachable params p) : Voted p := by
  induction h with
  | empty => exact voted_empty params
  | step net e _ ih => exact voted_step ih net e
  | note voter height _ ih =>
    obtain ⟨hvotes, hballots⟩ := canVote_stored _ voter height
    exact ih.congr hvotes hballots
  | add c v weight _ hadd ih =>
    obtain ⟨-, hnew, rfl⟩ := addVote_eq_some.mp hadd
    exact voted_withVote ih hnew weight

theorem reachable_keyed (h : Reachable params p) : p.votes.Keyed PaymentVote.hash := by
  induction h with
  | empty => exact .empty _
  | step net e _ ih => exact keyed_step ih net e
  | note voter height _ ih => rwa [(canVote_stored _ voter height).1]
  | add c v weight _ hadd ih =>
    obtain ⟨-, -, rfl⟩ := addVote_eq_some.mp hadd
    exact ih.insert v

/-! ## The heights that are looked at -/

theorem cycle_mono (hle : enabled ≤ registrySize) : cycle enabled ≤ cycle registrySize := by
  unfold cycle
  omega

/-- The heights of the last cycle of so many nodes, and all that come. -/
def Recent (tip enabled height : Nat) : Prop := tip - cycle enabled ≤ height

theorem not_old_of_recent (hle : enabled ≤ registrySize) (h : Recent tip enabled height) :
    ¬ Old tip registrySize height := by
  have hcycle := cycle_mono hle
  unfold Recent at h
  unfold Old
  omega

theorem recent_of_le (h : tip ≤ height) : Recent tip enabled height := by
  unfold Recent
  omega

theorem recent_of_searched (h : Searched (cycle enabled) tip height) : Recent tip enabled height := by
  unfold Searched at h
  unfold Recent
  omega

theorem recent_of_accepted {r : Registry} {peer : Peer} {v : PaymentVote} {env : PaymentEnv}
    (htip : env.chain.tip? = some tip) (h : ∃ a, (p.process r peer v env).verdict = .ok a) :
    Recent tip (r.countEnabled 0) v.height := by
  by_cases he : p.Eligible r peer v env
  · obtain ⟨tip', htip', hlow, -⟩ := he.in_window
    rw [htip] at htip'
    cases htip'
    exact hlow
  · obtain ⟨a, ha⟩ := h
    obtain ⟨q, r', sent, e, hrefused, -⟩ := process_of_not_eligible he
    rw [hrefused] at ha
    cases ha

/-! ## What is read from the ballots of some heights -/

theorem AgreeOn.mono {few many : Nat → Prop} (h : AgreeOn many p q) (hsub : ∀ x, few x → many x) : AgreeOn few p q :=
  fun x hx => h x (hsub x hx)

theorem payee?_congr (h : AgreeOn (· = height) p q) : q.payee? height = p.payee? height := by
  unfold payee?
  rw [h height rfl]

theorem isTransactionValid_congr (hparams : q.params = p.params) (h : AgreeOn (· = height) p q) (tx : Transaction)
    (value : UInt64) (posStartHeight : Nat) :
    q.isTransactionValid tx height value posStartHeight = p.isTransactionValid tx height value posStartHeight := by
  unfold isTransactionValid
  rw [h height rfl, hparams]

/-- Who is scheduled is read from the tip on. -/
theorem isScheduled_congr (h : AgreeOn (tip ≤ ·) p q) (script : Script) (notHeight : Nat) :
    q.isScheduled script tip notHeight = p.isScheduled script tip notHeight := by
  have hpayee : ∀ i, q.payee? (tip + i) = p.payee? (tip + i) := by
    intro i
    apply payee?_congr
    intro x hx
    cases hx
    exact h (tip + i) (Nat.le_add_right tip i)
  unfold isScheduled
  simp only [hpayee]

/-- The last payment is read from the heights searched from the tip down. -/
theorem lastPaid_congr {c : Chain} (htip : c.tip? = some tip) (h : AgreeOn (Searched (cycle enabled) tip) p q)
    (e : NodeEntry) : q.lastPaid c e enabled = p.lastPaid c e enabled := by
  unfold lastPaid
  rw [htip]
  dsimp only
  rw [paidHeight?_congr h]

/-! ## What a sweep leaves -/

/-- A sweep by the votes leaves the ballots of all heights that are not old. -/
theorem agreeOn_sweep (h : Voted p) (tip registrySize : Nat) :
    AgreeOn (fun x => ¬ Old tip registrySize x) p (p.sweep tip registrySize).1 := by
  intro x hx
  rw [sweep_ballot h]
  exact if_neg hx

theorem sweep_lookup (p : Payments) (tip registrySize : Nat) (hash : Hash) :
    (p.sweep tip registrySize).1.votes[hash]? =
      p.votes[hash]?.filter fun v => ¬ Old tip registrySize v.height := Std.ExtTreeMap.getElem?_filter'

/-- Nothing is swept away that is sent to a peer. -/
theorem sync_sweep (hle : enabled ≤ registrySize) (p : Payments) (peer : PeerId) (needed tip : Nat) :
    (p.sweep tip registrySize).1.sync peer needed tip enabled = p.sync peer needed tip enabled := by
  have hsent : (p.sweep tip registrySize).1.votes.values.filter
        (fun v => tip - min needed (cycle enabled) ≤ v.height ∧ v.height ≤ tip + lookahead) =
      p.votes.values.filter
        fun v => tip - min needed (cycle enabled) ≤ v.height ∧ v.height ≤ tip + lookahead := by
    rw [sweep_values, List.filter_filter]
    apply List.filter_congr
    intro v _
    rw [Bool.and_eq_left_iff_imp, decide_eq_true_eq, decide_eq_true_eq]
    intro hwindow
    apply not_old_of_recent hle
    unfold Recent
    omega
  unfold sync
  dsimp only
  rw [hsent]
  rfl

/-- No reader tells two states of the votes apart: not the search for the last payment at a tip, the list for a peer, the
    look ahead, nor who asks for the payee of a height that is not too old or checks a coinbase against its ballot. -/
structure ReadAlike (p q : Payments) (tip limit enabled : Nat) : Prop where
  lastPaid : ∀ c e, c.tip? = some tip → q.lastPaid c e enabled = p.lastPaid c e enabled
  sync : ∀ peer needed, q.sync peer needed tip enabled = p.sync peer needed tip enabled
  isScheduled : ∀ script notHeight, q.isScheduled script tip notHeight = p.isScheduled script tip notHeight
  payee : ∀ height, tip - height ≤ limit → q.payee? height = p.payee? height
  isTransactionValid : ∀ height, tip - height ≤ limit → ∀ tx value posStartHeight,
    q.isTransactionValid tx height value posStartHeight = p.isTransactionValid tx height value posStartHeight

theorem readAlike_sweep (h : Voted p) (hle : enabled ≤ registrySize) (tip : Nat) :
    ReadAlike p (p.sweep tip registrySize).1 tip (max (cycle registrySize) minRetention) enabled := by
  have hkept := agreeOn_sweep h tip registrySize
  have hrecent : AgreeOn (Recent tip enabled) p (p.sweep tip registrySize).1 :=
    hkept.mono fun _ => not_old_of_recent hle
  have hone : ∀ height, tip - height ≤ max (cycle registrySize) minRetention →
      AgreeOn (· = height) p (p.sweep tip registrySize).1 := by
    intro height hheight
    apply hkept.mono
    intro x hx
    subst hx
    exact Nat.not_lt.mpr hheight
  refine ⟨?_, ?_, ?_, ?_, ?_⟩
  · intro c e htip
    exact lastPaid_congr htip (hrecent.mono fun _ => recent_of_searched) e
  · intro peer needed
    exact sync_sweep hle p peer needed tip
  · intro script notHeight
    exact isScheduled_congr (hrecent.mono fun _ => recent_of_le) script notHeight
  · intro height hheight
    exact payee?_congr (hone height hheight)
  · intro height hheight tx value posStartHeight
    have hparams : (p.sweep tip registrySize).1.params = p.params := rfl
    exact isTransactionValid_congr hparams (hone height hheight) tx value posStartHeight

/-! ## What a sweep takes -/

/-- A hash is named by a sweep exactly if a vote was stored under it and none is any more. -/
theorem mem_swept_iff {hash : Hash} :
    hash ∈ (p.sweep tip registrySize).2 ↔
      ∃ v, p.votes[hash]? = some v ∧ (p.sweep tip registrySize).1.votes[hash]? = none := by
  have hswept : (p.sweep tip registrySize).2 =
      (p.votes.filter fun _ v => decide (Old tip registrySize v.height)).keys := rfl
  rw [hswept, Std.ExtTreeMap.mem_keys, Std.ExtTreeMap.mem_iff_isSome_getElem?, Std.ExtTreeMap.getElem?_filter',
    sweep_lookup]
  cases p.votes[hash]? with
  | none => simp
  | some v => by_cases hold : Old tip registrySize v.height <;> simp [hold]

theorem nodup_swept (p : Payments) (tip registrySize : Nat) : (p.sweep tip registrySize).2.Nodup :=
  Std.ExtTreeMap.nodup_keys

/-- From one state of the votes to the other exactly the votes and ballots that are too old are gone, and the hashes of
    these votes are named once each. -/
structure OldDropped (p q : Payments) (named : List Hash) (tip limit : Nat) : Prop where
  votes : ∀ (hash : Hash) (v : PaymentVote), q.votes[hash]? = some v ↔ p.votes[hash]? = some v ∧ tip - v.height ≤ limit
  ballots : ∀ (height : Nat) (ballot : Ballot),
    q.ballots[height]? = some ballot ↔ p.ballots[height]? = some ballot ∧ tip - height ≤ limit
  named_iff : ∀ hash : Hash, hash ∈ named ↔
    ∃ v : PaymentVote, p.votes[hash]? = some v ∧ v.hash = hash ∧ q.votes[hash]? = none
  named_once : named.Nodup

theorem oldDropped_sweep (hvoted : Voted p) (hkeyed : p.votes.Keyed PaymentVote.hash) (tip registrySize : Nat) :
    OldDropped p (p.sweep tip registrySize).1 (p.sweep tip registrySize).2 tip
      (max (cycle registrySize) minRetention) := by
  refine ⟨?_, ?_, ?_, nodup_swept p tip registrySize⟩
  · intro hash v
    rw [sweep_lookup, Option.filter_eq_some_iff, decide_eq_true_eq]
    exact and_congr_right fun _ => Nat.not_lt
  · intro height ballot
    rw [sweep_ballot hvoted]
    by_cases hold : Old tip registrySize height
    · rw [if_pos hold]
      exact iff_of_false nofun fun hkept => Nat.not_lt.mpr hkept.2 hold
    · rw [if_neg hold]
      exact (and_iff_left (Nat.not_lt.mp hold)).symm
  · intro hash
    rw [mem_swept_iff]
    constructor
    · rintro ⟨v, hv, hgone⟩
      exact ⟨v, hv, hkeyed hash v hv, hgone⟩
    · rintro ⟨v, hv, -, hgone⟩
      exact ⟨v, hv, hgone⟩

/-! ## Every sweep -/

/-- At a tip, votes that are swept for at least as many registered nodes as are enabled are read as before: no reader
    tells what is left from what there was, and every vote that would be accepted, whatever else is stored, is for a
    height that is kept. What is gone is exactly what is older than that, and the votes among it are named. -/
theorem a_sweep_takes_only_what_nobody_reads (h : Reachable params p) (hle : enabled ≤ registrySize) (tip : Nat) :
    let swept := p.sweep tip registrySize
    let limit := max (cycle registrySize) minRetention
    ReadAlike p swept.1 tip limit enabled ∧
    (∀ (p' : Payments) (r : Registry) (peer : Peer) (v : PaymentVote) (env : PaymentEnv),
      env.chain.tip? = some tip → r.countEnabled 0 = enabled → (∃ a, (p'.process r peer v env).verdict = .ok a) →
      tip - v.height ≤ limit) ∧
    OldDropped p swept.1 swept.2 tip limit := by
  have hvoted := reachable_voted h
  refine ⟨readAlike_sweep hvoted hle tip, ?_, oldDropped_sweep hvoted (reachable_keyed h) tip registrySize⟩
  intro p' r peer v env htip henabled haccepted
  have hrecent := recent_of_accepted htip haccepted
  rw [henabled] at hrecent
  exact Nat.not_lt.mp (not_old_of_recent hle hrecent)

/-! ## At the edge of what is kept -/

/-- A vote for a height a cycle of a thousand nodes below the tip 2000. -/
def lastKept : PaymentVote := ⟨⟨1, 0⟩, 750, [1], []⟩

/-- A vote for the height below that. -/
def firstDropped : PaymentVote := ⟨⟨1, 0⟩, 749, [2], []⟩

def keptAndDropped : Payments := ((empty (.of .masternode)).withVote lastKept 1).withVote firstDropped 1

theorem reachable_keptAndDropped : Reachable (.of .masternode) keptAndDropped := by
  have htip : (Chain.generate 2000 0 60).tip? = some 2000 := by simp [Chain.generate, Chain.tip?]
  have hranked : ∀ v ∈ [lastKept, firstDropped], Ranked (.generate 2000 0 60) v := by
    intro v hv
    have hbelow : v.height ≤ 750 := by
      revert v
      decide
    have hrank : v.height - paymentRankOffset ≤ 2000 + 1 := by omega
    obtain ⟨hash, -, hseen⟩ := Ranking.seenHash_of_le htip hrank
    exact ⟨hash, hseen⟩
  have hfirst : (empty (.of .masternode)).addVote (.generate 2000 0 60) lastKept 1 =
      some ((empty (.of .masternode)).withVote lastKept 1) :=
    addVote_eq_some.mpr ⟨hranked _ (by simp), by simp [empty], rfl⟩
  have hsecond : ((empty (.of .masternode)).withVote lastKept 1).addVote (.generate 2000 0 60) firstDropped 1 =
      some keptAndDropped :=
    addVote_eq_some.mpr ⟨hranked _ (by simp), by decide +kernel, rfl⟩
  exact (Reachable.empty.add _ _ _ hfirst).add _ _ _ hsecond

/-- With a thousand nodes, all of them enabled, a vote 1250 blocks below the tip is the last one that is kept, and the
    last one that is sent. -/
theorem a_vote_of_the_last_cycle_is_kept_and_sent :
    let swept := keptAndDropped.sweep 2000 1000
    Reachable (.of .masternode) keptAndDropped ∧ 1000 ≤ 1000 ∧
      swept.1.sync 7 5000 2000 1000 =
        [.push 7 (.paymentVote .masternode lastKept), .push 7 (.syncCount .masternode .winners 1)] ∧
      swept.1.payee? 750 = some [1] ∧ swept.1.ballots[749]? = none ∧ firstDropped.hash ∈ swept.2 := by
  intro swept
  obtain ⟨hread, -, hdropped⟩ :=
    a_sweep_takes_only_what_nobody_reads reachable_keptAndDropped (Nat.le_refl 1000) 2000
  refine ⟨reachable_keptAndDropped, Nat.le_refl 1000, ?_, ?_, ?_, ?_⟩
  · exact (hread.sync 7 5000).trans (by decide +kernel)
  · exact (hread.payee 750 (by decide)).trans (by decide +kernel)
  · rw [Option.eq_none_iff_forall_ne_some]
    intro ballot hballot
    exact absurd ((hdropped.ballots 749 ballot).mp hballot).2 (by decide)
  · exact (hdropped.named_iff _).mpr ⟨firstDropped, by decide +kernel, rfl, by decide +kernel⟩

end NodeQuorum.Payments
