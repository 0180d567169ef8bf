/-
  NodeQuorum.Proofs.Quorum.Deadlines — who has to wait goes on waiting.

  Who may ask again when is written into three tables of deadlines: hosts that asked for the full list of a class, hosts
  that were asked for it, and hosts whose request for payment votes was answered. Sweeps compare the deadlines with the
  clock in two ways, and new ones are written as requests come. On the main network one rule holds for all of them:
  - `keeps_step`: whatever a node goes through, a deadline that has not come stands (`Honours`). A sweep takes away what
    has passed, also right at its time, and a new deadline is given to a host that is free only.
  - `deadline_stands`: so it stands in a run until it comes.
-/

import NodeQuorum.Proofs.Quorum.Run

namespace NodeQuorum

/-! ## Deadlines -/

/-- Deadlines that have not come stand. -/
def Honours {κ : Type} [Ord κ] [Std.TransOrd κ] (t t' : Table κ Int) (now : Int) : Prop :=
  ∀ (k : κ) (till : Int), t[k]? = some till → now < till → t'[k]? = some till

namespace Honours

variable {κ : Type} [Ord κ] [Std.TransOrd κ] {t t' t'' : Table κ Int} {now : Int}

theorem refl (t : Table κ Int) (now : Int) : Honours t t now := fun _ _ h _ => h

theorem trans (h : Honours t t' now) (h' : Honours t' t'' now) : Honours t t'' now :=
  fun k till hk hnow => h' k till (h k till hk hnow) hnow

/-- Who need not wait may be given a new deadline. -/
theorem insert [Std.LawfulEqOrd κ] [DecidableEq κ] {k : κ} (hfree : ¬ Registry.isWaiting t[k]? now = true)
    (till : Int) : Honours t (t.insert k till) now := by
  intro a till' ha hnow
  rw [Table.lookup_insert]
  by_cases hk : k = a
  · subst hk
    rw [ha] at hfree
    exact absurd (decide_eq_true hnow) hfree
  · rw [if_neg hk]
    exact ha

/-- A sweep may take away what has passed. -/
theorem filter [Std.LawfulEqOrd κ] {keep : κ → Int → Bool} (hkeep : ∀ k till, now < till → keep k till = true) :
    Honours t (t.filter keep) now := by
  intro k till hk hnow
  rw [Std.ExtTreeMap.getElem?_filter', hk]
  exact Option.filter_some_pos (hkeep k till hnow)

/-- Whoever need not wait after an event need not wait before it. -/
theorem free (h : Honours t t' now) {k : κ} (hfree : ¬ Registry.isWaiting t'[k]? now = true) :
    ¬ Registry.isWaiting t[k]? now = true := by
  intro hwaits
  unfold Registry.isWaiting at hwaits
  split at hwaits
  · rename_i till hk
    have hstands := h k till hk (of_decide_eq_true hwaits)
    rw [hstands] at hfree
    exact hfree hwaits
  · cases hwaits

end Honours

/-! ## The lists of a class -/

namespace Registry

/-- The deadlines of both sides' requests for the full list. -/
def deadlines (r : Registry) : Table IpAddress Int × Table IpAddress Int := (r.askedUs, r.askedThem)

theorem deadlines_processAnnouncement (r : Registry) (masternodes : Option Registry) (a : Announcement)
    (env : AnnounceEnv) : (r.processAnnouncement masternodes a env).state.deadlines = r.deadlines := by
  have hwrites := writesNodes_processAnnouncement r masternodes a env
  unfold WritesNodes at hwrites
  rw [hwrites]
  rfl

theorem deadlines_takePing (r : Registry) (e : NodeEntry) (p : Ping) (env : AnnounceEnv) :
    (r.takePing e p env).deadlines = r.deadlines := by
  unfold takePing
  split <;> rfl

theorem deadlines_processPing (r : Registry) (p : Ping) (env : AnnounceEnv) :
    (r.processPing p env).state.deadlines = r.deadlines := by
  unfold processPing
  split
  · rfl
  dsimp only
  split
  · rfl
  split
  · rfl
  split
  · rfl
  split
  · rfl
  split
  · exact deadlines_takePing _ _ p env
  · exact deadlines_takePing _ _ p env

theorem deadlines_manage (n : LocalNode) (r : Registry) (c : Chain) (synced : Bool) (now : Int) :
    (n.manage r c synced now).registry.deadlines = r.deadlines := by
  cases manage_ownPing n r c synced now with
  | silent hr => rw [hr]
  | pinged hr =>
    rw [hr]
    unfold LocalNode.recordPing
    dsimp only
    split <;> rfl

theorem deadlines_looks {r r' : Registry} (h : Quorum.Looks r r') : r'.deadlines = r.deadlines := by
  refine h.keeps (P := fun r' => r'.deadlines = r.deadlines) ?_ rfl
  intro r' l hr'
  rw [← hr']
  cases l with
  | check c now force => rfl
  | askForEntry peer o now =>
    show (r'.askForEntry peer o now).1.deadlines = _
    unfold askForEntry
    split <;> rfl

/-- Who asked for the full list, or was asked for it, still has to wait. -/
structure Keeps (r r' : Registry) (now : Int) : Prop where
  askedUs : Honours r.askedUs r'.askedUs now
  askedThem : Honours r.askedThem r'.askedThem now

namespace Keeps

variable {r r' r'' : Registry} {now : Int}

theorem same (h : r'.deadlines = r.deadlines) : Keeps r r' now := by
  have hus : r'.askedUs = r.askedUs := congrArg Prod.fst h
  have hthem : r'.askedThem = r.askedThem := congrArg Prod.snd h
  refine ⟨?_, ?_⟩
  · rw [hus]
    exact .refl _ _
  · rw [hthem]
    exact .refl _ _

theorem trans (h : Keeps r r' now) (h' : Keeps r' r'' now) : Keeps r r'' now :=
  ⟨h.askedUs.trans h'.askedUs, h.askedThem.trans h'.askedThem⟩

end Keeps

theorem keeps_processListRequest (r : Registry) (peer : Peer) (requested : Option OutPoint) (now : Int)
    (mainnet : Bool) : Keeps r (r.processListRequest peer requested now mainnet).state now := by
  unfold processListRequest
  dsimp only
  split
  · split
    · exact .same rfl
    · rename_i hfree
      exact ⟨.insert hfree _, .refl _ _⟩
  · exact .same rfl

theorem keeps_requestList (r : Registry) (peer : Peer) (now : Int) (mainnet : Bool) :
    Keeps r (r.requestList peer now mainnet).1 now := by
  unfold requestList
  dsimp only
  split
  · split
    · exact .same rfl
    · rename_i hfree
      exact ⟨.refl _ _, .insert hfree _⟩
  · exact .same rfl

theorem keeps_sweep (r : Registry) (c : Chain) (now : Int) (forceExpired : Bool) (minProtocol : Nat) :
    Keeps r (r.sweep c now forceExpired minProtocol).1 now :=
  ⟨.filter fun _ _ h => decide_eq_true (Int.le_of_lt h), .filter fun _ _ h => decide_eq_true (Int.le_of_lt h)⟩

end Registry

namespace Quorum

/-! ## A node -/

/-- The deadlines of both classes, and those of answered requests for payment votes. -/
structure Keeps (q q' : Quorum) (now : Int) : Prop where
  params : q'.params = q.params
  lists : ∀ c, (q.registries.get c).Keeps (q'.registries.get c) now
  votes : Honours q.answered q'.answered now

namespace Keeps

variable {q q' q'' : Quorum} {now : Int}

/-- The rest of a node may change in any way. -/
theorem same (hparams : q'.params = q.params) (hregistry : q'.registries = q.registries)
    (hanswered : q'.answered = q.answered) : Keeps q q' now := by
  refine ⟨hparams, fun c => .same (by rw [hregistry]), ?_⟩
  rw [hanswered]
  exact .refl _ _

theorem trans (h : Keeps q q' now) (h' : Keeps q' q'' now) : Keeps q q'' now :=
  ⟨h'.params.trans h.params, fun c => (h.lists c).trans (h'.lists c), h.votes.trans h'.votes⟩

theorem setRegistry {c : NodeClass} {r : Registry} (h : (q.registries.get c).Keeps r now) :
    Keeps q (q.setRegistry c r) now := by
  refine ⟨rfl, ?_, .refl _ _⟩
  intro c'
  unfold Quorum.setRegistry
  by_cases hc : c' = c
  · subst hc
    rwa [PerClass.get_set_self]
  · rw [PerClass.get_set_of_ne _ _ hc]
    exact .same rfl

theorem setRegistry_of_looks {c : NodeClass} {r : Registry} (h : Looks (q.registries.get c) r) :
    Keeps q (q.setRegistry c r) now :=
  .setRegistry (.same (Registry.deadlines_looks h))

end Keeps

theorem keeps_noteItem (q : Quorum) (c : NodeClass) (item : SyncItem) (hash : Hash) (verdict : Verdict) (now : Int) :
    Keeps q (q.noteItem c item hash verdict now) now := by
  unfold noteItem
  split
  · exact .same rfl rfl rfl
  · split <;> exact .same rfl rfl rfl

theorem keeps_onSpork (q : Quorum) (record : SporkRecord) (now : Int) : Keeps q (q.onSpork record now).state now := by
  unfold onSpork
  split
  · exact .same rfl rfl rfl
  · rename_i action _
    cases action <;> exact .same rfl rfl rfl

theorem keeps_onAnnouncement (q : Quorum) (c : NodeClass) (a : Announcement) (now : Int) :
    Keeps q (q.onAnnouncement c a now).state now := by
  let h := (q.registries.get c).processAnnouncement (q.hosts? c) a (q.announceEnv c now)
  have hregistry : Keeps q (q.setRegistry c h.state) now :=
    .setRegistry (.same (Registry.deadlines_processAnnouncement _ (q.hosts? c) a _))
  have hnoted := hregistry.trans (keeps_noteItem (q.setRegistry c h.state) c .list a.hash h.verdict now)
  rw [onAnnouncement_eq]
  dsimp only
  split
  · refine hnoted.trans ?_
    unfold enableLocal
    split
    · split <;> exact .same rfl rfl rfl
    · exact .same rfl rfl rfl
  · exact hnoted

theorem keeps_onPing (q : Quorum) (peer : PeerId) (c : NodeClass) (p : Ping) (now : Int) :
    Keeps q (q.onPing peer c p now).state now := by
  have hping : (q.registries.get c).Keeps ((q.registries.get c).processPing p (q.announceEnv c now)).state now :=
    .same (Registry.deadlines_processPing _ p _)
  unfold onPing
  dsimp only
  split
  · exact .setRegistry hping
  split
  · exact .setRegistry (hping.trans (.same (Registry.deadlines_looks (looks_askForEntry _ peer p.outpoint now))))
  · exact .setRegistry hping

theorem keeps_onPaymentVote (q : Quorum) (peer : Peer) (c : NodeClass) (v : PaymentVote) (now : Int) :
    Keeps q (q.onPaymentVote peer c v now).state now := by
  let h := (q.payments.get c).process (q.registries.get c) peer v (q.paymentEnv c now)
  have hpayments : Keeps q (q.setPayments c h.state.payments) now := .same rfl rfl rfl
  have hregistry : Keeps (q.setPayments c h.state.payments)
      ((q.setPayments c h.state.payments).setRegistry c h.state.registry) now :=
    .setRegistry_of_looks (looks_processPaymentVote _ _ peer v _)
  exact (hpayments.trans hregistry).trans (keeps_noteItem _ c .winners v.hash h.verdict now)

/-- On the main network an answer is recorded for a host that is free only. -/
theorem keeps_onGetPaymentVotes (q : Quorum) (peer : Peer) (c : NodeClass) (needed : Nat) (now : Int)
    (hmain : q.params.isMainnet = true) : Keeps q (q.onGetPaymentVotes peer c needed now).state now := by
  unfold onGetPaymentVotes
  dsimp only
  split
  · exact .same rfl rfl rfl
  split
  · exact .same rfl rfl rfl
  rename_i hfree
  have hrecorded : ∀ q' : Quorum, q'.params = q.params → q'.registries = q.registries →
      q'.answered = q.answered.record peer.address.ip (Message.getPaymentVotes c needed).command now →
      Keeps q q' now := by
    intro q' hparams hregistries hanswered
    refine ⟨hparams, fun c => .same (by rw [hregistries]), ?_⟩
    rw [hanswered]
    exact .insert (fun h => hfree ⟨hmain, h⟩) _
  split
  · exact hrecorded _ rfl rfl rfl
  · exact hrecorded _ rfl rfl rfl

theorem keeps_onSyncCount (q : Quorum) (c : NodeClass) (item : SyncItem) (count : Nat) (now : Int) :
    Keeps q (q.onSyncCount c item count).state now := by
  unfold onSyncCount
  split <;> exact .same rfl rfl rfl

theorem keeps_settleLocks {q : Quorum} {h : Handled LockState} (hlooks : Looks q.registries.masternode h.state.registry)
    (now : Int) : Keeps q (q.settleLocks h now).state now := by
  have hregistry : Keeps q (q.setRegistry .masternode h.state.registry) now :=
    .setRegistry_of_looks (c := .masternode) hlooks
  unfold settleLocks
  dsimp only
  split
  · exact hregistry.trans (.same rfl rfl rfl)
  · exact hregistry.trans (.same rfl rfl rfl)

theorem keeps_handle {q : Quorum} (hmain : q.params.isMainnet = true) (peer : Peer) (m : Message) (now : Int) :
    Keeps q (q.handle peer m now).state now := by
  unfold handle
  cases m with
  | spork record => exact keeps_onSpork q record now
  | getSporks => exact .same rfl rfl rfl
  | announcement c a => exact keeps_onAnnouncement q c a now
  | ping c p => exact keeps_onPing q peer.id c p now
  | getList c requested => exact .setRegistry (Registry.keeps_processListRequest _ peer requested now _)
  | paymentVote c v => exact keeps_onPaymentVote q peer c v now
  | getPaymentVotes c needed => exact keeps_onGetPaymentVotes q peer c needed now hmain
  | syncCount c item count => exact keeps_onSyncCount q c item count now
  | lockRequest tx => exact keeps_settleLocks (looks_processRequest q.lockState tx (q.lockEnv now)) now
  | lockVote v => exact keeps_settleLocks (looks_processLockVote q.lockState peer.id v (q.lockEnv now)) now
  | lockList => exact .same rfl rfl rfl

theorem keeps_castVote (q : Quorum) (c : NodeClass) (height : Nat) (now : Int) :
    Keeps q (q.castVote c height now).1 now := by
  unfold castVote
  split
  · exact .same rfl rfl rfl
  split
  · exact .same rfl rfl rfl
  · rename_i voter operator _
    let cast := (q.payments.get c).castVote (q.registries.get c) voter operator height (q.paymentEnv c now)
    have hpayments : Keeps q (q.setPayments c cast.state.payments) now := .same rfl rfl rfl
    have hregistry : Keeps (q.setPayments c cast.state.payments)
        ((q.setPayments c cast.state.payments).setRegistry c cast.state.registry) now :=
      .setRegistry_of_looks (looks_castPaymentVote _ _ voter operator height _)
    exact hpayments.trans hregistry

theorem keeps_sweepClass (q : Quorum) (c : NodeClass) (now : Int) : Keeps q (q.sweepClass c now).1 now := by
  let enforced := q.sporks.isActive (q.params.forClass c).enforcement now
  let q₁ := q.setSync c ((q.syncs.get c).tick now q.chain.synced enforced)
  let r := ((q₁.registries.get c).sweep q₁.chain now false (q₁.minPaymentProtocol c now)).1
  have hticked : Keeps q q₁ now := .same rfl rfl rfl
  have hswept : Keeps q (q₁.setRegistry c r) now :=
    hticked.trans (.setRegistry (Registry.keeps_sweep _ q₁.chain now false (q₁.minPaymentProtocol c now)))
  unfold sweepClass
  dsimp only
  split
  · exact hswept
  · exact hswept.trans (.same rfl rfl rfl)

theorem keeps_upkeep (q : Quorum) (now : Int) : Keeps q (q.upkeep now).1 now := by
  have hmasternodes := keeps_sweepClass q .masternode now
  have hsystemnodes := hmasternodes.trans (keeps_sweepClass _ .systemnode now)
  let q₂ := ((q.sweepClass .masternode now).1.sweepClass .systemnode now).1
  have hanswered : Keeps q₂ (q.swept now) now :=
    ⟨rfl, fun c => .same rfl, .filter fun _ _ h => decide_eq_true h⟩
  rw [(upkeep_eq q now).1]
  refine (hsystemnodes.trans hanswered).trans ?_
  unfold manageLocal
  split
  · exact .same rfl rfl rfl
  · rename_i n _
    have hmanaged := Registry.deadlines_manage n ((q.swept now).registries.get n.nodeClass) (q.swept now).chain
      ((q.swept now).isSynced n.nodeClass) now
    exact Keeps.trans (.setRegistry (.same hmanaged)) (.same rfl rfl rfl)

theorem keeps_requestClass (q : Quorum) (peer : Peer) (c : NodeClass) (asked : Bool) (now : Int) :
    Keeps q (q.requestClass peer c asked now).1 now := by
  unfold requestClass
  split
  · exact .same rfl rfl rfl
  · exact .setRegistry (Registry.keeps_requestList _ peer now _)
  · exact .same rfl rfl rfl
  · exact .same rfl rfl rfl
  · exact .same rfl rfl rfl
  · exact .same rfl rfl rfl

/-- When an event takes place; some may at any time. -/
def Event.time? : Event → Option Int
  | .message _ _ now | .updateSpork _ _ now | .newTip _ now | .upkeep now | .fill _ _ _ _ now | .rank _ _ now
  | .requestSync _ now | .rollback _ now => some now
  | .setLocalNode .. | .setSporkSigner _ | .surroundings .. => none

/-- On the main network every event lets the deadlines stand that have not come. -/
theorem keeps_step {q : Quorum} (hmain : q.params.isMainnet = true) {e : Event} {now : Int}
    (hnow : ∀ t ∈ e.time?, t = now) : Keeps q (q.step e) now := by
  unfold step handleEvent
  cases e with
  | message peer m t =>
    obtain rfl := hnow t rfl
    exact keeps_handle hmain peer m t
  | updateSpork spork value t =>
    unfold updateSpork
    dsimp only
    cases q.sporks.update spork value t <;> exact .same rfl rfl rfl
  | newTip height t =>
    obtain rfl := hnow t rfl
    have hmasternode := keeps_castVote q .masternode (height + ownVoteOffset) t
    exact hmasternode.trans (keeps_castVote _ .systemnode (height + ownVoteOffset) t)
  | upkeep t =>
    obtain rfl := hnow t rfl
    exact keeps_upkeep q t
  | fill c tx height value t => exact .setRegistry_of_looks (looks_fill _ _ tx height value _)
  | rank c height t => exact .setRegistry_of_looks (looks_checkAll _ q.chain t false)
  | requestSync peer t =>
    obtain rfl := hnow t rfl
    exact (keeps_requestClass q peer .masternode false t).trans (keeps_requestClass _ peer .systemnode _ t)
  | setSporkSigner pair =>
    unfold setSporkSigner
    dsimp only
    cases q.sporks.setSigner pair <;> exact .same rfl rfl rfl
  | setLocalNode | rollback | surroundings => exact .same rfl rfl rfl

/-- A deadline stands until it comes. -/
theorem deadline_stands {κ : Type} [Ord κ] [Std.TransOrd κ] (table : Quorum → Table κ Int)
    (htable : ∀ q q' now, Keeps q q' now → Honours (table q) (table q') now) {k : κ} {till : Int} (mid : List Event)
    (hmid : ∀ e ∈ mid, ∀ t ∈ e.time?, t < till) {q : Quorum} (hmain : q.params.isMainnet = true)
    (hwaits : (table q)[k]? = some till) : (table (mid.foldl step q))[k]? = some till := by
  induction mid generalizing q with
  | nil => exact hwaits
  | cons e mid ih =>
    -- an event without a time of its own may be taken to happen just before the deadline
    have hnow : ∃ now < till, ∀ t ∈ e.time?, t = now := by
      cases he : e.time? with
      | none => exact ⟨till - 1, by omega, nofun⟩
      | some now =>
        refine ⟨now, hmid e List.mem_cons_self now he, ?_⟩
        intro t ht
        cases ht
        rfl
    obtain ⟨now, hlt, hnow⟩ := hnow
    have hkeeps := keeps_step hmain hnow
    refine ih (fun e' he' => hmid e' (List.mem_cons_of_mem _ he')) (hkeeps.params ▸ hmain) ?_
    exact htable _ _ now hkeeps k till hwaits hlt

end Quorum
end NodeQuorum
