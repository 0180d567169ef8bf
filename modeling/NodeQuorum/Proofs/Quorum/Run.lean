/-
  NodeQuorum.Proofs.Quorum.Run — what a node goes through, and what that makes of its parts.

  A node takes messages, signs settings, hears of tips, looks after itself, fills coinbases and asks peers (`Event`,
  `step`, `run`), while chain, pool and budget change as they like. Settings, locks, and the registries and votes of
  both classes are changed in no other way than by events of their own (`Evolves`):
  - `evolves_step`: one event of the node is some events of each part.
  - `run_parts`: so what holds of every run of a part holds of that part of every node.
  A program that stops where a number runs over (`run?`) is a node as long as it runs (`run?_eq_some`), so all of this
  holds of it too.
-/

import NodeQuorum.Proofs.Lock.Run
import NodeQuorum.Proofs.Payment.Run
import NodeQuorum.Proofs.Registry.Run
import NodeQuorum.Proofs.Spork.Run
import NodeQuorum.Proofs.Stopping
import NodeQuorum.Quorum.Block
import NodeQuorum.Quorum.Process
import NodeQuorum.Quorum.Upkeep

namespace NodeQuorum

/-! ## Some events -/

/-- Some events lead from one state to the other. -/
def Leads {σ ε : Type} (step : σ → ε → σ) (s s' : σ) : Prop := ∃ es : List ε, s' = es.foldl step s

namespace Leads

variable {σ ε : Type} {step : σ → ε → σ} {s s' s'' : σ}

theorem refl (s : σ) : Leads step s s := ⟨[], rfl⟩

theorem of_eq (h : s' = s) : Leads step s s' := ⟨[], h⟩

theorem one (s : σ) (e : ε) : Leads step s (step s e) := ⟨[e], rfl⟩

theorem trans (h : Leads step s s') (h' : Leads step s' s'') : Leads step s s'' := by
  obtain ⟨es, rfl⟩ := h
  obtain ⟨more, rfl⟩ := h'
  exact ⟨es ++ more, by rw [List.foldl_append]⟩

/-- Events that stand for other events. -/
theorem map {ε' : Type} {step' : σ → ε' → σ} (f : ε → ε') (hf : ∀ s e, step s e = step' s (f e))
    (h : Leads step s s') : Leads step' s s' := by
  obtain ⟨es, rfl⟩ := h
  have hsteps : step = fun s e => step' s (f e) := funext fun s => funext (hf s)
  exact ⟨es.map f, by rw [List.foldl_map, hsteps]⟩

/-- What every event keeps, some events keep. -/
theorem keeps {P : σ → Prop} (hstep : ∀ s e, P s → P (step s e)) (h : Leads step s s') (hs : P s) : P s' := by
  obtain ⟨es, rfl⟩ := h
  exact List.foldlRecOn es step hs fun s hs e _ => hstep s e hs

end Leads

namespace Quorum

/-! ## Events -/

/-- What a node goes through. -/
inductive Event where
  | message (peer : Peer) (m : Message) (now : Int)
  | updateSpork (spork : SporkId) (value now : Int)
  | newTip (height : Nat) (now : Int)
  | upkeep (now : Int)
  | fill (c : NodeClass) (tx : Transaction) (height : Nat) (value : UInt64) (now : Int)
  | rank (c : NodeClass) (height : Nat) (now : Int)
  | requestSync (peer : Peer) (now : Int)
  | setLocalNode (c : NodeClass) (operator : KeyPair)
  | setSporkSigner (pair : KeyPair)
  | rollback (blocks : Nat) (now : Int)
  /-- Chain, pool and budget belong to the rest of the node. -/
  | surroundings (chain : Chain) (mempool : Mempool) (budget : Budget)

/-- What an event leaves, and what is sent. -/
def handleEvent (q : Quorum) : Event → Quorum × List Outbound
  | .message peer m now => ((q.process peer m now).state, (q.process peer m now).sent)
  | .updateSpork spork value now => match q.updateSpork spork value now with
    | .ok (q, _, sent) => (q, sent)
    | .error _ => (q, [])
  | .newTip height now => ((q.newTip height now).1, (q.newTip height now).2.1)
  | .upkeep now => ((q.upkeep now).1, (q.upkeep now).2.1)
  | .fill c tx height value now => ((q.fill c tx height value now).1, [])
  | .rank c height now => ((q.ranked c height now).1, [])
  | .requestSync peer now => q.requestSync peer now
  | .setLocalNode c operator => (q.setLocalNode c operator, [])
  | .setSporkSigner pair => match q.setSporkSigner pair with
    | .ok q => (q, [])
    | .error _ => (q, [])
  | .rollback blocks now => ((q.rollback blocks now).1, [])
  | .surroundings chain mempool budget => ({ q with chain, mempool, budget }, [])

def step (q : Quorum) (e : Event) : Quorum := (q.handleEvent e).1

/-- What an event sends. -/
def sent (q : Quorum) (e : Event) : List Outbound := (q.handleEvent e).2

/-- A node of a network after some events. -/
def run (settings : QuorumSettings) (chain : Chain) (now : Int) (es : List Event) : Quorum :=
  es.foldl step (start settings.params chain now)

/-! ## A program that stops -/

/-- What an event leaves, and what is sent, unless a number runs over and ends the program. -/
def handleEvent? (q : Quorum) : Event → Option (Quorum × List Outbound)
  | .message peer m now => (q.receive? peer m now).map fun h => (h.state, h.sent)
  | .newTip height now => (q.newTip? height now).map fun result => (result.1, result.2.1)
  | e => some (q.handleEvent e)

def step? (q : Quorum) (e : Event) : Option Quorum := (q.handleEvent? e).map Prod.fst

/-- A node of a network after some events, unless one of them ended the program. -/
def run? (settings : QuorumSettings) (chain : Chain) (now : Int) (es : List Event) : Option Quorum :=
  es.foldlM step? (start settings.params chain now)

theorem castVote?_eq_some {q : Quorum} {c : NodeClass} {height : Nat} {now : Int}
    {result : Quorum × List Outbound × Option PaymentVote} (h : q.castVote? c height now = some result) :
    result = q.castVote c height now := by
  unfold castVote? at h
  dsimp only at h
  split at h
  · cases h
  · exact (Option.some_inj.mp h).symm

theorem newTip?_eq_some {q : Quorum} {height : Nat} {now : Int} {result : Quorum × List Outbound × List PaymentVote}
    (h : q.newTip? height now = some result) : result = q.newTip height now := by
  refine Stopping.eq_of_run ?_ h
  rintro ⟨q, sent, votes⟩ c after hclass
  obtain ⟨cast, hcast, rfl⟩ := Option.map_eq_some_iff.mp hclass
  rw [castVote?_eq_some hcast]

/-- An event that does not end the program does what it does to a node. -/
theorem handleEvent?_eq_some {q : Quorum} {e : Event} {result : Quorum × List Outbound}
    (h : q.handleEvent? e = some result) : result = q.handleEvent e := by
  cases e with
  | message peer m now =>
    obtain ⟨handled, hhandled, rfl⟩ := Option.map_eq_some_iff.mp h
    unfold receive? at hhandled
    split at hhandled
    · cases hhandled
    · obtain rfl := Option.some_inj.mp hhandled
      rfl
  | newTip height now =>
    obtain ⟨_, htip, rfl⟩ := Option.map_eq_some_iff.mp h
    rw [newTip?_eq_some htip]
    rfl
  | _ => exact (Option.some_inj.mp h).symm

/-- As long as the program runs it is a node after the same events. -/
theorem run?_eq_some {settings : QuorumSettings} {chain : Chain} {now : Int} {es : List Event} {q : Quorum}
    (h : run? settings chain now es = some q) : q = run settings chain now es := by
  refine Stopping.eq_of_run ?_ h
  intro before e after hstep
  obtain ⟨result, hresult, rfl⟩ := Option.map_eq_some_iff.mp hstep
  rw [handleEvent?_eq_some hresult]
  rfl

/-! ## The parts -/

/-- Each part is what some events of its own make of it. -/
structure Evolves (q q' : Quorum) : Prop where
  params : q'.params = q.params
  sporks : Leads Sporks.step q.sporks q'.sporks
  registry : ∀ c, Leads Registry.step (q.registries.get c) (q'.registries.get c)
  payments : ∀ c, Leads (Payments.step q.params) (q.payments.get c) (q'.payments.get c)
  locks : Leads Locks.step q.locks q'.locks

namespace Evolves

variable {q q' q'' : Quorum}

/-- The rest of a node may change in any way. -/
theorem same (hparams : q'.params = q.params) (hsporks : q'.sporks = q.sporks)
    (hregistry : q'.registries = q.registries) (hpayments : q'.payments = q.payments) (hlocks : q'.locks = q.locks) :
    Evolves q q' :=
  ⟨hparams, .of_eq hsporks, fun c => .of_eq (by rw [hregistry]), fun c => .of_eq (by rw [hpayments]), .of_eq hlocks⟩

theorem refl (q : Quorum) : Evolves q q := .same rfl rfl rfl rfl rfl

theorem trans (h : Evolves q q') (h' : Evolves q' q'') : Evolves q q'' :=
  ⟨h'.params.trans h.params, h.sporks.trans h'.sporks, fun c => (h.registry c).trans (h'.registry c),
    fun c => (h.payments c).trans (h.params ▸ h'.payments c), h.locks.trans h'.locks⟩

theorem ofSporks {sporks : Sporks} (h : Leads Sporks.step q.sporks sporks) : Evolves q { q with sporks } :=
  ⟨rfl, h, fun _ => .refl _, fun _ => .refl _, .refl _⟩

theorem ofLocks {locks : Locks} (h : Leads Locks.step q.locks locks) : Evolves q { q with locks } :=
  ⟨rfl, .refl _, fun _ => .refl _, fun _ => .refl _, h⟩

theorem setRegistry {c : NodeClass} {r : Registry} (h : Leads Registry.step (q.registries.get c) r) :
    Evolves q (q.setRegistry c r) := by
  refine ⟨rfl, .refl _, ?_, fun _ => .refl _, .refl _⟩
  intro c'
  unfold Quorum.setRegistry
  by_cases hc : c' = c
  · subst hc
    rwa [PerClass.get_set_self]
  · rw [PerClass.get_set_of_ne _ _ hc]
    exact .refl _

theorem setPayments {c : NodeClass} {p : Payments} (h : Leads (Payments.step q.params) (q.payments.get c) p) :
    Evolves q (q.setPayments c p) := by
  refine ⟨rfl, .refl _, fun _ => .refl _, ?_, .refl _⟩
  intro c'
  unfold Quorum.setPayments
  by_cases hc : c' = c
  · subst hc
    rwa [PerClass.get_set_self]
  · rw [PerClass.get_set_of_ne _ _ hc]
    exact .refl _

end Evolves

/-! ## Registries that votes look at -/

/-- What votes do to the nodes that they look at. -/
inductive Look where
  | check (c : Chain) (now : Int) (force : Bool)
  | askForEntry (peer : PeerId) (o : OutPoint) (now : Int)

def Look.event : Look → Registry.Event
  | .check c now force => .check c now force
  | .askForEntry peer o now => .askForEntry peer o now

def look (r : Registry) (l : Look) : Registry := Registry.step r l.event

/-- Nodes were looked at and asked for, and nothing else. -/
abbrev Looks (r r' : Registry) : Prop := Leads look r r'

theorem Looks.events {r r' : Registry} (h : Looks r r') : Leads Registry.step r r' := h.map Look.event fun _ _ => rfl

theorem looks_checkAll (r : Registry) (c : Chain) (now : Int) (force : Bool) :
    Looks r (r.checkAll c now force) := .one r (Look.check c now force)

theorem looks_askForEntry (r : Registry) (peer : PeerId) (o : OutPoint) (now : Int) :
    Looks r (r.askForEntry peer o now).1 := .one r (Look.askForEntry peer o now)

theorem looks_checkVoter (r : Registry) (peer : Peer) (v : PaymentVote) (env : PaymentEnv) :
    Looks r (Payments.checkVoter r peer v env).1 := by
  unfold Payments.checkVoter
  split
  · exact .refl r
  split
  · exact looks_askForEntry r peer.id v.voter env.now
  split
  · exact .refl r
  · exact looks_checkAll r env.chain env.now false

theorem looks_processPaymentVote (p : Payments) (r : Registry) (peer : Peer) (v : PaymentVote) (env : PaymentEnv) :
    Looks r (p.process r peer v env).state.registry := by
  have hvoter := looks_checkVoter r peer v env
  have hcount : ∀ (p : Payments) (r : Registry), (p.count r v env).state.registry = r := by
    intro p r
    unfold Payments.count
    split <;> rfl
  unfold Payments.process
  split
  · exact .refl r
  split
  · rename_i h
    rw [h] at hvoter
    exact hvoter
  rename_i r' sent h
  rw [h] at hvoter
  split
  · exact hvoter
  split
  · dsimp only
    rw [hcount]
    exact hvoter
  · exact hvoter.trans (looks_askForEntry r' peer.id v.voter env.now)

theorem looks_castPaymentVote (p : Payments) (r : Registry) (voter : OutPoint) (operator : KeyPair) (height : Nat)
    (env : PaymentEnv) : Looks r (p.castVote r voter operator height env).state.registry := by
  have hranked : Looks r
      (if env.params.isReference voter then r else r.checkAll env.chain env.now false) := by
    split
    · exact .refl r
    · exact looks_checkAll r env.chain env.now false
  have hchecked := hranked.trans (looks_checkAll _ env.chain env.now false)
  unfold Payments.castVote
  dsimp only
  split
  · exact hranked
  split
  · exact hranked
  split
  · exact hranked
  split
  · exact hchecked
  split
  · exact hchecked
  · exact hchecked

theorem looks_fill (p : Payments) (r : Registry) (tx : Transaction) (height : Nat) (value : UInt64) (env : PaymentEnv) :
    Looks r (p.fill r tx height value env).1 := by
  have hwinner : Looks r (p.payeeOrWinner? r height env).1 := by
    unfold Payments.payeeOrWinner?
    split
    · exact .refl r
    · exact looks_checkAll r env.chain env.now false
  unfold Payments.fill
  split
  · rename_i h
    rw [h] at hwinner
    exact hwinner
  · rename_i h
    rw [h] at hwinner
    exact hwinner

/-! ## Locks -/

theorem registry_cancel (s : LockState) (tx : Transaction) (now : Int) :
    (Locks.cancel s tx now).1.registry = s.registry := by
  unfold Locks.cancel
  split <;> rfl

theorem registry_refuse (s : LockState) (tx : Transaction) (env : LockEnv) :
    (Locks.refuse s tx env).1.registry = s.registry := by
  rw [Locks.refuse_eq]
  split
  · rcases Locks.cancel_cases { s with locks := s.locks.refused tx } tx env.now with ⟨-, he⟩ | ⟨_, -, he⟩
    · rw [he]
    · rw [he]
  · rfl

theorem registry_complete (s : LockState) (txid : Hash) (env : LockEnv) :
    (Locks.complete s txid env).1.registry = s.registry := by
  unfold Locks.complete
  dsimp only
  split
  · split <;> rfl
  rename_i tx _
  have hcancel := registry_cancel { s with locks := (s.locks.markCompleted txid).1 } tx env.now
  split
  · rename_i h
    rw [h] at hcancel
    exact hcancel
  · rename_i h
    rw [h] at hcancel
    split
    · split
      · exact hcancel
      · exact hcancel
    · split
      · exact hcancel
      · exact hcancel

theorem registry_count (s : LockState) (v : LockVote) (env : LockEnv) :
    (Locks.count s v env).1.registry = s.registry := by
  rw [Locks.count_eq]
  split
  · exact registry_complete { s with locks := s.locks.counted v env.now } v.txid env
  · rfl

theorem registry_announce (s : LockState) (v : LockVote) (verdict : Verdict) (env : LockEnv) :
    (Locks.announce s v verdict env).state.registry = s.registry := by
  unfold Locks.announce
  dsimp only
  split
  · rfl
  · split <;> rfl

theorem looks_castLockVote (s : LockState) (txid : Hash) (height : Nat) (env : LockEnv) :
    Looks s.registry (Locks.castVote s txid height env).1.registry := by
  unfold Locks.castVote
  split
  · exact .refl _
  dsimp only
  split
  · exact looks_checkAll s.registry env.chain env.now false
  split
  · exact looks_checkAll s.registry env.chain env.now false
  · exact looks_checkAll s.registry env.chain env.now false

theorem looks_processRequest (s : LockState) (tx : Transaction) (env : LockEnv) :
    Looks s.registry (Locks.processRequest s tx env).state.registry := by
  unfold Locks.processRequest
  split
  · exact .refl _
  rename_i height _
  dsimp only
  split
  · exact .of_eq (registry_refuse { s with locks := s.locks.openBallot tx height env.now } tx env)
  · rename_i mempool _
    exact looks_castLockVote { s with locks := s.locks.openBallot tx height env.now, mempool } tx.txid height env

theorem looks_processLockVote (s : LockState) (peer : PeerId) (v : LockVote) (env : LockEnv) :
    Looks s.registry (Locks.processVote s peer v env).state.registry := by
  have hcheck := looks_checkAll s.registry env.chain env.now false
  unfold Locks.processVote
  split
  · exact .refl _
  dsimp only
  split
  · split
    · exact hcheck.trans (looks_askForEntry _ peer v.voter env.now)
    · exact hcheck
  · rw [registry_announce, registry_count]
    exact hcheck

/-- What a lock message leaves is taken over with the rollback taken. -/
theorem evolves_settleLocks {q : Quorum} {h : Handled LockState}
    (hlocks : Leads Locks.step q.locks h.state.locks)
    (hregistry : Leads Registry.step q.registries.masternode h.state.registry) (now : Int) :
    Evolves q (q.settleLocks h now).state := by
  have hsettled : Evolves q { q.setRegistry .masternode h.state.registry with
      locks := h.state.locks.takeRollback.1, mempool := h.state.mempool } := by
    have htaken := hlocks.trans (.one h.state.locks Locks.Event.takeRollback)
    refine (Evolves.setRegistry (c := .masternode) hregistry).trans ?_
    refine (Evolves.ofLocks (q := q.setRegistry .masternode h.state.registry) htaken).trans ?_
    exact .same rfl rfl rfl rfl rfl
  unfold settleLocks
  dsimp only
  split
  · exact hsettled.trans (.same rfl rfl rfl rfl rfl)
  · exact hsettled

/-! ## Messages -/

theorem evolves_noteItem (q : Quorum) (c : NodeClass) (item : SyncItem) (hash : Hash) (verdict : Verdict) (now : Int) :
    Evolves q (q.noteItem c item hash verdict now) := by
  unfold noteItem
  split
  · exact .same rfl rfl rfl rfl rfl
  · split <;> exact .same rfl rfl rfl rfl rfl

theorem evolves_enableLocal (q : Quorum) (c : NodeClass) (a : Announcement) : Evolves q (q.enableLocal c a) := by
  unfold enableLocal
  split
  · split <;> exact .same rfl rfl rfl rfl rfl
  · exact .refl q

theorem evolves_onSpork (q : Quorum) (record : SporkRecord) (now : Int) : Evolves q (q.onSpork record now).state := by
  have hsporks : Evolves q { q with sporks := (q.sporks.process record).1 } :=
    .ofSporks (.one q.sporks (Sporks.Event.receive record))
  unfold onSpork
  split
  · rename_i h
    rw [h] at hsporks
    exact hsporks
  · rename_i action h
    rw [h] at hsporks
    refine hsporks.trans ?_
    cases action <;> exact .same rfl rfl rfl rfl rfl

/-- The nodes whose hosts an announcement of a class may not use. -/
def hosts? (q : Quorum) : NodeClass → Option Registry
  | .masternode => none
  | .systemnode => some q.registries.masternode

theorem onAnnouncement_eq (q : Quorum) (c : NodeClass) (a : Announcement) (now : Int) :
    q.onAnnouncement c a now =
      let h := (q.registries.get c).processAnnouncement (q.hosts? c) a (q.announceEnv c now)
      let q := (q.setRegistry c h.state).noteItem c .list a.hash h.verdict now
      ⟨match h.verdict with
        | .ok _ => q.enableLocal c a
        | .error _ => q, h.sent, h.verdict⟩ := rfl

theorem evolves_onAnnouncement (q : Quorum) (c : NodeClass) (a : Announcement) (now : Int) :
    Evolves q (q.onAnnouncement c a now).state := by
  let h := (q.registries.get c).processAnnouncement (q.hosts? c) a (q.announceEnv c now)
  have hregistry : Evolves q (q.setRegistry c h.state) :=
    .setRegistry (.one _ (Registry.Event.announce (q.hosts? c) a (q.announceEnv c now)))
  have hnoted := hregistry.trans (evolves_noteItem (q.setRegistry c h.state) c .list a.hash h.verdict now)
  rw [onAnnouncement_eq]
  dsimp only
  split
  · exact hnoted.trans (evolves_enableLocal _ c a)
  · exact hnoted

theorem evolves_onPing (q : Quorum) (peer : PeerId) (c : NodeClass) (p : Ping) (now : Int) :
    Evolves q (q.onPing peer c p now).state := by
  have hping : Leads Registry.step (q.registries.get c)
      ((q.registries.get c).processPing p (q.announceEnv c now)).state :=
    .one _ (Registry.Event.ping p (q.announceEnv c now))
  unfold onPing
  dsimp only
  split
  · exact .setRegistry hping
  split
  · exact .setRegistry (hping.trans (looks_askForEntry _ peer p.outpoint now).events)
  · exact .setRegistry hping

theorem evolves_onPaymentVote (q : Quorum) (peer : Peer) (c : NodeClass) (v : PaymentVote) (now : Int) :
    Evolves q (q.onPaymentVote peer c v now).state := by
  let h := (q.payments.get c).process (q.registries.get c) peer v (q.paymentEnv c now)
  have hpayments : Evolves q (q.setPayments c h.state.payments) :=
    .setPayments (.one _ (Payments.Event.receive (q.registries.get c) peer v (q.paymentEnv c now)))
  have hregistry : Evolves (q.setPayments c h.state.payments)
      ((q.setPayments c h.state.payments).setRegistry c h.state.registry) :=
    .setRegistry (looks_processPaymentVote _ _ peer v _).events
  exact (hpayments.trans hregistry).trans (evolves_noteItem _ c .winners v.hash h.verdict now)

theorem evolves_handle (q : Quorum) (peer : Peer) (m : Message) (now : Int) :
    Evolves q (q.handle peer m now).state := by
  unfold handle
  cases m with
  | spork record => exact evolves_onSpork q record now
  | getSporks => exact .refl q
  | announcement c a => exact evolves_onAnnouncement q c a now
  | ping c p => exact evolves_onPing q peer.id c p now
  | getList c requested =>
    exact .setRegistry (.one (q.registries.get c) (Registry.Event.serveList peer requested now q.params.isMainnet))
  | paymentVote c v => exact evolves_onPaymentVote q peer c v now
  | getPaymentVotes c needed =>
    dsimp only
    unfold onGetPaymentVotes
    dsimp only
    split
    · exact .refl q
    split
    · exact .refl q
    split <;> exact .same rfl rfl rfl rfl rfl
  | syncCount c item count =>
    dsimp only
    unfold onSyncCount
    split <;> exact .same rfl rfl rfl rfl rfl
  | lockRequest tx =>
    let event : Locks.Event := .request tx q.registries.masternode q.mempool (q.lockEnv now)
    have hlocks : Leads Locks.step q.locks (q.locks.step event) := .one q.locks event
    exact evolves_settleLocks hlocks (looks_processRequest q.lockState tx (q.lockEnv now)).events now
  | lockVote v =>
    let event : Locks.Event := .vote peer.id v q.registries.masternode q.mempool (q.lockEnv now)
    have hlocks : Leads Locks.step q.locks (q.locks.step event) := .one q.locks event
    exact evolves_settleLocks hlocks (looks_processLockVote q.lockState peer.id v (q.lockEnv now)).events now
  | lockList => exact .refl q

/-! ## Tips and upkeep -/

theorem evolves_castVote (q : Quorum) (c : NodeClass) (height : Nat) (now : Int) :
    Evolves q (q.castVote c height now).1 := by
  unfold castVote
  split
  · exact .refl q
  split
  · exact .refl q
  · rename_i voter operator _
    let cast := (q.payments.get c).castVote (q.registries.get c) voter operator height (q.paymentEnv c now)
    have hpayments : Evolves q (q.setPayments c cast.state.payments) :=
      .setPayments (.one _ (Payments.Event.cast (q.registries.get c) voter operator height (q.paymentEnv c now)))
    have hregistry : Evolves (q.setPayments c cast.state.payments)
        ((q.setPayments c cast.state.payments).setRegistry c cast.state.registry) :=
      .setRegistry (looks_castPaymentVote _ _ voter operator height _).events
    exact hpayments.trans hregistry

theorem evolves_newTip (q : Quorum) (height : Nat) (now : Int) : Evolves q (q.newTip height now).1 := by
  have hmasternode := evolves_castVote q .masternode (height + ownVoteOffset) now
  exact hmasternode.trans (evolves_castVote _ .systemnode (height + ownVoteOffset) now)

theorem evolves_sweepClass (q : Quorum) (c : NodeClass) (now : Int) : Evolves q (q.sweepClass c now).1 := by
  let enforced := q.sporks.isActive (q.params.forClass c).enforcement now
  let q₁ := q.setSync c ((q.syncs.get c).tick now q.chain.synced enforced)
  let r := ((q₁.registries.get c).sweep q₁.chain now false (q₁.minPaymentProtocol c now)).1
  have hticked : Evolves q q₁ := .same rfl rfl rfl rfl rfl
  have hswept : Evolves q₁ (q₁.setRegistry c r) :=
    .setRegistry (.one _ (Registry.Event.sweep q₁.chain now false (q₁.minPaymentProtocol c now)))
  unfold sweepClass
  dsimp only
  split
  · exact hticked.trans hswept
  · rename_i tip _
    exact (hticked.trans hswept).trans (.setPayments (.one _ (Payments.Event.sweep tip r.entries.size)))

theorem evolves_manageLocal (q : Quorum) (now : Int) : Evolves q (q.manageLocal now).1 := by
  unfold manageLocal
  split
  · exact .refl q
  · rename_i n _
    have hregistry : Evolves q (q.setRegistry n.nodeClass
        (n.manage (q.registries.get n.nodeClass) q.chain (q.isSynced n.nodeClass) now).registry) :=
      .setRegistry (.one _ (Registry.Event.manage n q.chain (q.isSynced n.nodeClass) now))
    exact hregistry.trans (.same rfl rfl rfl rfl rfl)

/-- A node after the sweeps of a pass, before it looks after the local node. -/
def swept (q : Quorum) (now : Int) : Quorum :=
  let q := ((q.sweepClass .masternode now).1.sweepClass .systemnode now).1
  { q with locks := (q.locks.sweep q.chain now).1, answered := q.answered.sweep now }

theorem evolves_swept (q : Quorum) (now : Int) : Evolves q (q.swept now) := by
  have hmasternodes := evolves_sweepClass q .masternode now
  have hsystemnodes := hmasternodes.trans (evolves_sweepClass _ .systemnode now)
  let q₂ := ((q.sweepClass .masternode now).1.sweepClass .systemnode now).1
  have hlocks := hsystemnodes.trans (.ofLocks (.one q₂.locks (Locks.Event.sweep q₂.chain now)))
  exact hlocks.trans (.same rfl rfl rfl rfl rfl)

theorem upkeep_eq (q : Quorum) (now : Int) :
    (q.upkeep now).1 = ((q.swept now).manageLocal now).1 ∧ (q.upkeep now).2.1 = ((q.swept now).manageLocal now).2.1 :=
  ⟨rfl, rfl⟩

theorem evolves_upkeep (q : Quorum) (now : Int) : Evolves q (q.upkeep now).1 := by
  rw [(upkeep_eq q now).1]
  exact (evolves_swept q now).trans (evolves_manageLocal _ now)

theorem evolves_requestClass (q : Quorum) (peer : Peer) (c : NodeClass) (asked : Bool) (now : Int) :
    Evolves q (q.requestClass peer c asked now).1 := by
  unfold requestClass
  split
  · exact .refl q
  · exact .setRegistry (.one (q.registries.get c) (Registry.Event.requestList peer now q.params.isMainnet))
  · exact .refl q
  · exact .refl q
  · exact .refl q
  · exact .refl q

/-! ## Any event -/

/-- An event of the node is some events of each of its parts. -/
theorem evolves_step (q : Quorum) (e : Event) : Evolves q (q.step e) := by
  unfold step handleEvent
  cases e with
  | message peer m now => exact evolves_handle q peer m now
  | updateSpork spork value now =>
    have hsporks : Evolves q { q with sporks := q.sporks.step (.update spork value now) } :=
      .ofSporks (.one q.sporks (Sporks.Event.update spork value now))
    unfold updateSpork
    unfold Sporks.step at hsporks
    dsimp only at hsporks ⊢
    cases h : q.sporks.update spork value now with
    | ok result =>
      rw [h] at hsporks
      exact hsporks
    | error _ => exact .refl q
  | newTip height now => exact evolves_newTip q height now
  | upkeep now => exact evolves_upkeep q now
  | fill c tx height value now => exact .setRegistry (looks_fill _ _ tx height value _).events
  | rank c height now => exact .setRegistry (looks_checkAll _ q.chain now false).events
  | requestSync peer now =>
    exact (evolves_requestClass q peer .masternode false now).trans (evolves_requestClass _ peer .systemnode _ now)
  | setLocalNode c operator => exact .same rfl rfl rfl rfl rfl
  | setSporkSigner pair =>
    have hsporks : Evolves q { q with sporks := q.sporks.step (.takeSecret pair) } :=
      .ofSporks (.one q.sporks (Sporks.Event.takeSecret pair))
    unfold setSporkSigner
    unfold Sporks.step at hsporks
    dsimp only at hsporks ⊢
    cases h : q.sporks.setSigner pair with
    | ok sporks =>
      rw [h] at hsporks
      exact hsporks
    | error _ => exact .refl q
  | rollback blocks now => exact .same rfl rfl rfl rfl rfl
  | surroundings chain mempool budget => exact .same rfl rfl rfl rfl rfl

theorem evolves_run (settings : QuorumSettings) (chain : Chain) (now : Int) (es : List Event) :
    Evolves (start settings.params chain now) (run settings chain now es) :=
  List.foldlRecOn es step (.refl _) fun _ h e _ => h.trans (evolves_step _ e)

/-- Whatever a node goes through, its settings, its locks, and the registry and the votes of each class are what runs of
    their own make of them. -/
theorem run_parts (settings : QuorumSettings) (chain : Chain) (now : Int) (es : List Event) :
    let q := run settings chain now es
    (∃ es, q.sporks = Sporks.run settings.params.sporkKey es) ∧
    (∀ c, ∃ es, q.registries.get c = Registry.run (ClassParams.of c) es) ∧
    (∀ c, ∃ es, q.payments.get c = Payments.run settings.params (ClassParams.of c) es) ∧
    ∃ es, q.locks = Locks.run es := by
  have h := evolves_run settings chain now es
  have hregistry : ∀ c, (start settings.params chain now).registries.get c = Registry.empty (ClassParams.of c) := by
    intro c
    obtain ⟨network, sporkKey, references⟩ := settings
    cases network <;> cases c <;> rfl
  have hpayments : ∀ c, (start settings.params chain now).payments.get c = Payments.empty (ClassParams.of c) := by
    intro c
    obtain ⟨network, sporkKey, references⟩ := settings
    cases network <;> cases c <;> rfl
  refine ⟨h.sporks, ?_, ?_, h.locks⟩
  · intro c
    have hleads := h.registry c
    rw [hregistry] at hleads
    exact hleads
  · intro c
    have hleads := h.payments c
    rw [hpayments] at hleads
    exact hleads

end Quorum
end NodeQuorum
