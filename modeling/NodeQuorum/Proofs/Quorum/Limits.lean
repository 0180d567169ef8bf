/-
  NodeQuorum.Proofs.Quorum.Limits — how often a node answers a host, and asks one.

  On the main network the full list of a class is answered to a host, and asked of one, once in three hours, and payment
  votes are answered once an hour. What is granted finds its host free and gives it a deadline (`Granted`:
  `answersList_grants`, `asksList_grants`, `answersVotes_grants`), which stands until it comes. Asking for a full list
  is left to `requestSync`; no message makes a node ask (`full_list_asked`).
  - `requests_keep_their_distance`: so two answers, or two requests of this node's own, are as far apart as the rules
    say, however sweeps and other messages come between them.
-/

import NodeQuorum.Proofs.Quorum.Deadlines
import NodeQuorum.Proofs.Quorum.Served

namespace NodeQuorum
namespace Quorum

/-! ## Asking for the full list -/

/-- Whether a full list is asked for. -/
def asksFullList : Outbound → Bool
  | .push _ (.getList _ none) => true
  | _ => false

theorem not_asked_by_askForEntry (r : Registry) (peer : PeerId) (o : OutPoint) (now : Int) :
    (r.askForEntry peer o now).2.any asksFullList = false := by
  unfold Registry.askForEntry
  split <;> rfl

theorem not_asked_by_processAnnouncement (r : Registry) (masternodes : Option Registry) (a : Announcement)
    (env : AnnounceEnv) : (r.processAnnouncement masternodes a env).sent.any asksFullList = false := by
  have henter : ∀ r : Registry, (r.enter a env).sent.any asksFullList = false := by
    intro r
    unfold Registry.enter
    split
    · rfl
    dsimp only
    split
    · rfl
    split
    · rfl
    unfold Registry.replace
    dsimp only
    split
    · rfl
    dsimp only
    split <;> rfl
  unfold Registry.processAnnouncement
  split
  · rfl
  dsimp only
  split
  · rfl
  unfold Registry.settle
  split
  · exact henter _
  split
  · rfl
  split
  · unfold Registry.refresh
    dsimp only
    split <;> rfl
  · exact henter _

theorem not_asked_by_onPing (q : Quorum) (peer : PeerId) (c : NodeClass) (p : Ping) (now : Int) :
    (q.onPing peer c p now).sent.any asksFullList = false := by
  have hping : ∀ r : Registry, (r.processPing p (q.announceEnv c now)).sent.any asksFullList = false := by
    intro r
    unfold Registry.processPing
    split
    · rfl
    dsimp only
    split
    · rfl
    split
    · rfl
    split
    · rfl
    split
    · rfl
    split <;> rfl
  unfold onPing
  dsimp only
  split
  · exact hping _
  split
  · rw [List.any_append, hping, not_asked_by_askForEntry, Bool.or_self]
  · exact hping _

theorem not_asked_by_processListRequest (r : Registry) (peer : Peer) (requested : Option OutPoint) (now : Int)
    (mainnet : Bool) : (r.processListRequest peer requested now mainnet).sent.any asksFullList = false := by
  have hserve : ∀ r : Registry, (r.serve peer.id requested).2.any asksFullList = false := by
    intro r
    unfold Registry.serve
    dsimp only
    rw [List.any_append, List.any_flatMap, Bool.or_eq_false_iff]
    refine ⟨List.any_eq_false.mpr fun a _ => nofun, ?_⟩
    split <;> rfl
  unfold Registry.processListRequest
  dsimp only
  split
  · split
    · rfl
    · exact hserve _
  · exact hserve _

theorem not_asked_by_processPaymentVote (p : Payments) (r : Registry) (peer : Peer) (v : PaymentVote)
    (env : PaymentEnv) : (p.process r peer v env).sent.any asksFullList = false := by
  have hvoter : (Payments.checkVoter r peer v env).2.1.any asksFullList = false := by
    unfold Payments.checkVoter
    split
    · rfl
    split
    · exact not_asked_by_askForEntry r peer.id v.voter env.now
    split <;> rfl
  have hcount : ∀ (p : Payments) (r : Registry), (p.count r v env).sent.any asksFullList = false := by
    intro p r
    unfold Payments.count
    split <;> rfl
  unfold Payments.process
  split
  · rfl
  split
  · rename_i h
    rw [h] at hvoter
    exact hvoter
  rename_i h
  rw [h] at hvoter
  split
  · exact hvoter
  split
  · rw [List.any_append, hvoter, hcount, Bool.or_self]
  · rw [List.any_append, hvoter, not_asked_by_askForEntry, Bool.or_self]

theorem not_asked_by_processRequest (s : LockState) (tx : Transaction) (env : LockEnv) :
    (Locks.processRequest s tx env).sent.any asksFullList = false := by
  have hcast : ∀ (s : LockState) (height : Nat), (Locks.castVote s tx.txid height env).2.any asksFullList = false := by
    intro s height
    unfold Locks.castVote
    split
    · rfl
    dsimp only
    split
    · rfl
    split <;> rfl
  unfold Locks.processRequest
  split
  · rfl
  dsimp only
  split
  · rfl
  · rw [List.any_cons, hcast]
    rfl

theorem not_asked_by_processLockVote (s : LockState) (peer : PeerId) (v : LockVote) (env : LockEnv) :
    (Locks.processVote s peer v env).sent.any asksFullList = false := by
  unfold Locks.processVote
  split
  · rfl
  dsimp only
  split
  · split
    · exact not_asked_by_askForEntry _ peer v.voter env.now
    · rfl
  · unfold Locks.announce
    dsimp only
    split
    · rfl
    split <;> rfl

theorem not_asked_by_handle (q : Quorum) (peer : Peer) (m : Message) (now : Int) :
    (q.handle peer m now).sent.any asksFullList = false := by
  unfold handle
  cases m with
  | spork record =>
    dsimp only
    unfold onSpork
    split <;> rfl
  | getSporks => exact List.any_eq_false.mpr (by simp [onGetSporks, asksFullList])
  | announcement c a => exact not_asked_by_processAnnouncement _ (q.hosts? c) a _
  | ping c p => exact not_asked_by_onPing q peer.id c p now
  | getList c requested => exact not_asked_by_processListRequest _ peer requested now _
  | paymentVote c v => exact not_asked_by_processPaymentVote _ _ peer v _
  | getPaymentVotes c needed =>
    dsimp only
    unfold onGetPaymentVotes
    dsimp only
    split
    · rfl
    split
    · rfl
    split
    · rfl
    · simp [Payments.sync, asksFullList]
  | syncCount c item count =>
    dsimp only
    unfold onSyncCount
    split <;> rfl
  | lockRequest tx =>
    dsimp only
    unfold onLockRequest
    rw [sent_settleLocks]
    exact not_asked_by_processRequest q.lockState tx _
  | lockVote v =>
    dsimp only
    unfold onLockVote
    rw [sent_settleLocks]
    exact not_asked_by_processLockVote q.lockState peer.id v _
  | lockList => exact List.any_eq_false.mpr (by simp [Locks.announceVotes, asksFullList])

theorem not_asked_by_castVote (q : Quorum) (c : NodeClass) (height : Nat) (now : Int) :
    (q.castVote c height now).2.1.any asksFullList = false := by
  unfold castVote
  split
  · rfl
  split
  · rfl
  dsimp only
  unfold Payments.castVote
  dsimp only
  split
  · rfl
  split
  · rfl
  split
  · rfl
  split
  · rfl
  split <;> rfl

theorem not_asked_by_manage (n : LocalNode) (r : Registry) (c : Chain) (synced : Bool) (now : Int) :
    (n.manage r c synced now).sent.any asksFullList = false := by
  cases Registry.manage_ownPing n r c synced now with
  | silent _ hsent => rw [hsent]; rfl
  | pinged _ hsent => rw [hsent]; rfl

/-- A full list is asked for in no other way than by `requestSync`. -/
theorem full_list_asked {q : Quorum} {e : Event} {id : PeerId} {c : NodeClass}
    (h : .push id (.getList c none) ∈ q.sent e) : ∃ peer now, e = .requestSync peer now := by
  have hasked : (q.sent e).any asksFullList = true := List.any_eq_true.mpr ⟨_, h, rfl⟩
  revert hasked
  rw [imp_iff_not_or, Bool.not_eq_true]
  unfold sent handleEvent
  cases e with
  | message peer m now =>
    left
    show ((q.handle peer m now).sent ++ penalty peer.id (q.handle peer m now).verdict).any asksFullList = false
    rw [List.any_append, not_asked_by_handle, Bool.false_or]
    unfold penalty
    split
    · split <;> rfl
    · rfl
  | updateSpork spork value now =>
    left
    unfold updateSpork
    dsimp only
    cases q.sporks.update spork value now <;> rfl
  | newTip height now =>
    left
    let h := height + ownVoteOffset
    show ((q.castVote .masternode h now).2.1 ++ ((q.castVote .masternode h now).1.castVote .systemnode h now).2.1).any
      asksFullList = false
    rw [List.any_append, not_asked_by_castVote, not_asked_by_castVote, Bool.or_self]
  | upkeep now =>
    left
    dsimp only
    rw [(upkeep_eq q now).2]
    unfold manageLocal
    split
    · rfl
    · exact not_asked_by_manage _ _ _ _ now
  | requestSync peer now => exact .inr ⟨peer, now, rfl⟩
  | setSporkSigner pair =>
    left
    dsimp only
    split <;> rfl
  | fill | rank | setLocalNode | rollback | surroundings => exact .inl rfl

/-! ## What is granted -/

/-- A peer that asks for the full list of a class gets messages. -/
def AnswersList (q : Quorum) (e : Event) (c : NodeClass) (ip : IpAddress) (now : Int) : Prop :=
  ∃ peer m, e = .message peer (.getList c none) now ∧ peer.address.ip = ip ∧ .push peer.id m ∈ q.sent e

/-- A peer is asked for the full list of a class. -/
def AsksList (q : Quorum) (e : Event) (c : NodeClass) (ip : IpAddress) (now : Int) : Prop :=
  ∃ peer, e = .requestSync peer now ∧ peer.address.ip = ip ∧ .push peer.id (.getList c none) ∈ q.sent e

/-- A peer that asks for the payment votes of a class gets messages. -/
def AnswersVotes (q : Quorum) (e : Event) (c : NodeClass) (ip : IpAddress) (now : Int) : Prop :=
  ∃ peer needed m, e = .message peer (.getPaymentVotes c needed) now ∧ peer.address.ip = ip ∧ .push peer.id m ∈ q.sent e

/-- A key is free, and has to wait from now on. -/
structure Granted {κ : Type} [Ord κ] [Std.TransOrd κ] (t t' : Table κ Int) (k : κ) (now seconds : Int) : Prop where
  free : ¬ Registry.isWaiting t[k]? now = true
  waits : t'[k]? = some (now + seconds)

theorem push_not_mem_penalty (peer id : PeerId) (m : Message) (verdict : Verdict) :
    .push id m ∉ penalty peer verdict := by
  unfold penalty
  split
  · split <;> simp
  · exact nofun

theorem answersList_grants {q : Quorum} (hmain : q.params.isMainnet = true) {e : Event} {c : NodeClass}
    {ip : IpAddress} {now : Int} (hremote : ip.isLocal = false) (h : q.AnswersList e c ip now) :
    Granted (q.registries.get c).askedUs ((q.step e).registries.get c).askedUs ip now Registry.listRequestSeconds := by
  obtain ⟨peer, m, rfl, rfl, hm⟩ := h
  have hpeer : peer.isLocal = false := hremote
  have hstate : ((q.step (.message peer (.getList c none) now)).registries.get c) =
      ((q.registries.get c).processListRequest peer none now q.params.isMainnet).state := by
    show ((q.setRegistry c _).registries.get c) = _
    unfold setRegistry
    rw [PerClass.get_set_self]
  have hsent := (List.mem_append.mp hm).resolve_right (push_not_mem_penalty peer.id peer.id m _)
  rw [hstate]
  revert hsent
  show .push peer.id m ∈ ((q.registries.get c).processListRequest peer none now q.params.isMainnet).sent → _
  unfold Registry.processListRequest
  dsimp only
  rw [hmain, hpeer, if_pos ⟨rfl, rfl, Bool.false_ne_true⟩]
  split
  · exact nofun
  · rename_i hfree
    intro _
    exact ⟨hfree, Std.ExtTreeMap.getElem?_insert_self⟩

theorem answersVotes_grants {q : Quorum} (hmain : q.params.isMainnet = true) {e : Event} {c : NodeClass}
    {ip : IpAddress} {now : Int} (h : q.AnswersVotes e c ip now) :
    Granted q.answered (q.step e).answered ⟨ip, (Message.getPaymentVotes c 0).command⟩ now
      AnsweredRequests.lifetime := by
  obtain ⟨peer, needed, m, rfl, rfl, hm⟩ := h
  have hsent := (List.mem_append.mp hm).resolve_right (push_not_mem_penalty peer.id peer.id m _)
  have hcommand : (Message.getPaymentVotes c needed).command = (Message.getPaymentVotes c 0).command := by
    cases c <;> rfl
  revert hsent
  show .push peer.id m ∈ (q.onGetPaymentVotes peer c needed now).sent →
    Granted q.answered (q.onGetPaymentVotes peer c needed now).state.answered _ _ _
  unfold onGetPaymentVotes
  dsimp only
  rw [hcommand]
  split
  · exact nofun
  split
  · exact nofun
  rename_i hfree
  have hwaiting : ¬ Registry.isWaiting q.answered[(⟨peer.address.ip, (Message.getPaymentVotes c 0).command⟩ :
      HostRequest)]? now = true := fun h => hfree ⟨hmain, h⟩
  split
  · exact nofun
  · intro _
    exact ⟨hwaiting, Std.ExtTreeMap.getElem?_insert_self⟩

theorem asked_by_requestClass {q : Quorum} (hmain : q.params.isMainnet = true) {peer : Peer} {c c' : NodeClass}
    {asked : Bool} {now : Int} (hremote : peer.isLocal = false) (hclass : (q.registries.get c).nodeClass = c)
    (h : .push peer.id (.getList c' none) ∈ (q.requestClass peer c asked now).2) :
    c' = c ∧ Granted (q.registries.get c).askedThem ((q.requestClass peer c asked now).1.registries.get c).askedThem
      peer.address.ip now Registry.listRequestSeconds := by
  revert h
  unfold requestClass
  split
  · dsimp only
    split <;> simp
  · dsimp only
    unfold Registry.requestList setRegistry
    rw [PerClass.get_set_self, hmain, hremote, if_pos ⟨rfl, Bool.false_ne_true⟩]
    split
    · exact nofun
    · rename_i hfree
      intro h
      rw [List.mem_singleton, hclass] at h
      cases h
      exact ⟨rfl, hfree, Std.ExtTreeMap.getElem?_insert_self⟩
  · simp
  · exact nofun
  · exact nofun
  · exact nofun

theorem nodeClass_requestClass (q : Quorum) (peer : Peer) (c : NodeClass) (asked : Bool) (now : Int) (c' : NodeClass) :
    (((q.requestClass peer c asked now).1.registries.get c').nodeClass) = (q.registries.get c').nodeClass := by
  refine ((evolves_requestClass q peer c asked now).registry c').keeps
    (P := fun r => r.nodeClass = (q.registries.get c').nodeClass) ?_ rfl
  intro r ev hr
  exact (congrArg ClassParams.nodeClass (Registry.step_params r ev)).trans hr

theorem asksList_grants {q : Quorum} (hmain : q.params.isMainnet = true)
    (hclass : ∀ c, (q.registries.get c).nodeClass = c) {e : Event} {c : NodeClass} {ip : IpAddress} {now : Int}
    (hremote : ip.isLocal = false) (h : q.AsksList e c ip now) :
    Granted (q.registries.get c).askedThem ((q.step e).registries.get c).askedThem ip now
      Registry.listRequestSeconds := by
  obtain ⟨peer, rfl, rfl, hm⟩ := h
  let q' := (q.requestClass peer .masternode false now).1
  let asked := (q.requestClass peer .masternode false now).2.contains (.push peer.id .getSporks)
  have hclass' : (q'.registries.get .systemnode).nodeClass = .systemnode :=
    (nodeClass_requestClass q peer .masternode false now .systemnode).trans (hclass .systemnode)
  have hfirst : Keeps q q' now := keeps_requestClass q peer .masternode false now
  have hsecond : Keeps q' (q'.requestClass peer .systemnode asked now).1 now :=
    keeps_requestClass q' peer .systemnode asked now
  have hmain' : q'.params.isMainnet = true := hfirst.params ▸ hmain
  rcases List.mem_append.mp hm with hm | hm
  · obtain ⟨rfl, hgranted⟩ := asked_by_requestClass hmain hremote (hclass .masternode) hm
    have hlater : now < now + Registry.listRequestSeconds := by
      unfold Registry.listRequestSeconds
      omega
    exact ⟨hgranted.free, (hsecond.lists .masternode).askedThem _ _ hgranted.waits hlater⟩
  · obtain ⟨rfl, hgranted⟩ := asked_by_requestClass hmain' hremote hclass' hm
    exact ⟨(hfirst.lists .systemnode).askedThem.free hgranted.free, hgranted.waits⟩

/-- For one class a peer is asked for the full list once, or not at all. -/
theorem count_requestClass {q : Quorum} {c : NodeClass} (hclass : (q.registries.get c).nodeClass = c) (peer : Peer)
    (asked : Bool) (now : Int) (id : PeerId) (c' : NodeClass) :
    (q.requestClass peer c asked now).2.count (.push id (.getList c' none)) ≤ if c' = c then 1 else 0 := by
  have hone : [Outbound.push peer.id (.getList c none)].count (.push id (.getList c' none)) ≤
      if c' = c then 1 else 0 := by
    by_cases hc : c' = c
    · rw [if_pos hc]
      exact List.count_le_length
    · have hother : Outbound.push id (.getList c' none) ∉ [.push peer.id (.getList c none)] := by
        intro h
        rw [List.mem_singleton] at h
        cases h
        exact hc rfl
      rw [if_neg hc]
      exact Nat.le_of_eq (List.count_eq_zero_of_not_mem hother)
  unfold requestClass
  split
  · dsimp only
    split <;> simp
  · dsimp only
    unfold Registry.requestList
    rw [hclass]
    dsimp only
    split
    · split
      · simp
      · exact hone
    · exact hone
  · simp
  · simp
  · simp
  · simp

/-- In one event too. -/
theorem full_list_asked_once {q : Quorum} (hclass : ∀ c, (q.registries.get c).nodeClass = c) (e : Event) (id : PeerId)
    (c : NodeClass) : (q.sent e).count (.push id (.getList c none)) ≤ 1 := by
  by_cases hm : .push id (.getList c none) ∈ q.sent e
  · obtain ⟨peer, now, rfl⟩ := full_list_asked hm
    let q' := (q.requestClass peer .masternode false now).1
    let asked := (q.requestClass peer .masternode false now).2.contains (.push peer.id .getSporks)
    have hclass' : (q'.registries.get .systemnode).nodeClass = .systemnode :=
      (nodeClass_requestClass q peer .masternode false now .systemnode).trans (hclass .systemnode)
    have hfirst := count_requestClass (hclass .masternode) peer false now id c
    have hsecond := count_requestClass hclass' peer asked now id c
    show ((q.requestClass peer .masternode false now).2 ++ (q'.requestClass peer .systemnode asked now).2).count _ ≤ 1
    rw [List.count_append]
    cases c with
    | masternode => exact Nat.add_le_add hfirst hsecond
    | systemnode => exact Nat.add_le_add hfirst hsecond
  · rw [List.count_eq_zero_of_not_mem hm]
    exact Nat.zero_le 1

/-! ## Runs -/

/-- The clock of a run does not go back. -/
def Clocked (es : List Event) : Prop := (es.filterMap Event.time?).Pairwise (· ≤ ·)

instance decidableClocked (es : List Event) : Decidable (Clocked es) :=
  inferInstanceAs (Decidable (List.Pairwise _ _))

theorem Clocked.le {before mid : List Event} {e₁ e₂ : Event} (h : Clocked (before ++ e₁ :: mid ++ [e₂])) {t₂ : Int}
    (ht₂ : e₂.time? = some t₂) : ∀ e ∈ mid, ∀ t ∈ e.time?, t ≤ t₂ := by
  intro e he t ht
  unfold Clocked at h
  rw [List.filterMap_append, List.pairwise_append] at h
  refine h.2.2 t ?_ t₂ ?_
  · exact List.mem_filterMap.mpr ⟨e, List.mem_append_right _ (List.mem_cons_of_mem _ he), ht⟩
  · exact List.mem_filterMap.mpr ⟨e₂, List.mem_singleton_self e₂, ht₂⟩

/-- What was granted is granted again only after the time that it made wait for. -/
theorem granted_again {κ : Type} [Ord κ] [Std.TransOrd κ] (table : Quorum → Table κ Int)
    (htable : ∀ q q' now, Keeps q q' now → Honours (table q) (table q') now) {k : κ} {q : Quorum}
    (hmain : q.params.isMainnet = true) {e₁ : Event} {mid : List Event} {t₁ t₂ seconds : Int}
    (h₁ : Granted (table q) (table (q.step e₁)) k t₁ seconds) {t' : Table κ Int}
    (h₂ : Granted (table (mid.foldl step (q.step e₁))) t' k t₂ seconds)
    (hclock : ∀ e ∈ mid, ∀ t ∈ e.time?, t ≤ t₂) : t₁ + seconds ≤ t₂ := by
  by_contra hsoon
  have hlt : t₂ < t₁ + seconds := by omega
  have hmain' : (q.step e₁).params.isMainnet = true := (evolves_step q e₁).params ▸ hmain
  have hstands := deadline_stands table htable mid (fun e he t ht => Int.lt_of_le_of_lt (hclock e he t ht) hlt) hmain'
    h₁.waits
  have hfree := h₂.free
  rw [hstands] at hfree
  exact hfree (decide_eq_true hlt)

theorem mainnet_run {settings : QuorumSettings} (hmain : settings.network = .mainnet) (chain : Chain) (began : Int)
    (es : List Event) : (run settings chain began es).params.isMainnet = true := by
  rw [(evolves_run settings chain began es).params]
  unfold start QuorumSettings.params
  rw [hmain]
  rfl

theorem nodeClass_run (settings : QuorumSettings) (chain : Chain) (began : Int) (es : List Event) (c : NodeClass) :
    ((run settings chain began es).registries.get c).nodeClass = c := by
  obtain ⟨evs, hevs⟩ := (run_parts settings chain began es).2.1 c
  rw [hevs]
  unfold Registry.nodeClass
  rw [Registry.run_params]
  cases c <;> rfl

/-- On the main network, as long as the clock does not go back, whatever else a node goes through: two full lists of a
    class are answered to a host, or asked of a host, at least three hours apart, unless the host is local; and two
    requests of a host for payment votes of a class are answered at least an hour apart. Full lists are asked for by
    `requestSync` only, and once at a time. -/
theorem requests_keep_their_distance (settings : QuorumSettings) (chain : Chain) (began : Int)
    (before mid : List Event) (e₁ e₂ : Event) (hmain : settings.network = .mainnet)
    (hclock : Clocked (before ++ e₁ :: mid ++ [e₂])) :
    let q₁ := run settings chain began before
    let q₂ := run settings chain began (before ++ e₁ :: mid)
    (∀ c ip t₁ t₂, ip.isLocal = false → q₁.AnswersList e₁ c ip t₁ → q₂.AnswersList e₂ c ip t₂ → t₁ + 10800 ≤ t₂) ∧
    (∀ c ip t₁ t₂, ip.isLocal = false → q₁.AsksList e₁ c ip t₁ → q₂.AsksList e₂ c ip t₂ → t₁ + 10800 ≤ t₂) ∧
    (∀ id c, .push id (.getList c none) ∈ q₁.sent e₁ →
      (∃ peer t, e₁ = .requestSync peer t) ∧ (q₁.sent e₁).count (.push id (.getList c none)) = 1) ∧
    (∀ c ip t₁ t₂, q₁.AnswersVotes e₁ c ip t₁ → q₂.AnswersVotes e₂ c ip t₂ → t₁ + 3600 ≤ t₂) := by
  intro q₁ q₂
  have hmain₁ : q₁.params.isMainnet = true := mainnet_run hmain chain began before
  have hmain₂ : q₂.params.isMainnet = true := mainnet_run hmain chain began _
  have hclass₁ : ∀ c, (q₁.registries.get c).nodeClass = c := nodeClass_run settings chain began before
  have hclass₂ : ∀ c, (q₂.registries.get c).nodeClass = c := nodeClass_run settings chain began _
  have hq₂ : q₂ = mid.foldl step (q₁.step e₁) := by
    show (before ++ e₁ :: mid).foldl step _ = _
    rw [List.foldl_append]
    rfl
  refine ⟨?_, ?_, ?_, ?_⟩
  · intro c ip t₁ t₂ hremote h₁ h₂
    have hle : ∀ e ∈ mid, ∀ t ∈ e.time?, t ≤ t₂ := by
      obtain ⟨peer, m, rfl, -⟩ := h₂
      exact hclock.le rfl
    have hgranted₂ := answersList_grants hmain₂ hremote h₂
    rw [hq₂] at hgranted₂
    exact granted_again (fun q => (q.registries.get c).askedUs) (fun _ _ _ h => (h.lists c).askedUs) hmain₁
      (answersList_grants hmain₁ hremote h₁) hgranted₂ hle
  · intro c ip t₁ t₂ hremote h₁ h₂
    have hle : ∀ e ∈ mid, ∀ t ∈ e.time?, t ≤ t₂ := by
      obtain ⟨peer, rfl, -⟩ := h₂
      exact hclock.le rfl
    have hgranted₂ := asksList_grants hmain₂ hclass₂ hremote h₂
    rw [hq₂] at hgranted₂
    exact granted_again (fun q => (q.registries.get c).askedThem) (fun _ _ _ h => (h.lists c).askedThem)
      hmain₁ (asksList_grants hmain₁ hclass₁ hremote h₁) hgranted₂ hle
  · intro id c hm
    exact ⟨full_list_asked hm, Nat.le_antisymm (full_list_asked_once hclass₁ e₁ id c) (List.count_pos_iff.mpr hm)⟩
  · intro c ip t₁ t₂ h₁ h₂
    have hle : ∀ e ∈ mid, ∀ t ∈ e.time?, t ≤ t₂ := by
      obtain ⟨peer, needed, m, rfl, -⟩ := h₂
      exact hclock.le rfl
    have hgranted₂ := answersVotes_grants hmain₂ h₂
    rw [hq₂] at hgranted₂
    exact granted_again Quorum.answered (fun _ _ _ h => h.votes) hmain₁ (answersVotes_grants hmain₁ h₁)
      hgranted₂ hle

/-- A peer whose host is not local. -/
def farPeer : Peer := ⟨1, ⟨.v4 0x08080808, 9340, 0⟩, 70058⟩

/-- Passes that bring a node without peers to the stage of the lists. -/
def untilLists : List Event := [.upkeep 0, .upkeep 10]

/-- Passes that bring it to the end. -/
def untilFinished : List Event := untilLists ++ [.upkeep 36, .upkeep 62]

/-- A host is answered, or asked, again right when its time has come, with a sweep at that moment or without. -/
theorem hosts_are_free_again_in_time :
    let node := run ⟨.mainnet, none, ∅⟩ oneCoin 0
    let ip := farPeer.address.ip
    let lists : Event := .message farPeer (.getList .masternode none) 0
    let votes : Event := .message farPeer (.getPaymentVotes .systemnode 0) 62
    let asks : Event := .requestSync farPeer 10
    ((node []).AnswersList lists .masternode ip 0 ∧
      (node ([] ++ lists :: [.upkeep 10800])).AnswersList (.message farPeer (.getList .masternode none) 10800)
        .masternode ip 10800 ∧ (0 + 10800 : Int) ≤ 10800) ∧
    ((node untilLists).AsksList asks .systemnode ip 10 ∧
      (node (untilLists ++ asks :: [])).AsksList (.requestSync farPeer 10810) .systemnode ip 10810 ∧
      (10 + 10800 : Int) ≤ 10810) ∧
    ((node untilFinished).AnswersVotes votes .systemnode ip 62 ∧
      (node (untilFinished ++ votes :: [.upkeep 3662])).AnswersVotes
        (.message farPeer (.getPaymentVotes .systemnode 5) 3662) .systemnode ip 3662 ∧ (62 + 3600 : Int) ≤ 3662) := by
  intro node ip lists votes asks
  have hlists₁ : (node []).AnswersList lists .masternode ip 0 :=
    ⟨farPeer, .syncCount .masternode .list 0, rfl, rfl, by decide +kernel⟩
  have hlists₂ : (node ([] ++ lists :: [.upkeep 10800])).AnswersList
      (.message farPeer (.getList .masternode none) 10800) .masternode ip 10800 :=
    ⟨farPeer, .syncCount .masternode .list 0, rfl, rfl, by decide +kernel⟩
  have hasks₁ : (node untilLists).AsksList asks .systemnode ip 10 := ⟨farPeer, rfl, rfl, by decide +kernel⟩
  have hasks₂ : (node (untilLists ++ asks :: [])).AsksList (.requestSync farPeer 10810) .systemnode ip 10810 :=
    ⟨farPeer, rfl, rfl, by decide +kernel⟩
  have hvotes₁ : (node untilFinished).AnswersVotes votes .systemnode ip 62 :=
    ⟨farPeer, 0, .syncCount .systemnode .winners 0, rfl, rfl, by decide +kernel⟩
  have hvotes₂ : (node (untilFinished ++ votes :: [.upkeep 3662])).AnswersVotes
      (.message farPeer (.getPaymentVotes .systemnode 5) 3662) .systemnode ip 3662 :=
    ⟨farPeer, 5, .syncCount .systemnode .winners 0, rfl, rfl, by decide +kernel⟩
  have hapart := requests_keep_their_distance ⟨.mainnet, none, ∅⟩ oneCoin 0
  refine ⟨⟨hlists₁, hlists₂, ?_⟩, ⟨hasks₁, hasks₂, ?_⟩, ⟨hvotes₁, hvotes₂, ?_⟩⟩
  · exact (hapart [] _ _ _ rfl (by decide)).1 _ _ 0 10800 (by decide) hlists₁ hlists₂
  · exact (hapart untilLists _ _ _ rfl (by decide)).2.1 _ _ 10 10810 (by decide) hasks₁ hasks₂
  · exact (hapart untilFinished _ _ _ rfl (by decide)).2.2.2 _ _ 62 3662 hvotes₁ hvotes₂

end Quorum
end NodeQuorum
