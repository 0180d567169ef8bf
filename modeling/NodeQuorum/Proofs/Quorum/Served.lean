/-
  NodeQuorum.Proofs.Quorum.Served — what a node announces, it has and serves.

  Objects of six kinds are kept in the tables of five parts, each under the hash that announces it:
  - `run_shelved`: in every node that a run reaches, what is found under an inventory is what that inventory announces.
  - `stored_of_relayed`: whatever announces an object has stored it under its hash before, and nothing that happens
    afterwards in the same call takes it away.
  - `announced_objects_are_served`: so right after any call every inventory announced by it is known, and a peer that
    asks for it gets one message, of its kind, class and hash.
-/

import NodeQuorum.Proofs.Lock.Known
import NodeQuorum.Proofs.Quorum.Run
import NodeQuorum.Proofs.Registry.Seen

namespace NodeQuorum

/-! ## Settings and payment votes under their hashes -/

theorem Sporks.run_byHash (key : PublicKey) (es : List Sporks.Event) :
    (run key es).byHash.Keyed SporkRecord.hash := by
  have hstore : ∀ (s : Sporks) (r : SporkRecord), s.byHash.Keyed SporkRecord.hash →
      (s.store r).byHash.Keyed SporkRecord.hash := by
    intro s r h
    unfold store
    dsimp only
    split
    · rename_i previous _
      exact (h.erase previous.hash).insert r
    · exact h.insert r
  have hempty : (empty key).byHash.Keyed SporkRecord.hash := .empty _
  refine List.foldlRecOn (motive := fun s => s.byHash.Keyed SporkRecord.hash) es step hempty ?_
  intro s h e _
  cases e with
  | receive r =>
    rcases process_cases s r with he | ⟨he, -⟩
    · rw [show step s (.receive r) = s from he]
      exact h
    · rw [show step s (.receive r) = s.store r from he]
      exact hstore s r h
  | takeSecret pair =>
    unfold step setSigner
    by_cases hp : pair.publicKey = s.key
    · simp only [hp, if_true]
      exact h
    · simp only [hp, if_false]
      exact h
  | update spork value now =>
    unfold step
    dsimp only
    split
    · rename_i hupdate
      rw [(update_eq_ok hupdate).1]
      exact hstore s _ h
    · exact h

theorem Payments.run_votes (net : NetworkParams) (params : ClassParams) (es : List Payments.Event) :
    (run net params es).votes.Keyed PaymentVote.hash := by
  have hempty : (empty params).votes.Keyed PaymentVote.hash := .empty _
  exact List.foldlRecOn (motive := fun p => p.votes.Keyed PaymentVote.hash) es (step net) hempty
    fun _ h e _ => keyed_step h net e

/-! ## What announces a vote -/

theorem Payments.announced_vote {p : Payments} {r : Registry} {peer : Peer} {v : PaymentVote} {env : PaymentEnv}
    {i : Inventory} (h : .relay i ∈ (p.process r peer v env).sent) :
    i = ⟨.paymentVote p.nodeClass, v.hash⟩ ∧ (p.process r peer v env).state.payments.votes[v.hash]? = some v := by
  have hvoter : .relay i ∉ (checkVoter r peer v env).2.1 := by
    unfold checkVoter
    split
    · exact nofun
    split
    · exact Registry.relay_not_mem_askForEntry r peer.id v.voter env.now i
    split <;> exact nofun
  have hcount : ∀ (p : Payments) (r : Registry), .relay i ∈ (p.count r v env).sent →
      i = ⟨.paymentVote p.nodeClass, v.hash⟩ ∧ (p.count r v env).state.payments.votes[v.hash]? = some v := by
    intro p r
    unfold count
    split
    · exact nofun
    · rename_i p' hadd
      obtain ⟨-, -, rfl⟩ := addVote_eq_some.mp hadd
      intro hi
      rw [List.mem_singleton, Outbound.relay.injEq] at hi
      exact ⟨hi, Std.ExtTreeMap.getElem?_insert_self⟩
  revert h
  unfold process
  split
  · exact nofun
  split
  · rename_i hv
    rw [hv] at hvoter
    exact fun h => absurd h hvoter
  rename_i r' sent hv
  rw [hv] at hvoter
  have hclass : (p.canVote v.voter v.height).1.nodeClass = p.nodeClass := by
    unfold canVote
    split <;> rfl
  split
  · exact fun h => absurd h hvoter
  · rename_i p' hnoted
    rw [hnoted] at hclass
    split
    · intro h
      have hi := (List.mem_append.mp h).resolve_left hvoter
      rw [← hclass]
      exact hcount p' r' hi
    · intro h
      rcases List.mem_append.mp h with hi | hi
      · exact absurd hi hvoter
      · exact absurd hi (Registry.relay_not_mem_askForEntry r' peer.id v.voter env.now i)

theorem Payments.announced_own_vote {p : Payments} {r : Registry} {voter : OutPoint} {operator : KeyPair} {height : Nat}
    {env : PaymentEnv} {i : Inventory} (h : .relay i ∈ (p.castVote r voter operator height env).sent) :
    ∃ v : PaymentVote, i = ⟨.paymentVote p.nodeClass, v.hash⟩ ∧
      (p.castVote r voter operator height env).state.payments.votes[v.hash]? = some v := by
  revert h
  unfold castVote
  dsimp only
  split
  · exact nofun
  split
  · exact nofun
  split
  · exact nofun
  split
  · exact nofun
  split
  · exact nofun
  rename_i hadd
  obtain ⟨-, -, rfl⟩ := addVote_eq_some.mp hadd
  intro h
  rw [List.mem_singleton, Outbound.relay.injEq] at h
  exact ⟨_, h, Std.ExtTreeMap.getElem?_insert_self⟩

namespace Locks

/-- A request announces its transaction and this node's own vote at most. -/
theorem announced_by_request {s : LockState} {tx : Transaction} {env : LockEnv} {i : Inventory}
    (h : .relay i ∈ (processRequest s tx env).sent) :
    (i = ⟨.lockRequest, tx.txid⟩ ∧ (processRequest s tx env).state.locks.requests[tx.txid]? = some tx) ∨
    ∃ v : LockVote, i = ⟨.lockVote, v.hash⟩ ∧ (processRequest s tx env).state.locks.votes[v.hash]? = some v := by
  have hcast : ∀ (s : LockState) (height : Nat), (castVote s tx.txid height env).1.locks.requests = s.locks.requests ∧
      (.relay i ∈ (castVote s tx.txid height env).2 → ∃ v : LockVote, i = ⟨.lockVote, v.hash⟩ ∧
        (castVote s tx.txid height env).1.locks.votes[v.hash]? = some v) := by
    intro s height
    unfold castVote
    split
    · exact ⟨rfl, nofun⟩
    dsimp only
    split
    · exact ⟨rfl, nofun⟩
    split
    · exact ⟨rfl, nofun⟩
    · refine ⟨rfl, ?_⟩
      intro hi
      rw [List.mem_singleton, Outbound.relay.injEq] at hi
      exact ⟨_, hi, Std.ExtTreeMap.getElem?_insert_self⟩
  revert h
  unfold processRequest
  split
  · exact nofun
  rename_i height _
  dsimp only
  split
  · exact nofun
  · rename_i mempool _
    let opened : LockState := { s with locks := s.locks.openBallot tx height env.now, mempool }
    obtain ⟨hrequests, hvote⟩ := hcast opened height
    intro h
    rcases List.mem_cons.mp h with hi | hi
    · rw [Outbound.relay.injEq] at hi
      refine Or.inl ⟨hi, ?_⟩
      dsimp only
      rw [hrequests]
      exact Std.ExtTreeMap.getElem?_insert_self
    · exact Or.inr (hvote hi)

/-- A vote announces itself at most, and it is known then. -/
theorem announced_by_vote {s : LockState} {peer : PeerId} {v : LockVote} {env : LockEnv} {i : Inventory}
    (h : .relay i ∈ (processVote s peer v env).sent) :
    i = ⟨.lockVote, v.hash⟩ ∧ (processVote s peer v env).state.locks.votes[v.hash]? = some v := by
  obtain ⟨locks, registry, mempool⟩ := s
  rcases vote_cases locks registry mempool peer v env with ⟨e, hcheck, -⟩ | ⟨⟨hcheck, hforged⟩, -⟩ | htaken
  · unfold processVote at h
    rw [hcheck] at h
    cases h
  · exact absurd h ((processVote_of_refused (s := ⟨locks, registry, mempool⟩) hcheck hforged peer).2.2 i)
  · refine ⟨?_, ?_⟩
    · rw [processVote_of_taken htaken] at h
      unfold announce at h
      dsimp only at h
      split at h
      · simpa using h
      split at h
      · simpa using h
      · cases h
    · have hvotes := (vote_of_taken htaken peer).votes
      unfold step at hvotes
      dsimp only at hvotes
      rw [hvotes]
      exact Std.ExtTreeMap.getElem?_insert_self

theorem announced_by_list {s : Locks} {i : Inventory} (h : .relay i ∈ s.announceVotes) :
    ∃ v, i.kind = .lockVote ∧ s.votes[i.hash]? = some v := by
  unfold announceVotes at h
  obtain ⟨k, hk, hi⟩ := List.mem_map.mp h
  rw [Outbound.relay.injEq] at hi
  subst hi
  obtain ⟨v, hv⟩ := Table.contains_iff_lookup.mp (Std.ExtTreeMap.mem_keys.mp hk)
  exact ⟨v, rfl, hv⟩

end Locks

namespace Quorum

/-! ## Objects under their inventories -/

/-- Each class has its own registry and its own votes, and what is found under an inventory is what it announces. -/
structure Shelved (q : Quorum) : Prop where
  registryClass : ∀ c, (q.registries.get c).nodeClass = c
  paymentsClass : ∀ c, (q.payments.get c).nodeClass = c
  inventory : ∀ i m, q.object? i = some m → m.inventory? = some i

theorem run_shelved (settings : QuorumSettings) (chain : Chain) (now : Int) (es : List Event) :
    Shelved (run settings chain now es) := by
  obtain ⟨⟨_, hsporks⟩, hregistries, hpayments, ⟨lockEvents, hlocks⟩⟩ := run_parts settings chain now es
  refine ⟨?_, ?_, ?_⟩
  · intro c
    obtain ⟨_, hregistry⟩ := hregistries c
    unfold Registry.nodeClass
    rw [hregistry, Registry.run_params, ClassParams.nodeClass_of]
  · intro c
    obtain ⟨_, hvotes⟩ := hpayments c
    unfold Payments.nodeClass
    rw [hvotes, Payments.run_params, ClassParams.nodeClass_of]
  · rintro ⟨kind, hash⟩ m hm
    have hunder : ∀ {kind : ItemKind} {k : Hash}, k = hash → some (Inventory.mk kind k) = some ⟨kind, hash⟩ := by
      rintro kind k rfl
      rfl
    unfold object? at hm
    cases kind with
    | lockRequest =>
      obtain ⟨tx, htx, rfl⟩ := Option.map_eq_some_iff.mp hm
      rw [hlocks] at htx
      have hrequested : (Locks.run lockEvents).requested? hash = some tx := by
        rw [Locks.requested?_eq, htx, Option.some_or]
      exact hunder ((Locks.run_sound lockEvents).requested_txid hrequested)
    | lockVote =>
      obtain ⟨v, hv, rfl⟩ := Option.map_eq_some_iff.mp hm
      rw [hlocks] at hv
      exact hunder (Locks.known_origin hv).1
    | spork =>
      obtain ⟨r, hr, rfl⟩ := Option.map_eq_some_iff.mp hm
      rw [hsporks] at hr
      exact hunder (Sporks.run_byHash _ _ hash r hr)
    | paymentVote c =>
      obtain ⟨v, hv, rfl⟩ := Option.map_eq_some_iff.mp hm
      obtain ⟨_, hvotes⟩ := hpayments c
      rw [hvotes] at hv
      exact hunder (Payments.run_votes _ _ _ hash v hv)
    | announcement c =>
      obtain ⟨a, ha, rfl⟩ := Option.map_eq_some_iff.mp hm
      obtain ⟨_, hregistry⟩ := hregistries c
      rw [hregistry] at ha
      exact hunder ((Registry.run_indexed _ _).announcements hash a ha)
    | ping c =>
      obtain ⟨p, hp, rfl⟩ := Option.map_eq_some_iff.mp hm
      obtain ⟨_, hregistry⟩ := hregistries c
      rw [hregistry] at hp
      exact hunder ((Registry.run_indexed _ _).pings hash p hp)

/-- An object that is there is known. -/
theorem has_of_object? {q : Quorum} {i : Inventory} {m : Message} (h : q.object? i = some m) : q.has i = true := by
  obtain ⟨kind, hash⟩ := i
  unfold object? at h
  unfold has
  cases kind with
  | lockRequest =>
    obtain ⟨tx, htx, -⟩ := Option.map_eq_some_iff.mp h
    exact Bool.or_eq_true_iff.mpr (Or.inl (Table.contains_of_lookup htx))
  | lockVote | spork | paymentVote c | announcement c | ping c =>
    obtain ⟨_, hx, -⟩ := Option.map_eq_some_iff.mp h
    exact Table.contains_of_lookup hx

/-! ## What announces an object stores it -/

/-- There is an object under an inventory. -/
def Stored (q : Quorum) (i : Inventory) : Prop := ∃ m, q.object? i = some m

theorem Stored.of_lookup {α : Type} {q : Quorum} {i : Inventory} {x : α} {found : Option α} {f : α → Message}
    (h : found = some x) (hi : q.object? i = found.map f) : Stored q i :=
  ⟨f x, by rw [hi, h, Option.map_some]⟩

theorem noteItem_parts (q : Quorum) (c : NodeClass) (item : SyncItem) (hash : Hash) (verdict : Verdict) (now : Int) :
    (q.noteItem c item hash verdict now).registries = q.registries ∧
      (q.noteItem c item hash verdict now).payments = q.payments := by
  unfold noteItem
  split
  · exact ⟨rfl, rfl⟩
  · split <;> exact ⟨rfl, rfl⟩

theorem enableLocal_registries (q : Quorum) (c : NodeClass) (a : Announcement) :
    (q.enableLocal c a).registries = q.registries := by
  unfold enableLocal
  split
  · split <;> rfl
  · rfl

theorem byHash_store (s : Sporks) (r : SporkRecord) : (s.store r).byHash[r.hash]? = some r :=
  Std.ExtTreeMap.getElem?_insert_self

theorem stored_onSpork {q : Quorum} {record : SporkRecord} {now : Int} {i : Inventory}
    (h : .relay i ∈ (q.onSpork record now).sent) : Stored (q.onSpork record now).state i := by
  revert h
  unfold onSpork
  split
  · exact nofun
  · rename_i sporks action hprocess
    intro h
    rw [List.mem_singleton, Outbound.relay.injEq] at h
    subst h
    have hstored : sporks = q.sporks.store record := by
      unfold Sporks.process at hprocess
      split at hprocess
      · cases hprocess
      · cases hprocess
        rfl
    refine .of_lookup (f := .spork) (byHash_store q.sporks record) ?_
    rw [← hstored]
    cases action <;> rfl

theorem stored_onAnnouncement {q : Quorum} (hq : Shelved q) {c : NodeClass} {a : Announcement} {now : Int}
    {i : Inventory} (h : .relay i ∈ (q.onAnnouncement c a now).sent) : Stored (q.onAnnouncement c a now).state i := by
  let h' := (q.registries.get c).processAnnouncement (q.hosts? c) a (q.announceEnv c now)
  rw [onAnnouncement_eq] at h
  obtain ⟨rfl, hseen⟩ := Registry.announced_announcement h
  have hregistries : (q.onAnnouncement c a now).state.registries = (q.setRegistry c h'.state).registries := by
    have hnoted := (noteItem_parts (q.setRegistry c h'.state) c .list a.hash h'.verdict now).1
    rw [onAnnouncement_eq]
    dsimp only
    split
    · rw [enableLocal_registries, hnoted]
    · exact hnoted
  rw [hq.registryClass]
  refine .of_lookup (f := .announcement c) hseen ?_
  unfold object?
  dsimp only
  rw [hregistries]
  unfold setRegistry
  rw [PerClass.get_set_self]

theorem stored_onPing {q : Quorum} (hq : Shelved q) {peer : PeerId} {c : NodeClass} {p : Ping} {now : Int}
    {i : Inventory} (h : .relay i ∈ (q.onPing peer c p now).sent) : Stored (q.onPing peer c p now).state i := by
  let h' := (q.registries.get c).processPing p (q.announceEnv c now)
  have hstored : .relay i ∈ h'.sent → ∀ r : Registry, r.seenPings = h'.state.seenPings →
      Stored (q.setRegistry c r) i := by
    intro hi r hr
    obtain ⟨rfl, hseen⟩ := Registry.announced_ping hi
    rw [hq.registryClass]
    refine .of_lookup (f := .ping c) hseen ?_
    unfold object? setRegistry
    dsimp only
    rw [PerClass.get_set_self, hr]
  revert h
  unfold onPing
  dsimp only
  split
  · exact fun h => hstored h _ rfl
  split
  · intro h
    rcases List.mem_append.mp h with hi | hi
    · refine hstored hi _ ?_
      unfold Registry.askForEntry
      split <;> rfl
    · exact absurd hi (Registry.relay_not_mem_askForEntry _ peer p.outpoint now i)
  · exact fun h => hstored h _ rfl

theorem stored_onPaymentVote {q : Quorum} (hq : Shelved q) {peer : Peer} {c : NodeClass} {v : PaymentVote} {now : Int}
    {i : Inventory} (h : .relay i ∈ (q.onPaymentVote peer c v now).sent) :
    Stored (q.onPaymentVote peer c v now).state i := by
  let h' := (q.payments.get c).process (q.registries.get c) peer v (q.paymentEnv c now)
  obtain ⟨rfl, hvote⟩ : i = ⟨.paymentVote (q.payments.get c).nodeClass, v.hash⟩ ∧
      h'.state.payments.votes[v.hash]? = some v := Payments.announced_vote h
  rw [hq.paymentsClass]
  refine .of_lookup (f := .paymentVote c) hvote ?_
  unfold object? onPaymentVote
  dsimp only
  rw [(noteItem_parts _ c .winners v.hash _ now).2]
  unfold setRegistry setPayments
  rw [PerClass.get_set_self]

/-- The rollback that a lock message asks for sends nothing. -/
theorem sent_settleLocks (q : Quorum) (h : Handled LockState) (now : Int) : (q.settleLocks h now).sent = h.sent := by
  unfold settleLocks
  dsimp only
  split <;> rfl

/-- What a lock message leaves stored stays so when the rollback that it asks for is run. -/
theorem stored_settleLocks {q : Quorum} {h : Handled LockState} {now : Int} {i : Inventory}
    (hi : (i.kind = .lockRequest ∧ ∃ tx, h.state.locks.requests[i.hash]? = some tx) ∨
      (i.kind = .lockVote ∧ ∃ v, h.state.locks.votes[i.hash]? = some v)) : Stored (q.settleLocks h now).state i := by
  have hlocks : (q.settleLocks h now).state.locks = h.state.locks.takeRollback.1 := by
    unfold settleLocks
    dsimp only
    split <;> rfl
  obtain ⟨kind, hash⟩ := i
  rcases hi with ⟨rfl, tx, htx⟩ | ⟨rfl, v, hv⟩
  · refine .of_lookup (f := .lockRequest) htx ?_
    unfold object?
    dsimp only
    rw [hlocks]
    rfl
  · refine .of_lookup (f := .lockVote) hv ?_
    unfold object?
    dsimp only
    rw [hlocks]
    rfl

theorem relay_not_mem_penalty (peer : PeerId) (verdict : Verdict) (i : Inventory) :
    .relay i ∉ penalty peer verdict := by
  unfold penalty
  split
  · split <;> simp
  · exact nofun

theorem relay_not_mem_onGetPaymentVotes (q : Quorum) (peer : Peer) (c : NodeClass) (needed : Nat) (now : Int)
    (i : Inventory) : .relay i ∉ (q.onGetPaymentVotes peer c needed now).sent := by
  unfold onGetPaymentVotes
  dsimp only
  split
  · simp
  split
  · simp
  split
  · simp
  · simp [Payments.sync]

theorem relay_not_mem_onSyncCount (q : Quorum) (c : NodeClass) (item : SyncItem) (count : Nat) (i : Inventory) :
    .relay i ∉ (q.onSyncCount c item count).sent := by
  unfold onSyncCount
  split <;> simp

theorem stored_handle {q : Quorum} (hq : Shelved q) {peer : Peer} {m : Message} {now : Int} {i : Inventory}
    (h : .relay i ∈ (q.handle peer m now).sent) : Stored (q.handle peer m now).state i := by
  revert h
  unfold handle
  cases m with
  | spork record => exact stored_onSpork
  | getSporks => simp [onGetSporks]
  | announcement c a => exact stored_onAnnouncement hq
  | ping c p => exact stored_onPing hq
  | getList c requested =>
    exact fun h => absurd h (Registry.relay_not_mem_processListRequest _ peer requested now q.params.isMainnet i)
  | paymentVote c v => exact stored_onPaymentVote hq
  | getPaymentVotes c needed => exact fun h => absurd h (relay_not_mem_onGetPaymentVotes q peer c needed now i)
  | syncCount c item count => exact fun h => absurd h (relay_not_mem_onSyncCount q c item count i)
  | lockRequest tx =>
    intro h
    have hsent : .relay i ∈ (Locks.processRequest q.lockState tx (q.lockEnv now)).sent := by
      rwa [← sent_settleLocks q _ now]
    refine stored_settleLocks ?_
    rcases Locks.announced_by_request hsent with ⟨rfl, hrequest⟩ | ⟨v, rfl, hvote⟩
    · exact Or.inl ⟨rfl, tx, hrequest⟩
    · exact Or.inr ⟨rfl, v, hvote⟩
  | lockVote v =>
    intro h
    have hsent : .relay i ∈ (Locks.processVote q.lockState peer.id v (q.lockEnv now)).sent := by
      rwa [← sent_settleLocks q _ now]
    refine stored_settleLocks ?_
    obtain ⟨rfl, hvote⟩ := Locks.announced_by_vote hsent
    exact Or.inr ⟨rfl, v, hvote⟩
  | lockList =>
    intro h
    obtain ⟨v, hkind, hv⟩ := Locks.announced_by_list h
    refine .of_lookup (f := .lockVote) hv ?_
    unfold object?
    rw [hkind]

/-! ## Tips and upkeep -/

/-- A class casts its vote among its own votes. -/
theorem announced_by_castVote {q : Quorum} (hclass : ∀ c, (q.payments.get c).nodeClass = c) {c : NodeClass}
    {height : Nat} {now : Int} {i : Inventory} (h : .relay i ∈ (q.castVote c height now).2.1) :
    ∃ v : PaymentVote, i = ⟨.paymentVote c, v.hash⟩ ∧
      ((q.castVote c height now).1.payments.get c).votes[v.hash]? = some v := by
  revert h
  unfold castVote
  split
  · exact nofun
  split
  · exact nofun
  · intro h
    obtain ⟨v, rfl, hv⟩ := Payments.announced_own_vote h
    refine ⟨v, by rw [hclass], ?_⟩
    unfold setRegistry setPayments
    dsimp only
    rw [PerClass.get_set_self]
    exact hv

theorem castVote_other (q : Quorum) {c c' : NodeClass} (hc : c' ≠ c) (height : Nat) (now : Int) :
    (q.castVote c height now).1.payments.get c' = q.payments.get c' := by
  unfold castVote
  split
  · rfl
  split
  · rfl
  · unfold setRegistry setPayments
    dsimp only
    rw [PerClass.get_set_of_ne _ _ hc]

theorem stored_newTip {q : Quorum} (hq : Shelved q) {height : Nat} {now : Int} {i : Inventory}
    (h : .relay i ∈ (q.newTip height now).2.1) : Stored (q.newTip height now).1 i := by
  let first := q.castVote .masternode (height + ownVoteOffset) now
  let second := first.1.castVote .systemnode (height + ownVoteOffset) now
  have hstate : (q.newTip height now).1 = second.1 := rfl
  have hsent : (q.newTip height now).2.1 = first.2.1 ++ second.2.1 := rfl
  rw [hsent] at h
  rw [hstate]
  have hobject : ∀ (c : NodeClass) (v : PaymentVote), (second.1.payments.get c).votes[v.hash]? = some v →
      Stored second.1 ⟨.paymentVote c, v.hash⟩ := fun c v hv => .of_lookup hv rfl
  rcases List.mem_append.mp h with hi | hi
  · obtain ⟨v, rfl, hv⟩ := announced_by_castVote hq.paymentsClass hi
    refine hobject .masternode v ?_
    have hother := castVote_other first.1 (show NodeClass.masternode ≠ .systemnode from nofun)
      (height + ownVoteOffset) now
    rw [hother]
    exact hv
  · have hclass : ∀ c, (first.1.payments.get c).nodeClass = c := by
      intro c
      have hkept := ((evolves_castVote q .masternode (height + ownVoteOffset) now).payments c).keeps
        (P := fun p => p.nodeClass = c) fun p e hp => by
          unfold Payments.nodeClass at hp ⊢
          rwa [Payments.step_params]
      exact hkept (hq.paymentsClass c)
    obtain ⟨v, rfl, hv⟩ := announced_by_castVote hclass hi
    exact hobject .systemnode v hv

theorem stored_manageLocal {q : Quorum} {now : Int} {i : Inventory} (h : .relay i ∈ (q.manageLocal now).2.1) :
    Stored (q.manageLocal now).1 i := by
  revert h
  unfold manageLocal
  split
  · exact nofun
  · rename_i n _
    intro h
    obtain ⟨p, rfl, hp⟩ := Registry.announced_own_ping h
    refine .of_lookup (f := .ping n.nodeClass) hp ?_
    unfold object? setRegistry
    dsimp only
    rw [PerClass.get_set_self]

theorem relay_not_mem_requestClass (q : Quorum) (peer : Peer) (c : NodeClass) (asked : Bool) (now : Int)
    (i : Inventory) : .relay i ∉ (q.requestClass peer c asked now).2 := by
  unfold requestClass
  split
  · dsimp only
    split <;> simp
  · exact Registry.relay_not_mem_requestList _ peer now q.params.isMainnet i
  · simp
  · exact nofun
  · exact nofun
  · exact nofun

/-! ## Any event -/

/-- What an event announces is stored when the event is over. -/
theorem stored_of_relayed {q : Quorum} (hq : Shelved q) {e : Event} {i : Inventory} (h : .relay i ∈ q.sent e) :
    Stored (q.step e) i := by
  revert h
  unfold step sent handleEvent
  cases e with
  | message peer m now =>
    intro h
    have hi := (List.mem_append.mp h).resolve_right (relay_not_mem_penalty peer.id _ i)
    exact stored_handle hq hi
  | updateSpork spork value now =>
    dsimp only
    unfold updateSpork
    cases hupdate : q.sporks.update spork value now with
    | error e => exact nofun
    | ok result =>
      obtain ⟨sporks, record⟩ := result
      intro h
      rw [List.mem_singleton, Outbound.relay.injEq] at h
      subst h
      obtain ⟨rfl, -⟩ := Sporks.update_eq_ok hupdate
      exact .of_lookup (byHash_store q.sporks record) rfl
  | newTip height now => exact stored_newTip hq
  | upkeep now =>
    dsimp only
    rw [(upkeep_eq q now).1, (upkeep_eq q now).2]
    exact stored_manageLocal
  | requestSync peer now =>
    intro h
    rcases List.mem_append.mp h with hi | hi
    · exact absurd hi (relay_not_mem_requestClass q peer .masternode false now i)
    · exact absurd hi (relay_not_mem_requestClass _ peer .systemnode _ now i)
  | setSporkSigner pair =>
    dsimp only
    split <;> exact nofun
  | fill | rank | setLocalNode | rollback | surroundings => exact nofun

/-- In every run: right after any call the node has every object that the call announced, and a peer that asks for it
    gets one message, which carries an object of the announced kind, class and hash. -/
theorem announced_objects_are_served (settings : QuorumSettings) (chain : Chain) (now : Int) (es : List Event)
    (e : Event) (i : Inventory) (h : .relay i ∈ (run settings chain now es).sent e) :
    let q := (run settings chain now es).step e
    q.has i = true ∧ ∀ peer, ∃ m, q.serve peer i = [.push peer m] ∧ m.inventory? = some i := by
  have hafter : Shelved ((run settings chain now es).step e) := by
    have hmore := run_shelved settings chain now (es ++ [e])
    unfold run at hmore ⊢
    rwa [List.foldl_append] at hmore
  obtain ⟨m, hm⟩ := stored_of_relayed (run_shelved settings chain now es) h
  refine ⟨has_of_object? hm, ?_⟩
  intro peer
  refine ⟨m, ?_, hafter.inventory i m hm⟩
  unfold serve
  rw [hm]

/-- A synchronised chain of nine blocks with one coin, made at height two. -/
def oneCoin : Chain :=
  { Chain.empty with
    blocks := Array.replicate 9 ⟨0, 0⟩
    coins := (∅ : Table OutPoint Coin).insert ⟨1, 0⟩ ⟨5, [], 2⟩
    synced := true }

/-- A transaction that spends it. -/
def spendsCoin : Transaction := .standard 1 [⟨⟨1, 0⟩, [], 0⟩] [⟨5, []⟩] 0

/-- A peer asks for a lock on the transaction. -/
def asksForLock : Event := .message ⟨1, ⟨.v4 0x7f000001, 9340, 0⟩, 70058⟩ (.lockRequest spendsCoin) 1600000000

/-- A node that is asked for its first lock announces the request, and serves it to another peer. -/
theorem a_first_lock_request_is_served :
    let q := run ⟨.regtest, none, ∅⟩ oneCoin 1600000000 []
    let i : Inventory := ⟨.lockRequest, spendsCoin.txid⟩
    .relay i ∈ q.sent asksForLock ∧ (q.step asksForLock).has i = true ∧
      ∃ m, (q.step asksForLock).serve 2 i = [.push 2 m] ∧ m.inventory? = some i := by
  have hrelayed : .relay ⟨.lockRequest, spendsCoin.txid⟩ ∈
      (run ⟨.regtest, none, ∅⟩ oneCoin 1600000000 []).sent asksForLock := by
    decide +kernel
  obtain ⟨hhas, hserved⟩ :=
    announced_objects_are_served ⟨.regtest, none, ∅⟩ oneCoin 1600000000 [] asksForLock _ hrelayed
  exact ⟨hrelayed, hhas, hserved 2⟩

end Quorum
end NodeQuorum
