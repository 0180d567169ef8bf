/-
  NodeQuorum.Proofs.Registry.Seen — what a registry has seen, and what it announces.

  Announcements and pings are remembered under their hashes before anything else is done with them. A newer ping in a
  remembered announcement does not change its hash, so each of them stays under its own (`run_indexed`). What is
  announced on is remembered: an announcement that is forgotten again, since its collateral is too young, is not
  announced (`announced_announcement`), and neither is a ping that is refused (`announced_ping`).
-/

import NodeQuorum.Proofs.Registry.Run

namespace NodeQuorum.Registry

/-- Announcements and pings are remembered under their own hashes. -/
structure Indexed (r : Registry) : Prop where
  announcements : Table.Keyed r.seenAnnouncements Announcement.hash
  pings : Table.Keyed r.seenPings Ping.hash

theorem indexed_empty (params : ClassParams) : Indexed (empty params) := ⟨.empty _, .empty _⟩

namespace Indexed

variable {r r' : Registry}

theorem same (h : Indexed r) (ha : r'.seenAnnouncements = r.seenAnnouncements) (hp : r'.seenPings = r.seenPings) :
    Indexed r' :=
  ⟨ha ▸ h.announcements, hp ▸ h.pings⟩

theorem rememberAnnouncement (h : Indexed r) (a : Announcement) : Indexed (r.rememberAnnouncement a) :=
  ⟨h.announcements.insert a, h.pings⟩

theorem forgetAnnouncement (h : Indexed r) (hash : Hash) : Indexed (r.forgetAnnouncement hash) :=
  ⟨h.announcements.erase hash, h.pings⟩

/-- The hash of an announcement does not cover its ping. -/
theorem refreshAnnouncement (h : Indexed r) (hash : Hash) (p : Ping) : Indexed (r.refreshAnnouncement hash p) :=
  ⟨h.announcements.modify hash fun _ => rfl, h.pings⟩

theorem rememberPing (h : Indexed r) (p : Ping) : Indexed (r.rememberPing p) :=
  ⟨h.announcements, h.pings.insert p⟩

theorem takePing (h : Indexed r) (e : NodeEntry) (p : Ping) (env : AnnounceEnv) : Indexed (r.takePing e p env) := by
  unfold Registry.takePing
  split
  · rename_i a _
    exact (h.refreshAnnouncement a.hash p).same rfl rfl
  · exact h.same rfl rfl

theorem recordPing (h : Indexed r) (e : NodeEntry) (p : Ping) : Indexed (LocalNode.recordPing r e p) := by
  unfold LocalNode.recordPing
  dsimp only
  split
  · rename_i a _
    let refreshed := r.refreshAnnouncement a.hash p
    have hmodified : Indexed (refreshed.modify e.outpoint fun e => { e with lastPing := some p }) :=
      (h.refreshAnnouncement a.hash p).same rfl rfl
    exact hmodified.rememberPing p
  · have hmodified : Indexed (r.modify e.outpoint fun e => { e with lastPing := some p }) := h.same rfl rfl
    exact hmodified.rememberPing p

end Indexed

/-! ## Announcements -/

/-- What is remembered stays, and nothing but one announcement is announced. -/
structure AnnouncesOnly (r : Registry) (a : Announcement) (h : Handled Registry) : Prop where
  announcements : h.state.seenAnnouncements = r.seenAnnouncements
  pings : h.state.seenPings = r.seenPings
  relayed : ∀ i, .relay i ∈ h.sent → i = ⟨.announcement r.nodeClass, a.hash⟩

theorem announcesOnly_refresh (r : Registry) (e : NodeEntry) (a : Announcement) (env : AnnounceEnv) :
    AnnouncesOnly r a (r.refresh e a env) := by
  refine ⟨rfl, rfl, ?_⟩
  intro i hi
  unfold refresh at hi
  dsimp only at hi
  split at hi
  · simpa using hi
  · cases hi

theorem announcesOnly_replace (r : Registry) (a : Announcement) (env : AnnounceEnv) :
    AnnouncesOnly r a (r.replace a env) := by
  unfold replace
  dsimp only
  split
  · exact ⟨rfl, rfl, nofun⟩
  · rename_i r' hadd
    obtain ⟨hannouncements, hpings, hclass⟩ : r'.seenAnnouncements = r.seenAnnouncements ∧
        r'.seenPings = r.seenPings ∧ r'.nodeClass = r.nodeClass := by
      unfold add at hadd
      split at hadd
      · cases hadd
        exact ⟨rfl, rfl, rfl⟩
      · cases hadd
    refine ⟨hannouncements, hpings, ?_⟩
    intro i hi
    dsimp only at hi
    split at hi
    · cases hi
    · rwa [List.mem_singleton, Outbound.relay.injEq, hclass] at hi

/-- An announcement that enters is announced at most, or it is forgotten and not announced. -/
theorem enter_announces (r : Registry) (a : Announcement) (env : AnnounceEnv) :
    AnnouncesOnly r a (r.enter a env) ∨
      (r.enter a env).state = r.forgetAnnouncement a.hash ∧ (r.enter a env).sent = [] := by
  unfold enter
  split
  · exact Or.inl ⟨rfl, rfl, nofun⟩
  dsimp only
  split
  · exact Or.inr ⟨rfl, rfl⟩
  split
  · exact Or.inl ⟨rfl, rfl, nofun⟩
  · exact Or.inl (announcesOnly_replace r a env)

/-- What becomes of an announcement: it was known, or it is remembered and announced at most, or it is forgotten. -/
theorem announcement_cases (r : Registry) (masternodes : Option Registry) (a : Announcement) (env : AnnounceEnv) :
    ((r.processAnnouncement masternodes a env).state = r ∧ (r.processAnnouncement masternodes a env).sent = []) ∨
    AnnouncesOnly (r.rememberAnnouncement a) a (r.processAnnouncement masternodes a env) ∨
    (r.processAnnouncement masternodes a env).state = (r.rememberAnnouncement a).forgetAnnouncement a.hash ∧
      (r.processAnnouncement masternodes a env).sent = [] := by
  unfold processAnnouncement
  split
  · exact Or.inl ⟨rfl, rfl⟩
  refine Or.inr ?_
  dsimp only
  split
  · exact Or.inl ⟨rfl, rfl, nofun⟩
  unfold settle
  split
  · exact enter_announces _ a env
  split
  · exact Or.inl ⟨rfl, rfl, nofun⟩
  split
  · exact Or.inl (announcesOnly_refresh _ _ a env)
  · exact enter_announces _ a env

theorem indexed_processAnnouncement {r : Registry} (h : Indexed r) (masternodes : Option Registry) (a : Announcement)
    (env : AnnounceEnv) : Indexed (r.processAnnouncement masternodes a env).state := by
  rcases announcement_cases r masternodes a env with ⟨he, -⟩ | honly | ⟨he, -⟩
  · rw [he]
    exact h
  · exact (h.rememberAnnouncement a).same honly.announcements honly.pings
  · rw [he]
    exact (h.rememberAnnouncement a).forgetAnnouncement a.hash

/-- An announcement that is announced on is remembered. -/
theorem announced_announcement {r : Registry} {masternodes : Option Registry} {a : Announcement} {env : AnnounceEnv}
    {i : Inventory} (h : .relay i ∈ (r.processAnnouncement masternodes a env).sent) :
    i = ⟨.announcement r.nodeClass, a.hash⟩ ∧
      (r.processAnnouncement masternodes a env).state.seenAnnouncements[a.hash]? = some a := by
  rcases announcement_cases r masternodes a env with ⟨-, hsent⟩ | honly | ⟨-, hsent⟩
  · rw [hsent] at h
    cases h
  · refine ⟨honly.relayed i h, ?_⟩
    rw [honly.announcements]
    exact Std.ExtTreeMap.getElem?_insert_self
  · rw [hsent] at h
    cases h

/-! ## Pings -/

theorem indexed_processPing {r : Registry} (h : Indexed r) (p : Ping) (env : AnnounceEnv) :
    Indexed (r.processPing p env).state := by
  have hremember := h.rememberPing p
  unfold processPing
  split
  · exact h
  dsimp only
  split
  · exact hremember
  split
  · exact hremember
  split
  · exact hremember
  split
  · exact hremember
  split
  · exact hremember.takePing _ p env
  · exact hremember.takePing _ p env

/-- A ping that is announced on is remembered. -/
theorem announced_ping {r : Registry} {p : Ping} {env : AnnounceEnv} {i : Inventory}
    (h : .relay i ∈ (r.processPing p env).sent) :
    i = ⟨.ping r.nodeClass, p.hash⟩ ∧ (r.processPing p env).state.seenPings[p.hash]? = some p := by
  have htake : ∀ e : NodeEntry, ((r.rememberPing p).takePing e p env).seenPings[p.hash]? = some p ∧
      ((r.rememberPing p).takePing e p env).nodeClass = r.nodeClass := by
    intro e
    unfold takePing
    split
    · exact ⟨Std.ExtTreeMap.getElem?_insert_self, rfl⟩
    · exact ⟨Std.ExtTreeMap.getElem?_insert_self, rfl⟩
  revert h
  unfold processPing
  split
  · exact nofun
  dsimp only
  split
  · exact nofun
  split
  · exact nofun
  rename_i e _
  split
  · exact nofun
  split
  · exact nofun
  split
  · intro h
    rw [List.mem_singleton, Outbound.relay.injEq, (htake e).2] at h
    exact ⟨h, (htake e).1⟩
  · exact nofun

/-- A ping of the local node is remembered. -/
theorem announced_own_ping {n : LocalNode} {r : Registry} {c : Chain} {synced : Bool} {now : Int} {i : Inventory}
    (h : .relay i ∈ (n.manage r c synced now).sent) :
    ∃ p : Ping, i = ⟨.ping n.nodeClass, p.hash⟩ ∧ (n.manage r c synced now).registry.seenPings[p.hash]? = some p := by
  cases manage_ownPing n r c synced now with
  | silent _ hsent =>
    rw [hsent] at h
    cases h
  | @pinged e p hr hsent =>
    rw [hsent, List.mem_singleton, Outbound.relay.injEq] at h
    refine ⟨p, h, ?_⟩
    rw [hr]
    unfold LocalNode.recordPing
    exact Std.ExtTreeMap.getElem?_insert_self

theorem indexed_manage {r : Registry} (h : Indexed r) (n : LocalNode) (c : Chain) (synced : Bool) (now : Int) :
    Indexed (n.manage r c synced now).registry := by
  cases manage_ownPing n r c synced now with
  | silent hr =>
    rw [hr]
    exact h
  | pinged hr =>
    rw [hr]
    exact h.recordPing _ _

/-! ## Lists -/

theorem relay_not_mem_askForEntry (r : Registry) (peer : PeerId) (o : OutPoint) (now : Int) (i : Inventory) :
    .relay i ∉ (r.askForEntry peer o now).2 := by
  unfold askForEntry
  split <;> simp

theorem relay_not_mem_requestList (r : Registry) (peer : Peer) (now : Int) (mainnet : Bool) (i : Inventory) :
    .relay i ∉ (r.requestList peer now mainnet).2 := by
  unfold requestList
  dsimp only
  split
  · split <;> simp
  · simp

theorem relay_not_mem_processListRequest (r : Registry) (peer : Peer) (requested : Option OutPoint) (now : Int)
    (mainnet : Bool) (i : Inventory) : .relay i ∉ (r.processListRequest peer requested now mainnet).sent := by
  have hserve : ∀ r : Registry, .relay i ∉ (r.serve peer.id requested).2 := by
    intro r
    unfold serve
    dsimp only
    split <;> simp
  unfold processListRequest
  dsimp only
  split
  · split
    · exact nofun
    · exact hserve _
  · exact hserve r

theorem indexed_serve {r : Registry} (h : Indexed r) (peer : PeerId) (requested : Option OutPoint) :
    Indexed (r.serve peer requested).1 := by
  have hfold : ∀ (served : List Announcement) (t : Table Hash Announcement), t.Keyed Announcement.hash →
      Table.Keyed (served.foldl (fun t a => t.insertIfNew a.hash a) t) Announcement.hash := by
    intro served
    induction served with
    | nil => exact fun _ ht => ht
    | cons a rest ih => exact fun t ht => ih _ (ht.insertIfNew a)
  exact ⟨hfold (r.listed requested) r.seenAnnouncements h.announcements, h.pings⟩

theorem indexed_processListRequest {r : Registry} (h : Indexed r) (peer : Peer) (requested : Option OutPoint)
    (now : Int) (mainnet : Bool) : Indexed (r.processListRequest peer requested now mainnet).state := by
  unfold processListRequest
  dsimp only
  split
  · split
    · exact h
    · have hasked : Indexed { r with askedUs := r.askedUs.insert peer.address.ip (now + listRequestSeconds) } :=
        h.same rfl rfl
      exact indexed_serve hasked peer.id requested
  · exact indexed_serve h peer.id requested

/-! ## Any event -/

theorem indexed_sweep {r : Registry} (h : Indexed r) (c : Chain) (now : Int) (forceExpired : Bool)
    (minProtocol : Nat) : Indexed (r.sweep c now forceExpired minProtocol).1 :=
  ⟨h.announcements.filter _, h.pings.filter _⟩

theorem indexed_step {r : Registry} (h : Indexed r) (ev : Event) : Indexed (step r ev) := by
  cases ev with
  | announce masternodes a env => exact indexed_processAnnouncement h masternodes a env
  | ping p env => exact indexed_processPing h p env
  | check c now force => exact h.same rfl rfl
  | sweep c now forceExpired minProtocol => exact indexed_sweep h c now forceExpired minProtocol
  | manage n c synced now => exact indexed_manage h n c synced now
  | askForEntry peer o now =>
    unfold step askForEntry
    dsimp only
    split
    · exact h
    · exact h.same rfl rfl
  | requestList peer now mainnet =>
    unfold step requestList
    dsimp only
    split
    · split
      · exact h
      · exact h.same rfl rfl
    · exact h
  | serveList peer requested now mainnet => exact indexed_processListRequest h peer requested now mainnet

/-- Whatever the nodes of a class go through, what is remembered is remembered under its own hash. -/
theorem run_indexed (params : ClassParams) (es : List Event) : Indexed (run params es) :=
  List.foldlRecOn es step (indexed_empty params) fun _ h ev _ => indexed_step h ev

end NodeQuorum.Registry
