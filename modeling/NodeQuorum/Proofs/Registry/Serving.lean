/-
  NodeQuorum.Proofs.Registry.Serving — what an honest answer to a list request costs.

  A request for the list is answered with the announcements of the enabled entries, each with the newest ping of its
  node behind it. A peer that knows no node takes them one after the other.
  - `run_sound`: what messages have put into a registry may be shown again (`Sound`). It is signed under a valid key,
    is not ahead of time, and its ping passes the key of some operator that was announced for the node.
  - `weight_announcement`, `weight_ping`: a peer that does not know the node punishes such an announcement exactly if
    the ping is too old for it or does not pass the announced operator key, and the ping exactly if it is too old.
  Both do not meet in two places: an entry is enabled for longer than a peer takes its ping, and a refreshed entry may
  carry a ping of the operator before. `peers_punish_old_pings_and_pings_of_earlier_operators` says that nothing else
  in an answer is punished.
-/

import NodeQuorum.Proofs.Registry.Newest
import NodeQuorum.Proofs.Registry.Ranks

namespace NodeQuorum

/-! ## The announcement of an entry -/

namespace NodeEntry

@[simp] theorem announcement?_check (e : NodeEntry) (c : Chain) (p : ClassParams) (now : Int) (force : Bool) :
    (e.check c p now force).announcement? = e.announcement? := by
  unfold check
  split <;> rfl

theorem announcement?_update {e : NodeEntry} {a : Announcement} (h : e.outpoint = a.outpoint) :
    (e.update a).announcement? = some a := by
  unfold update announcement?
  rw [h]
  rfl

/-- A ping changes the ping of the announcement only. -/
theorem announcement?_ping {e : NodeEntry} {a : Announcement} (h : e.announcement? = some a) (p : Ping) :
    ({ e with lastPing := some p } : NodeEntry).announcement? = some { a with lastPing := p } := by
  obtain ⟨_, _, rfl⟩ := Option.map_eq_some_iff.mp h
  rfl

theorem outpoint_of_announcement? {e : NodeEntry} {a : Announcement} (h : e.announcement? = some a) :
    a.outpoint = e.outpoint ∧ a.operatorKey = e.operatorKey := by
  obtain ⟨_, _, rfl⟩ := Option.map_eq_some_iff.mp h
  exact ⟨rfl, rfl⟩

end NodeEntry

/-! ## Weights -/

/-- How much an outcome punishes the sender. -/
def Reject.weightOf {α : Type} : Except Reject α → Nat
  | .ok _ => 0
  | .error e => e.weight

namespace Reject

theorem weightOf_bind {x y : Except Reject Unit} :
    weightOf (x >>= fun _ => y) = if x = .ok () then weightOf y else weightOf x := by
  cases x <;> rfl

theorem weightOf_demand {p : Prop} [Decidable p] {e : Reject} : weightOf (demand p e) = if p then 0 else e.weight := by
  unfold demand
  split <;> rfl

theorem weightOf_mapError {ε : Type} {f : ε → Reject} {x : Except ε Unit} {n : Nat} (h : ∀ e, (f e).weight = n) :
    weightOf (x.mapError f) = if x = .ok () then 0 else n := by
  cases x with
  | ok => rfl
  | error e => exact h e

end Reject

namespace Registry

open Reject (weightOf weightOf_bind weightOf_demand weightOf_mapError)

variable {r : Registry} {masternodes : Option Registry} {a : Announcement} {p : Ping} {env : AnnounceEnv}

theorem weightOf_checkPingSignature {key : PublicKey} :
    weightOf (checkPingSignature p key) = if key.Signed p.signature p.text then 0 else badPingSignatureWeight := by
  unfold checkPingSignature
  refine (weightOf_mapError ?_).trans (if_congr Iff.rfl rfl rfl)
  intro _
  rfl

theorem checkPingTime_eq_ok {now : Int} :
    checkPingTime p now = .ok () ↔ p.sigTime ≤ now + maxSkew ∧ now - maxSkew < p.sigTime := by
  unfold checkPingTime
  rw [ok_bind_eq_ok, demand_eq_ok, demand_eq_ok]

/-! ## What messages put into a registry -/

/-- The time that an event goes by. -/
def Event.time : Event → Int
  | .announce _ _ env | .ping _ env => env.now
  | .check _ now _ | .sweep _ now _ _ | .manage _ _ _ now => now
  | .askForEntry _ _ now | .requestList _ now _ | .serveList _ _ now _ => now

/-- A key was announced for the operator of a node. -/
def Operates (es : List Event) (o : OutPoint) (key : PublicKey) : Prop :=
  ∃ masternodes a env, .announce masternodes a env ∈ es ∧ a.outpoint = o ∧ a.operatorKey = key

/-- An announcement that may be shown to others at a time. Its ping passes the key of some operator of the node, and
    that need not be the announced one. -/
structure Sound (es : List Event) (now : Int) (a : Announcement) : Prop where
  notAhead : a.sigTime ≤ now + maxSkew
  keys : a.collateralKey.isValid = true ∧ a.operatorKey.isValid = true
  ownPing : a.lastPing.outpoint = a.outpoint
  pingNotAhead : a.lastPing.sigTime ≤ now + maxSkew
  signed : a.collateralKey.Signed a.signature a.text
  operated : Operates es a.outpoint a.operatorKey
  pinged : ∃ key, Operates es a.outpoint key ∧ key.Signed a.lastPing.signature a.lastPing.text

/-- Every entry stands for an announcement of its own node that may be shown. -/
def AllSound (es : List Event) (now : Int) (entries : Table OutPoint NodeEntry) : Prop :=
  ∀ (o : OutPoint) (e : NodeEntry), entries[o]? = some e →
    ∃ a, e.announcement? = some a ∧ a.outpoint = o ∧ Sound es now a

section

variable {es : List Event} {now : Int}

/-- The key that the ping of an announcement is checked with was announced for the node, be it just now. -/
theorem operates_pingKey (h : AllSound es now r.entries) (hev : .announce masternodes a env ∈ es) :
    Operates es a.outpoint (r.pingKey a) := by
  cases hfind : r.find? a.outpoint with
  | none => exact pingKey_of_none hfind ▸ ⟨masternodes, a, env, hev, rfl, rfl⟩
  | some e =>
    obtain ⟨old, hold, ho, hsound⟩ := h a.outpoint e hfind
    have hkey : r.pingKey a = old.operatorKey :=
      (pingKey_of_some hfind).trans (NodeEntry.outpoint_of_announcement? hold).2.symm
    rw [hkey, ← ho]
    exact hsound.operated

theorem sound_of_wellMade (h : AllSound es now r.entries) (hev : .announce masternodes a env ∈ es)
    (htime : env.now ≤ now) (hmade : WellMade masternodes a env (r.pingKey a)) : Sound es now a where
  notAhead := by have := hmade.notAhead; omega
  keys := hmade.keys
  ownPing := hmade.ownPing
  pingNotAhead := by have := (checkPingTime_eq_ok.mp hmade.pingTime).1; omega
  signed := hmade.signed
  operated := ⟨masternodes, a, env, hev, rfl, rfl⟩
  pinged := ⟨r.pingKey a, operates_pingKey h hev, hmade.pingSigned⟩

theorem sound_taken (h : AllSound es now r.entries) (hev : .announce masternodes a env ∈ es) (htime : env.now ≤ now)
    {verdict : Verdict} {after : Table OutPoint NodeEntry} (ht : Taken r masternodes a env verdict after) :
    AllSound es now after := by
  cases ht with
  | refused => exact h
  | @refreshed e hmade he _ _ _ =>
    obtain ⟨old, hold, ho, -⟩ := h a.outpoint e he
    have hat : e.outpoint = a.outpoint := (NodeEntry.outpoint_of_announcement? hold).1.symm.trans ho
    refine Table.forall_insert h ⟨a, ?_, rfl, sound_of_wellMade h hev htime hmade⟩
    rw [NodeEntry.announcement?_check, NodeEntry.announcement?_update hat]
  | entered hmade _ _ _ =>
    refine Table.forall_insert (Table.forall_erase h a.outpoint) ⟨a, ?_, rfl, sound_of_wellMade h hev htime hmade⟩
    unfold fresh
    rw [NodeEntry.announcement?_check]
    rfl
  | dropped => exact Table.forall_erase h a.outpoint

/-- What a ping does to the entries. -/
theorem entries_processPing (r : Registry) (p : Ping) (env : AnnounceEnv) :
    (r.processPing p env).state.entries = r.entries ∨
    ∃ e, r.entries[p.outpoint]? = some e ∧ p.sigTime ≤ env.now + maxSkew ∧
      e.operatorKey.Signed p.signature p.text ∧ (r.processPing p env).state.entries =
        r.entries.insert p.outpoint ({ e with lastPing := some p }.check env.chain r.params env.now true) := by
  have htake : ∀ e : NodeEntry, ((r.rememberPing p).takePing e p env).entries =
      r.entries.insert p.outpoint ({ e with lastPing := some p }.check env.chain r.params env.now true) := by
    intro e
    unfold takePing
    split <;> rfl
  unfold processPing
  split
  · exact Or.inl rfl
  dsimp only
  split
  · exact Or.inl rfl
  rename_i htime
  split
  · exact Or.inl rfl
  rename_i e he
  split
  · exact Or.inl rfl
  split
  · exact Or.inl rfl
  rename_i hcheck
  unfold checkPing at hcheck
  simp only [ok_bind_eq_ok, checkPingSignature_eq_ok] at hcheck
  refine Or.inr ⟨e, he, (checkPingTime_eq_ok.mp htime).1, hcheck.2.1, ?_⟩
  split
  · exact htake e
  · exact htake e

theorem sound_processPing (h : AllSound es now r.entries) (htime : env.now ≤ now) :
    AllSound es now (r.processPing p env).state.entries := by
  rcases entries_processPing r p env with hsame | ⟨e, he, htimely, hsigned, hentries⟩
  · rw [hsame]
    exact h
  rw [hentries]
  obtain ⟨a, ha, ho, hsound⟩ := h p.outpoint e he
  refine Table.forall_insert h ⟨{ a with lastPing := p }, ?_, ho, ?_⟩
  · rw [NodeEntry.announcement?_check]
    exact NodeEntry.announcement?_ping ha p
  · have hoperates : Operates es a.outpoint e.operatorKey :=
      (NodeEntry.outpoint_of_announcement? ha).2 ▸ hsound.operated
    exact
      { notAhead := hsound.notAhead
        keys := hsound.keys
        ownPing := ho.symm
        pingNotAhead := by show p.sigTime ≤ now + maxSkew; omega
        signed := hsound.signed
        operated := hsound.operated
        pinged := ⟨e.operatorKey, hoperates, hsigned⟩ }

theorem sound_checkAll (h : AllSound es now r.entries) (c : Chain) (t : Int) (force : Bool) :
    AllSound es now (r.checkAll c t force).entries := by
  intro o e' he'
  obtain ⟨e, he, rfl⟩ := Option.map_eq_some_iff.mp ((find?_checkAll r c t force o).symm.trans he')
  rw [NodeEntry.announcement?_check]
  exact h o e he

theorem sound_sweep (h : AllSound es now r.entries) (c : Chain) (t : Int) (forceExpired : Bool) (minProtocol : Nat) :
    AllSound es now (r.sweep c t forceExpired minProtocol).1.entries :=
  fun o e he => sound_checkAll h c t false o e (entry_of_sweep he)

theorem entries_askForEntry (r : Registry) (peer : PeerId) (o : OutPoint) (t : Int) :
    (r.askForEntry peer o t).1.entries = r.entries := by
  unfold askForEntry
  split <;> rfl

theorem entries_requestList (r : Registry) (peer : Peer) (t : Int) (mainnet : Bool) :
    (r.requestList peer t mainnet).1.entries = r.entries := by
  unfold requestList
  dsimp only
  split
  · split <;> rfl
  · rfl

theorem entries_processListRequest (r : Registry) (peer : Peer) (requested : Option OutPoint) (t : Int)
    (mainnet : Bool) : (r.processListRequest peer requested t mainnet).state.entries = r.entries := by
  unfold processListRequest
  dsimp only
  split
  · split <;> rfl
  · rfl

/-- Every event keeps the entries sound but for the pings of the local node, which may have another key. -/
theorem sound_step (h : AllSound es now r.entries) {ev : Event} (hev : ev ∈ es) (htime : ev.time ≤ now)
    (hown : ∀ n c synced t, ev ≠ .manage n c synced t) : AllSound es now (step r ev).entries := by
  cases ev with
  | announce masternodes a env => exact sound_taken h hev htime (processAnnouncement_taken r masternodes a env)
  | ping p env => exact sound_processPing h htime
  | check c t force => exact sound_checkAll h c t force
  | sweep c t forceExpired minProtocol => exact sound_sweep h c t forceExpired minProtocol
  | manage n c synced t => exact absurd rfl (hown n c synced t)
  | askForEntry peer o t => exact (entries_askForEntry r peer o t).symm ▸ h
  | requestList peer t mainnet => exact (entries_requestList r peer t mainnet).symm ▸ h
  | serveList peer requested t mainnet => exact (entries_processListRequest r peer requested t mainnet).symm ▸ h

/-- What messages have put into a registry may be shown at any later time. -/
theorem run_sound (params : ClassParams) (htime : ∀ ev ∈ es, ev.time ≤ now)
    (hown : ∀ n c synced t, .manage n c synced t ∉ es) : AllSound es now (run params es).entries := by
  refine List.foldlRecOn (motive := fun r => AllSound es now r.entries) es step ?_ ?_
  · intro o e he
    simp [empty] at he
  · intro r h ev hev
    refine sound_step h hev (htime ev hev) ?_
    rintro n c synced t rfl
    exact hown n c synced t hev

end

/-! ## What is served -/

theorem mem_listed {requested : Option OutPoint} (h : a ∈ r.listed requested) :
    ∃ (o : OutPoint) (e : NodeEntry), r.entries[o]? = some e ∧ e.announcement? = some a := by
  obtain ⟨e, he, ha⟩ := List.mem_filterMap.mp h
  obtain ⟨o, ho⟩ := Table.mem_values.mp (List.mem_filter.mp he).1
  exact ⟨o, e, ho, ha⟩

/-- No two announcements of an answer are of one node. -/
theorem Filed.distinct_listed (h : r.Filed) (requested : Option OutPoint) :
    (r.listed requested).Pairwise fun a b => a.outpoint ≠ b.outpoint := by
  have hentries := List.pairwise_map.mp (h.nodup_candidates fun e =>
    isListed e && requested.all fun o => o = e.outpoint)
  refine List.pairwise_filterMap.mpr (hentries.imp ?_)
  intro e e' hne a ha b hb
  rw [(NodeEntry.outpoint_of_announcement? ha).1, (NodeEntry.outpoint_of_announcement? hb).1]
  exact hne

/-- The two messages that tell of a node. -/
def pushes (c : NodeClass) (peer : PeerId) (a : Announcement) : List Outbound :=
  [.push peer (.announcement c a), .push peer (.ping c a.lastPing)]

/-- A message of an answer is the announcement or the ping of a served node, behind the messages of the nodes before. -/
theorem split_pushes {c : NodeClass} {peer : PeerId} {served : List Announcement} {rest before after : List Outbound}
    {m : Outbound} (h : served.flatMap (pushes c peer) ++ rest = before ++ m :: after) :
    m ∈ rest ∨ ∃ earlier a later, served = earlier ++ a :: later ∧
      ((m = .push peer (.announcement c a) ∧ before = earlier.flatMap (pushes c peer)) ∨
        (m = .push peer (.ping c a.lastPing) ∧
          before = earlier.flatMap (pushes c peer) ++ [.push peer (.announcement c a)])) := by
  induction served generalizing before with
  | nil =>
    refine Or.inl ?_
    rw [show rest = before ++ m :: after from h]
    exact List.mem_append_right before List.mem_cons_self
  | cons b served ih =>
    rw [List.flatMap_cons, List.append_assoc] at h
    cases before with
    | nil =>
      obtain ⟨rfl, -⟩ := List.cons.inj h
      exact Or.inr ⟨[], b, served, rfl, Or.inl ⟨rfl, rfl⟩⟩
    | cons x before =>
    obtain ⟨rfl, htail⟩ := List.cons.inj h
    cases before with
    | nil =>
      obtain ⟨rfl, -⟩ := List.cons.inj htail
      exact Or.inr ⟨[], b, served, rfl, Or.inr ⟨rfl, rfl⟩⟩
    | cons y before =>
      obtain ⟨rfl, hlater⟩ := List.cons.inj htail
      rcases ih hlater with hrest | ⟨earlier, a, later, rfl, hm⟩
      · exact Or.inl hrest
      refine Or.inr ⟨b :: earlier, a, later, rfl, ?_⟩
      rw [List.flatMap_cons]
      rcases hm with ⟨rfl, rfl⟩ | ⟨rfl, rfl⟩
      · exact Or.inl ⟨rfl, rfl⟩
      · exact Or.inr ⟨rfl, rfl⟩

/-- What leaves the node for a list request. -/
theorem sent_processListRequest {peer : Peer} {requested : Option OutPoint} {t : Int} {mainnet : Bool}
    {before after : List Outbound} {m : Outbound}
    (h : (r.processListRequest peer requested t mainnet).sent = before ++ m :: after) :
    (r.serve peer.id requested).2 = before ++ m :: after := by
  have hnil : ¬ ([] : List Outbound) = before ++ m :: after := by simp
  unfold processListRequest at h
  dsimp only at h
  split at h
  · split at h
    · exact absurd h hnil
    · exact h
  · exact h

/-! ## What a peer makes of it -/

/-- What is asked of an announcement before its ping is looked at: an address that it may have, and a protocol that is
    not too old. -/
def Presentable (masternodes : Option Registry) (a : Announcement) (env : AnnounceEnv) : Prop :=
  a.address.isAnnounceable env.params.network = true ∧ (masternodes.all fun m => !m.hasHost a.address.ip) = true ∧
    env.minProtocol ≤ a.protocol

instance decidablePresentable (masternodes : Option Registry) (a : Announcement) (env : AnnounceEnv) :
    Decidable (Presentable masternodes a env) :=
  inferInstanceAs (Decidable (_ ∧ _ ∧ _))

/-- What an announcement costs for its ping. -/
def announcementFault (a : Announcement) (now : Int) : Nat :=
  if a.lastPing.sigTime ≤ now - maxSkew then skewWeight
  else if a.operatorKey.Signed a.lastPing.signature a.lastPing.text then 0
  else badPingSignatureWeight

/-- What a ping costs that comes behind its announcement. -/
def pingFault (p : Ping) (now : Int) : Nat := if p.sigTime ≤ now - maxSkew then skewWeight else 0

/-- An announcement whose collateral is not in order is not punished. -/
theorem weight_enter (r : Registry) (a : Announcement) (env : AnnounceEnv) : weightOf (r.enter a env).verdict = 0 := by
  have hreplace : ∀ r : Registry, weightOf (r.replace a env).verdict = 0 := by
    intro r
    unfold replace
    dsimp only
    split <;> rfl
  unfold enter
  split
  · rename_i e he
    unfold ownedCoin at he
    dsimp only at he
    split at he
    · cases he
      rfl
    split at he
    · cases he
      rfl
    split at he
    · cases he
      rfl
    · cases he
  dsimp only
  split
  · rfl
  split
  · rename_i e he
    unfold checkConfirmed at he
    split at he
    · cases he
    · obtain ⟨-, rfl⟩ := demand_eq_error.mp he
      rfl
  · exact hreplace r

theorem weight_settle (r : Registry) (a : Announcement) (env : AnnounceEnv) :
    weightOf (r.settle a env).verdict = 0 := by
  unfold settle
  split
  · exact weight_enter r a env
  split
  · rfl
  split
  · rfl
  · exact weight_enter r a env

/-- Only the checks punish. -/
theorem weight_processAnnouncement (r : Registry) (masternodes : Option Registry) (a : Announcement)
    (env : AnnounceEnv) : weightOf (r.processAnnouncement masternodes a env).verdict =
      if r.seenAnnouncements.contains a.hash then 0
      else weightOf (do r.checkAddress masternodes a env; r.checkAnnouncement a env) := by
  unfold processAnnouncement
  split
  · rfl
  dsimp only
  split
  · rename_i e he
    have herror : (do r.checkAddress masternodes a env; r.checkAnnouncement a env) = .error e := he
    rw [herror]
    rfl
  · rename_i he
    have hok : (do r.checkAddress masternodes a env; r.checkAnnouncement a env) = .ok () := he
    rw [hok, weight_settle]
    rfl

theorem weightOf_checkPingTime {now : Int} (h : p.sigTime ≤ now + maxSkew) :
    weightOf (checkPingTime p now) = pingFault p now := by
  unfold checkPingTime pingFault
  rw [weightOf_bind, if_pos (demand_eq_ok.mpr h), weightOf_demand]
  by_cases hold : p.sigTime ≤ now - maxSkew
  · rw [if_pos hold, if_neg (Int.not_lt.mpr hold)]
    rfl
  · rw [if_neg hold, if_pos (Int.not_le.mp hold)]

theorem weightOf_checkAddress : weightOf (r.checkAddress masternodes a env) = 0 := by
  unfold checkAddress
  rw [weightOf_bind, weightOf_demand, weightOf_demand]
  split
  · exact ite_self 0
  · exact ite_self 0

section

variable {es : List Event}

/-- The first check that fails is the one of the ping. -/
theorem weightOf_checkAnnouncement (hs : Sound es env.now a) (hnone : r.find? a.outpoint = none)
    (hprotocol : env.minProtocol ≤ a.protocol) :
    weightOf (r.checkAnnouncement a env) = announcementFault a env.now := by
  unfold checkAnnouncement
  dsimp only
  rw [weightOf_bind, if_pos (demand_eq_ok.mpr hs.notAhead), weightOf_bind, if_pos (demand_eq_ok.mpr hprotocol),
    weightOf_bind, if_pos (demand_eq_ok.mpr hs.keys), weightOf_bind, if_pos (demand_eq_ok.mpr hs.ownPing)]
  unfold announcementFault
  have htime : checkPingTime a.lastPing env.now = .ok () ↔ _ := checkPingTime_eq_ok
  by_cases hold : a.lastPing.sigTime ≤ env.now - maxSkew
  · have hrefused : ¬ checkPingTime a.lastPing env.now = .ok () := fun h => Int.not_lt.mpr hold (htime.mp h).2
    rw [if_pos hold, weightOf_bind, if_neg hrefused, weightOf_checkPingTime hs.pingNotAhead]
    exact if_pos hold
  rw [if_neg hold, weightOf_bind, if_pos (htime.mpr ⟨hs.pingNotAhead, Int.not_le.mp hold⟩), pingKey_of_none hnone]
  by_cases hsigned : a.operatorKey.Signed a.lastPing.signature a.lastPing.text
  · rw [if_pos hsigned, weightOf_bind, if_pos (checkPingSignature_eq_ok.mpr hsigned), weightOf_bind,
      if_pos (checkSignature_eq_ok.mpr hs.signed), weightOf_demand]
    exact ite_self 0
  · rw [if_neg hsigned, weightOf_bind, if_neg (mt checkPingSignature_eq_ok.mp hsigned), weightOf_checkPingSignature,
      if_neg hsigned]

/-- A peer that does not know a node punishes its announcement for the ping only. -/
theorem weight_announcement (hs : Sound es env.now a) (hnone : r.find? a.outpoint = none) :
    weightOf (r.processAnnouncement masternodes a env).verdict =
      if r.seenAnnouncements.contains a.hash ∨ ¬ Presentable masternodes a env then 0
      else announcementFault a env.now := by
  rw [weight_processAnnouncement]
  by_cases hseen : r.seenAnnouncements.contains a.hash = true
  · rw [if_pos hseen, if_pos (Or.inl hseen)]
  rw [if_neg hseen, weightOf_bind]
  by_cases haddress : r.checkAddress masternodes a env = .ok ()
  · rw [if_pos haddress]
    have husable := haddress
    unfold checkAddress at husable
    rw [ok_bind_eq_ok, demand_eq_ok, demand_eq_ok] at husable
    by_cases hprotocol : env.minProtocol ≤ a.protocol
    · have hpresentable : Presentable masternodes a env := ⟨husable.1, husable.2, hprotocol⟩
      rw [weightOf_checkAnnouncement hs hnone hprotocol, if_neg (not_or.mpr ⟨hseen, not_not.mpr hpresentable⟩)]
    · unfold checkAnnouncement
      dsimp only
      rw [if_pos (Or.inr fun h => hprotocol h.2.2), weightOf_bind, if_pos (demand_eq_ok.mpr hs.notAhead),
        weightOf_bind, if_neg (mt demand_eq_ok.mp hprotocol), weightOf_demand, if_neg hprotocol]
      rfl
  · rw [if_neg haddress, weightOf_checkAddress, if_pos (Or.inr ?_)]
    intro h
    unfold checkAddress at haddress
    rw [ok_bind_eq_ok, demand_eq_ok, demand_eq_ok] at haddress
    exact haddress ⟨h.1, h.2.1⟩

end

theorem weightOf_checkPing {e : NodeEntry} (h : e.operatorKey.Signed p.signature p.text) :
    weightOf (r.checkPing e p env) = 0 := by
  unfold checkPing
  dsimp only
  rw [weightOf_bind]
  split
  · rw [weightOf_bind, if_pos (checkPingSignature_eq_ok.mpr h)]
    split
    · rfl
    · rw [weightOf_demand]
      exact ite_self 0
  · rw [weightOf_demand]
    exact ite_self 0

/-- A ping that passes the key of its node, if the node is known, is punished for its age only. -/
theorem weight_ping (hahead : p.sigTime ≤ env.now + maxSkew)
    (hsigned : ∀ e, r.find? p.outpoint = some e → e.operatorKey.Signed p.signature p.text) :
    weightOf (r.processPing p env).verdict =
      if r.seenPings.contains p.hash then 0 else pingFault p env.now := by
  unfold processPing
  split
  · rfl
  rw [← weightOf_checkPingTime hahead]
  dsimp only
  split
  · rename_i e he
    rw [he]
    rfl
  rename_i htime
  rw [htime]
  split
  · rfl
  rename_i e he
  split
  · rfl
  split
  · rename_i hrefused
    have hweight : weightOf ((r.rememberPing p).checkPing e p env) = 0 := weightOf_checkPing (hsigned e he)
    rw [hrefused] at hweight
    exact hweight
  split <;> rfl

/-! ## The peer behind some messages -/

/-- What a message that is pushed to a peer makes it go through. -/
def heard? (masternodes : Option Registry) (env : AnnounceEnv) : Outbound → Option Event
  | .push _ (.announcement _ a) => some (.announce masternodes a env)
  | .push _ (.ping _ p) => some (.ping p env)
  | _ => none

/-- A node that no announcement named is not known. -/
theorem announced_of_entry {params : ClassParams} {es : List Event} {o : OutPoint} {e : NodeEntry}
    (h : (run params es).find? o = some e) :
    ∃ masternodes a env, .announce masternodes a env ∈ es ∧ a.outpoint = o := by
  let Named (r : Registry) : Prop := r.Authentic ∧ ∀ (o : OutPoint) (e : NodeEntry), r.entries[o]? = some e →
    ∃ masternodes a env, .announce masternodes a env ∈ es ∧ a.outpoint = o
  suffices hnamed : Named (run params es) from hnamed.2 o e h
  refine List.foldlRecOn (motive := Named) es step ⟨authentic_empty params, ?_⟩ ?_
  · intro o e he
    simp [empty] at he
  · rintro r ⟨hauthentic, hnamed⟩ ev hev
    refine ⟨authentic_step hauthentic ev, ?_⟩
    intro o e' he'
    rcases step_entry hauthentic he' with ⟨e, he, -⟩ | ⟨masternodes, a, env, rfl, heq, -⟩
    · exact hnamed o e he
    · have hout : a.outpoint = e'.outpoint := (congrArg NodeEntry.outpoint heq).symm
      exact ⟨masternodes, a, env, hev, hout.trans (authentic_step hauthentic _ o e' he').outpoint_eq⟩

theorem unknown_before {params : ClassParams} {c : NodeClass} {peer : PeerId} {earlier later : List Announcement}
    (h : (earlier ++ a :: later).Pairwise fun a b => a.outpoint ≠ b.outpoint) :
    (run params ((earlier.flatMap (pushes c peer)).filterMap (heard? masternodes env))).find? a.outpoint = none := by
  rw [Option.eq_none_iff_forall_ne_some]
  intro e he
  obtain ⟨_, b, _, hev, ho⟩ := announced_of_entry he
  obtain ⟨m, hm, hheard⟩ := List.mem_filterMap.mp hev
  obtain ⟨b', hb', hm⟩ := List.mem_flatMap.mp hm
  have hne := (List.pairwise_append.mp h).2.2 b' hb' a List.mem_cons_self
  unfold pushes at hm
  rcases List.mem_cons.mp hm with rfl | hm
  · cases hheard
    exact hne ho
  · cases List.mem_singleton.mp hm
    cases hheard

/-- An entry that the first announcement of a node makes is of the announced operator, whose key its ping has passed. -/
theorem signed_of_first (hnone : r.find? a.outpoint = none) {e : NodeEntry}
    (he : (r.processAnnouncement masternodes a env).state.find? a.outpoint = some e) :
    e.operatorKey.Signed a.lastPing.signature a.lastPing.text := by
  have htaken := processAnnouncement_taken r masternodes a env
  have hentry : (r.processAnnouncement masternodes a env).state.entries[a.outpoint]? = some e := he
  generalize (r.processAnnouncement masternodes a env).verdict = verdict at htaken
  generalize (r.processAnnouncement masternodes a env).state.entries = entries at htaken hentry
  cases htaken with
  | refused => exact nomatch hentry.symm.trans hnone
  | refreshed _ hold => exact nomatch hold.symm.trans hnone
  | entered hmade _ _ _ =>
    rw [Table.lookup_insert, if_pos rfl] at hentry
    cases hentry
    have hkey : (r.fresh a env).operatorKey = a.operatorKey :=
      congrArg NodeEntry.operatorKey (announced_fresh r a env)
    rw [hkey, ← pingKey_of_none hnone]
    exact hmade.pingSigned
  | dropped =>
    rw [Table.lookup_erase, if_pos rfl] at hentry
    cases hentry

/-! ## Any answer -/

/-- A registry that only messages have written answers a list request at a time that is not earlier than any of them.
    A peer starts with no node and takes what is pushed to it, one message after the other. An announcement that it has
    not seen, with an address and a protocol that it takes, costs 1 if its ping was signed an hour or longer ago, else
    33 if its ping does not pass the announced operator key, else nothing; a ping that it has not seen costs 1 if it was
    signed an hour or longer ago, else nothing; all else costs nothing. A ping that does not pass the announced operator
    key passes the key of another operator of the same node. -/
theorem peers_punish_old_pings_and_pings_of_earlier_operators (params : ClassParams) (es : List Event) (peer : Peer)
    (requested : Option OutPoint) (mainnet : Bool) (masternodes : Option Registry) (env : AnnounceEnv)
    (before after : List Outbound) (m : Outbound) (htime : ∀ ev ∈ es, ev.time ≤ env.now)
    (hown : ∀ n c synced t, .manage n c synced t ∉ es)
    (hsent : ((run params es).processListRequest peer requested env.now mainnet).sent = before ++ m :: after) :
    let receiver := run params (before.filterMap (heard? masternodes env))
    (∀ id c a, m = .push id (.announcement c a) →
      weightOf (receiver.processAnnouncement masternodes a env).verdict =
        (if receiver.seenAnnouncements.contains a.hash ∨ ¬ Presentable masternodes a env then 0
        else announcementFault a env.now) ∧
      (a.operatorKey.Signed a.lastPing.signature a.lastPing.text ∨
        ∃ key, Operates es a.outpoint key ∧ key ≠ a.operatorKey ∧
          key.Signed a.lastPing.signature a.lastPing.text)) ∧
    (∀ id c p, m = .push id (.ping c p) →
      weightOf (receiver.processPing p env).verdict =
        if receiver.seenPings.contains p.hash then 0 else pingFault p env.now) := by
  intro receiver
  have hsound : ∀ a ∈ (run params es).listed requested, Sound es env.now a := by
    intro a ha
    obtain ⟨o, e, he, hannounced⟩ := mem_listed ha
    obtain ⟨b, hb, -, hsound⟩ := run_sound params htime hown o e he
    obtain rfl : b = a := Option.some.inj (hb.symm.trans hannounced)
    exact hsound
  rcases split_pushes (sent_processListRequest hsent) with hrest | ⟨earlier, a, later, hserved, hm⟩
  · -- the count at the end of the answer
    split at hrest
    · cases List.mem_singleton.mp hrest
      exact ⟨nofun, nofun⟩
    · cases hrest
  have hmem : a ∈ (run params es).listed requested := hserved ▸ List.mem_append_right earlier List.mem_cons_self
  have hs := hsound a hmem
  have hnone : ∀ c id, (run params ((earlier.flatMap (pushes c id)).filterMap (heard? masternodes env))).find?
      a.outpoint = none :=
    fun c id => unknown_before (hserved ▸ (run_filed params es).distinct_listed requested)
  rcases hm with ⟨rfl, rfl⟩ | ⟨rfl, rfl⟩
  · refine ⟨?_, nofun⟩
    rintro _ _ _ ⟨⟩
    refine ⟨weight_announcement hs (hnone _ _), ?_⟩
    obtain ⟨key, hoperates, hsigned⟩ := hs.pinged
    by_cases hkey : key = a.operatorKey
    · exact Or.inl (hkey ▸ hsigned)
    · exact Or.inr ⟨key, hoperates, hkey, hsigned⟩
  · refine ⟨nofun, ?_⟩
    rintro _ _ _ ⟨⟩
    refine weight_ping hs.pingNotAhead ?_
    intro e he
    have hreceiver : receiver = step (run params ((earlier.flatMap (pushes (run params es).nodeClass peer.id)).filterMap
        (heard? masternodes env))) (.announce masternodes a env) := by
      show run params _ = _
      rw [List.filterMap_append, run_append]
      rfl
    rw [hs.ownPing, hreceiver] at he
    exact signed_of_first (hnone _ _) he

/-! ## Two answers that are punished -/

/-- A new announcement of the node for a new operator, with a ping of the one before. The announcement's signature does
    not cover the ping. -/
def pingedByOldOperator : Announcement := { underNewOperator with lastPing := underOldOperator.lastPing }

/-- The node is announced, and then with its new operator. -/
def handedOver : List Event := announcedOnce ++ [.announce none pingedByOldOperator handoverEnv]

/-- An hour after the ping. -/
def hourLaterEnv : AnnounceEnv := { handoverEnv with now := underOldOperator.lastPing.sigTime + maxSkew }

/-- Who asks for the list. -/
def asker : Peer := ⟨1, ⟨.v4 0x7f000001, 9340, 0⟩, 70058⟩

set_option maxRecDepth 20000 in
theorem list_of_announcedOnce :
    ((run .masternode announcedOnce).processListRequest asker none hourLaterEnv.now false).sent =
      pushes .masternode 1 underOldOperator ++ [.push 1 (.syncCount .masternode .list 1)] := by
  rw [run_announcedOnce]
  decide +kernel

set_option maxRecDepth 20000 in
theorem list_of_handedOver :
    ((run .masternode handedOver).processListRequest asker none handoverEnv.now false).sent =
      pushes .masternode 1 pingedByOldOperator ++ [.push 1 (.syncCount .masternode .list 1)] := by
  unfold handedOver
  rw [run_append, run_announcedOnce]
  decide +kernel

set_option maxRecDepth 20000 in
/-- A node is still told of an hour after its ping, and both messages are punished. An announcement for a new operator
    with a ping of the old one is told by who has the node, and is punished by who has not. -/
theorem an_old_ping_and_a_ping_of_the_old_operator_are_punished :
    (((run .masternode announcedOnce).processListRequest asker none hourLaterEnv.now false).sent =
        pushes .masternode 1 underOldOperator ++ [.push 1 (.syncCount .masternode .list 1)] ∧
      weightOf ((empty .masternode).processAnnouncement none underOldOperator hourLaterEnv).verdict = 1 ∧
      weightOf ((run .masternode [.announce none underOldOperator hourLaterEnv]).processPing underOldOperator.lastPing
        hourLaterEnv).verdict = 1) ∧
    ((run .masternode handedOver).processListRequest asker none handoverEnv.now false).sent =
        pushes .masternode 1 pingedByOldOperator ++ [.push 1 (.syncCount .masternode .list 1)] ∧
      weightOf ((empty .masternode).processAnnouncement none pingedByOldOperator handoverEnv).verdict = 33 := by
  have honce := peers_punish_old_pings_and_pings_of_earlier_operators .masternode announcedOnce asker none false none
    hourLaterEnv
  have hover := peers_punish_old_pings_and_pings_of_earlier_operators .masternode handedOver asker none false none
    handoverEnv
  have hown : ∀ n c synced t, .manage n c synced t ∉ announcedOnce := by simp [announcedOnce]
  have hown' : ∀ n c synced t, .manage n c synced t ∉ handedOver := by simp [handedOver, announcedOnce]
  refine ⟨⟨list_of_announcedOnce, ?_, ?_⟩, list_of_handedOver, ?_⟩
  · have h := (honce [] _ _ (by decide) hown list_of_announcedOnce).1 _ _ _ rfl
    refine h.1.trans ?_
    decide +kernel
  · have h := (honce [.push 1 (.announcement .masternode underOldOperator)] _ _ (by decide) hown
      list_of_announcedOnce).2 _ _ _ rfl
    refine h.trans ?_
    decide +kernel
  · have h := (hover [] _ _ (by decide) hown' list_of_handedOver).1 _ _ _ rfl
    refine h.1.trans ?_
    decide +kernel

end Registry
end NodeQuorum
