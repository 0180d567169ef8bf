/-
  NodeQuorum.Proofs.Registry.Mirrored — what is remembered of a node is what its entry announces.

  A node stands in two places: in its entry, and in the announcement that is remembered under its hash and sent to who
  asks for that hash. The hash covers neither address nor operator key nor ping, so many announcements share it, and
  refused ones are remembered too. The two places agree nevertheless (`Mirrored`):
  - An announcement under a hash that is remembered is not looked at, so none is written over that of an entry
    (`mirrored_announcement`).
  - Two entries do not share a hash (`Mirrored.outpoint_of_hash`), so a ping that goes into an entry and into an
    announcement goes to one node (`mirrored_repinged`).
  - A sweep drops entries by their state and announcements by the age of their ping. An entry that it keeps was pinged
    within the removal time before the last look, and that look was not long ago (`NodeEntry.Timely`), so its
    announcement is kept with it (`mirrored_sweep`). Only here the order of the times matters.
-/

import NodeQuorum.Proofs.Registry.Life
import NodeQuorum.Proofs.Registry.Seen

namespace NodeQuorum

theorem ClassParams.checks_before_removal (c : NodeClass) :
    0 < (ClassParams.of c).removalSeconds ∧ (ClassParams.of c).checkSeconds ≤ (ClassParams.of c).removalSeconds := by
  cases c <;> decide

/-! ## The age of a ping at the last look -/

namespace NodeEntry

/-- The last look at an entry is not ahead of time, and if it found the entry alive or expired, the newest ping was
    then less than the removal time old. -/
structure Timely (e : NodeEntry) (p : ClassParams) (now : Int) : Prop where
  looked : e.lastChecked ≤ now
  pinged : e.state = .enabled ∨ e.state = .expired →
    ∃ ping : Ping, e.lastPing = some ping ∧ e.lastChecked - ping.sigTime < p.removalSeconds

variable {e : NodeEntry} {p : ClassParams} {t now : Int}

theorem Timely.later (h : e.Timely p t) (hle : t ≤ now) : e.Timely p now :=
  ⟨Int.le_trans h.looked hle, h.pinged⟩

/-- A node that is alive or expired was pinged within the removal time. -/
theorem pingedWithin_of_next {state : NodeState} {lastPing : Option Int} {ok : Bool}
    (h : state.next lastPing now ok p = .enabled ∨ state.next lastPing now ok p = .expired) :
    pingedWithin lastPing p.removalSeconds now = true := by
  unfold NodeState.next at h
  by_cases hspent : state = .spent
  · simp [hspent] at h
  · by_cases hpinged : pingedWithin lastPing p.removalSeconds now = true
    · exact hpinged
    · simp [hspent, hpinged] at h

theorem timely_of_due {c : Chain} {force : Bool} (hdue : e.IsDue p now force) :
    (e.check c p now force).Timely p now := by
  rw [check_of_due hdue]
  refine ⟨Int.le_refl now, ?_⟩
  intro hstate
  exact pingedWithin_iff.mp (pingedWithin_of_next hstate)

theorem Timely.check (h : e.Timely p t) (hle : t ≤ now) (c : Chain) (force : Bool) :
    (e.check c p now force).Timely p now := by
  by_cases hdue : e.IsDue p now force
  · exact timely_of_due hdue
  · rw [check_of_not_due hdue]
    exact h.later hle

/-- A ping of now makes no ping older. -/
theorem Timely.repinged (h : e.Timely p t) (hle : t ≤ now) (hremoval : 0 < p.removalSeconds) {ping : Ping}
    (hping : ping.sigTime = now) : ({ e with lastPing := some ping } : NodeEntry).Timely p now := by
  refine ⟨Int.le_trans h.looked hle, ?_⟩
  intro _
  refine ⟨ping, rfl, ?_⟩
  have hlooked := h.looked
  show e.lastChecked - ping.sigTime < p.removalSeconds
  omega

/-- After a look the newest ping of a node that is alive or expired is not older than twice the removal time. -/
theorem Timely.above_horizon (h : e.Timely p t) (hremoval : 0 < p.removalSeconds ∧ p.checkSeconds ≤ p.removalSeconds)
    {c : Chain} (hstate : (e.check c p now false).state = .enabled ∨ (e.check c p now false).state = .expired) :
    ∃ ping : Ping, e.lastPing = some ping ∧ now - 2 * p.removalSeconds ≤ ping.sigTime := by
  by_cases hdue : e.IsDue p now false
  · obtain ⟨ping, hping, hage⟩ := (timely_of_due (c := c) hdue).pinged hstate
    rw [check_of_due hdue] at hping hage
    dsimp only at hping hage
    exact ⟨ping, hping, by omega⟩
  · rw [check_of_not_due hdue] at hstate
    obtain ⟨ping, hping, hage⟩ := h.pinged hstate
    have hrecent : now - e.lastChecked < p.checkSeconds := Int.not_le.mp fun hold => hdue (Or.inr hold)
    exact ⟨ping, hping, by omega⟩

end NodeEntry

namespace Registry

variable {r r' : Registry} {t : Int}

/-! ## The local node's ping -/

/-- The local node leaves a registry alone, or puts a ping of now into the entry of its collateral. -/
theorem registry_manage (hfiled : r.Filed) (n : LocalNode) (c : Chain) (synced : Bool) (now : Int) :
    (n.manage r c synced now).registry = r ∨
    ∃ (e : NodeEntry) (p : Ping), r.entries[e.outpoint]? = some e ∧ p.sigTime = now ∧
      (n.manage r c synced now).registry = LocalNode.recordPing r e p := by
  have hsend : ∀ n : LocalNode, (n.sendPing r c now).registry = r ∨
      ∃ (e : NodeEntry) (p : Ping), r.entries[e.outpoint]? = some e ∧ p.sigTime = now ∧
        (n.sendPing r c now).registry = LocalNode.recordPing r e p := by
    intro n
    unfold LocalNode.sendPing
    split
    · exact Or.inl rfl
    rename_i o _
    split
    · exact Or.inl rfl
    rename_i e he
    split
    · exact Or.inl rfl
    split
    · exact Or.inl rfl
    · refine Or.inr ⟨e, _, ?_, rfl, rfl⟩
      rw [hfiled o e he]
      exact he
  unfold LocalNode.manage
  split
  · exact Or.inl rfl
  split
  · exact hsend n
  dsimp only
  split
  · exact hsend _
  · exact Or.inl rfl

/-! ## Every entry is timely -/

def AllTimely (r : Registry) (now : Int) : Prop :=
  ∀ (o : OutPoint) (e : NodeEntry), r.entries[o]? = some e → e.Timely r.params now

theorem AllTimely.later {now : Int} (h : AllTimely r t) (hle : t ≤ now) : AllTimely r now :=
  fun o e he => (h o e he).later hle

theorem timely_checkAll {now : Int} (h : AllTimely r t) (hle : t ≤ now) (c : Chain) (force : Bool) :
    AllTimely (r.checkAll c now force) now := by
  intro o e' he'
  obtain ⟨e, he, rfl⟩ := Option.map_eq_some_iff.mp ((find?_checkAll r c now force o).symm.trans he')
  exact (h o e he).check hle c force

theorem timely_announcement (h : AllTimely r t) (masternodes : Option Registry) (a : Announcement) {env : AnnounceEnv}
    (hle : t ≤ env.now) : AllTimely (r.processAnnouncement masternodes a env).state env.now := by
  have hlater := h.later hle
  have htaken := processAnnouncement_taken r masternodes a env
  unfold AllTimely
  rw [params_processAnnouncement]
  generalize (r.processAnnouncement masternodes a env).state.entries = after,
    (r.processAnnouncement masternodes a env).verdict = verdict at htaken ⊢
  cases htaken with
  | refused => exact hlater
  | refreshed => exact Table.forall_insert hlater (NodeEntry.timely_of_due (NodeEntry.isDue_force _ _ _))
  | entered =>
    exact Table.forall_insert (Table.forall_erase hlater a.outpoint)
      (NodeEntry.timely_of_due (NodeEntry.isDue_force _ _ _))
  | dropped => exact Table.forall_erase hlater a.outpoint

theorem timely_manage (hremoval : 0 < r.params.removalSeconds) (hfiled : r.Filed) (h : AllTimely r t) (n : LocalNode)
    (c : Chain) (synced : Bool) {now : Int} (hle : t ≤ now) : AllTimely (n.manage r c synced now).registry now := by
  have hparams := params_manage n r c synced now
  rcases registry_manage hfiled n c synced now with hsame | ⟨e, p, he, hp, hrecorded⟩
  · rw [hsame]
    exact h.later hle
  · intro o e' he'
    rw [hparams]
    rw [hrecorded, entries_recordPing, Table.lookup_modify] at he'
    split at he'
    · obtain ⟨old, hold, rfl⟩ := Option.map_eq_some_iff.mp he'
      exact (h o old hold).repinged hle hremoval hp
    · exact (h o e' he').later hle

theorem timely_step {c : NodeClass} (hclass : r.params = .of c) (hfiled : r.Filed) (h : AllTimely r t) (ev : Event)
    (hle : t ≤ ev.time) : AllTimely (step r ev) ev.time := by
  have hlater := h.later hle
  -- what leaves the entries alone leaves them timely
  have hsame : (step r ev).entries = r.entries → AllTimely (step r ev) ev.time := by
    intro hentries o e he
    rw [step_params]
    exact hlater o e (hentries ▸ he)
  cases ev with
  | announce masternodes a env => exact timely_announcement h masternodes a hle
  | ping p env =>
    rcases entries_processPing r p env with hentries | ⟨e, -, -, -, hentries⟩
    · exact hsame hentries
    · unfold AllTimely
      rw [step_params, show (step r (.ping p env)).entries = _ from hentries]
      exact Table.forall_insert hlater (NodeEntry.timely_of_due (NodeEntry.isDue_force _ _ _))
  | check chain now force => exact timely_checkAll h hle chain force
  | sweep chain now forceExpired minProtocol =>
    exact fun o e he => timely_checkAll h hle chain false o e (entry_of_sweep he)
  | manage n chain synced now =>
    refine timely_manage ?_ hfiled h n chain synced hle
    rw [hclass]
    exact (ClassParams.checks_before_removal c).1
  | askForEntry peer o now => exact hsame (entries_askForEntry r peer o now)
  | requestList peer now mainnet => exact hsame (entries_requestList r peer now mainnet)
  | serveList peer requested now mainnet => exact hsame (entries_processListRequest r peer requested now mainnet)

/-! ## Both places agree -/

/-- What an entry announces is remembered under its hash. -/
def Mirrored (r : Registry) : Prop :=
  ∀ (o : OutPoint) (e : NodeEntry), r.entries[o]? = some e →
    ∃ a, e.announcement? = some a ∧ r.seenAnnouncements[a.hash]? = some a

namespace Mirrored

theorem same (h : Mirrored r) (hentries : r'.entries = r.entries)
    (hseen : r'.seenAnnouncements = r.seenAnnouncements) : Mirrored r' := by
  intro o e he
  rw [hseen]
  exact h o e (hentries ▸ he)

theorem checkAll (h : Mirrored r) (c : Chain) (now : Int) (force : Bool) : Mirrored (r.checkAll c now force) := by
  intro o e' he'
  obtain ⟨e, he, rfl⟩ := Option.map_eq_some_iff.mp ((find?_checkAll r c now force o).symm.trans he')
  rw [NodeEntry.announcement?_check]
  exact h o e he

/-- Entries of two nodes do not share a hash. -/
theorem outpoint_of_hash (h : Mirrored r) (hfiled : r.Filed) {o o' : OutPoint} {e e' : NodeEntry} {a a' : Announcement}
    (he : r.entries[o]? = some e) (he' : r.entries[o']? = some e') (ha : e.announcement? = some a)
    (ha' : e'.announcement? = some a') (hhash : a.hash = a'.hash) : o = o' := by
  obtain ⟨b, hb, hseen⟩ := h o e he
  obtain ⟨b', hb', hseen'⟩ := h o' e' he'
  obtain rfl : b = a := Option.some.inj (hb.symm.trans ha)
  obtain rfl : b' = a' := Option.some.inj (hb'.symm.trans ha')
  rw [hhash, hseen', Option.some.injEq] at hseen
  subst hseen
  rw [← hfiled o e he, ← hfiled o' e' he', ← (NodeEntry.outpoint_of_announcement? ha).1,
    (NodeEntry.outpoint_of_announcement? ha').1]

end Mirrored

/-! ## An announcement -/

theorem mirrored_announcement (h : Mirrored r) (hfiled : r.Filed) (masternodes : Option Registry) (a : Announcement)
    (env : AnnounceEnv) : Mirrored (r.processAnnouncement masternodes a env).state := by
  by_cases hknown : r.seenAnnouncements.contains a.hash = true
  · rw [(processAnnouncement_of_seen hknown masternodes env).2]
    exact h
  -- the hash is new, so it is that of no entry
  have hother : ∀ {b : Announcement}, r.seenAnnouncements[b.hash]? = some b → a.hash ≠ b.hash := by
    intro b hb hhash
    rw [hhash] at hknown
    exact hknown (Table.contains_of_lookup hb)
  have hinsert : ∀ {b : Announcement}, r.seenAnnouncements[b.hash]? = some b →
      (r.seenAnnouncements.insert a.hash a)[b.hash]? = some b := by
    intro b hb
    rw [Table.lookup_insert, if_neg (hother hb), hb]
  rcases announcement_cases r masternodes a env with ⟨hsame, -⟩ | honly | ⟨hforgotten, -⟩
  · rw [hsame]
    exact h
  · have hseen : (r.processAnnouncement masternodes a env).state.seenAnnouncements =
        r.seenAnnouncements.insert a.hash a := honly.announcements
    have htaken := processAnnouncement_taken r masternodes a env
    have hold : ∀ (o : OutPoint) (e : NodeEntry), r.entries[o]? = some e →
        ∃ b, e.announcement? = some b ∧ (r.seenAnnouncements.insert a.hash a)[b.hash]? = some b := by
      intro o e he
      obtain ⟨b, hb, hremembered⟩ := h o e he
      exact ⟨b, hb, hinsert hremembered⟩
    have hnew : (r.seenAnnouncements.insert a.hash a)[a.hash]? = some a := Std.ExtTreeMap.getElem?_insert_self
    unfold Mirrored
    rw [hseen]
    generalize (r.processAnnouncement masternodes a env).state.entries = after,
      (r.processAnnouncement masternodes a env).verdict = verdict at htaken ⊢
    cases htaken with
    | refused => exact hold
    | @refreshed e _ he _ _ _ =>
      refine Table.forall_insert hold ⟨a, ?_, hnew⟩
      rw [NodeEntry.announcement?_check, NodeEntry.announcement?_update (hfiled a.outpoint e he)]
    | entered =>
      refine Table.forall_insert (Table.forall_erase hold a.outpoint) ⟨a, ?_, hnew⟩
      unfold fresh
      rw [NodeEntry.announcement?_check]
      rfl
    | dropped => exact Table.forall_erase hold a.outpoint
  · rw [hforgotten]
    intro o e he
    obtain ⟨b, hb, hremembered⟩ := h o e he
    refine ⟨b, hb, ?_⟩
    show ((r.seenAnnouncements.insert a.hash a).erase a.hash)[b.hash]? = some b
    rw [Table.lookup_erase, if_neg (hother hremembered), hinsert hremembered]

/-! ## A ping -/

/-- A ping that is put into an entry and into the announcement that the entry stood for. -/
theorem mirrored_repinged (h : Mirrored r) (hfiled : r.Filed) {o : OutPoint} {e : NodeEntry} {a : Announcement}
    {p : Ping} (he : r.entries[o]? = some e) (ha : e.announcement? = some a)
    (hseen : r'.seenAnnouncements = r.seenAnnouncements.modify a.hash fun a => { a with lastPing := p })
    (hat : ∀ e', r'.entries[o]? = some e' → e'.announcement? = some { a with lastPing := p })
    (helse : ∀ o', o ≠ o' → r'.entries[o']? = r.entries[o']?) : Mirrored r' := by
  intro o' e' he'
  rw [hseen]
  by_cases ho : o = o'
  · subst ho
    refine ⟨_, hat e' he', ?_⟩
    obtain ⟨b, hb, hremembered⟩ := h o e he
    obtain rfl : b = a := Option.some.inj (hb.symm.trans ha)
    -- the hash does not cover the ping
    show (r.seenAnnouncements.modify b.hash _)[b.hash]? = _
    rw [Table.lookup_modify, if_pos rfl, hremembered]
    rfl
  · rw [helse o' ho] at he'
    obtain ⟨b, hb, hremembered⟩ := h o' e' he'
    refine ⟨b, hb, ?_⟩
    rw [Table.lookup_modify, if_neg fun hhash => ho (h.outpoint_of_hash hfiled he he' ha hb hhash), hremembered]

/-- What a ping does: nothing here, or it is put into the entry that it names and into its announcement. -/
theorem processPing_takes (r : Registry) (p : Ping) (env : AnnounceEnv) :
    ((r.processPing p env).state.entries = r.entries ∧
      (r.processPing p env).state.seenAnnouncements = r.seenAnnouncements) ∨
    ∃ e, r.entries[p.outpoint]? = some e ∧
      (r.processPing p env).state = (r.rememberPing p).takePing e p env := by
  unfold processPing
  split
  · exact Or.inl ⟨rfl, rfl⟩
  dsimp only
  split
  · exact Or.inl ⟨rfl, rfl⟩
  split
  · exact Or.inl ⟨rfl, rfl⟩
  rename_i e he
  split
  · exact Or.inl ⟨rfl, rfl⟩
  split
  · exact Or.inl ⟨rfl, rfl⟩
  · refine Or.inr ⟨e, he, ?_⟩
    split <;> rfl

theorem mirrored_ping (h : Mirrored r) (hfiled : r.Filed) (p : Ping) (env : AnnounceEnv) :
    Mirrored (r.processPing p env).state := by
  rcases processPing_takes r p env with ⟨hentries, hseen⟩ | ⟨e, he, htaken⟩
  · exact h.same hentries hseen
  obtain ⟨a, ha, -⟩ := h p.outpoint e he
  have htake : (r.rememberPing p).takePing e p env =
      { (r.rememberPing p).refreshAnnouncement a.hash p with
        entries := r.entries.insert p.outpoint
          ({ e with lastPing := some p }.check env.chain r.params env.now true) } := by
    unfold takePing
    rw [ha]
    rfl
  rw [htaken, htake]
  refine mirrored_repinged h hfiled he ha rfl ?_ ?_
  · intro e' he'
    dsimp only at he'
    rw [Table.lookup_insert, if_pos rfl] at he'
    cases he'
    rw [NodeEntry.announcement?_check]
    exact NodeEntry.announcement?_ping ha p
  · intro o' ho
    dsimp only
    rw [Table.lookup_insert, if_neg ho]

theorem mirrored_manage (h : Mirrored r) (hfiled : r.Filed) (n : LocalNode) (c : Chain) (synced : Bool) (now : Int) :
    Mirrored (n.manage r c synced now).registry := by
  rcases registry_manage hfiled n c synced now with hsame | ⟨e, p, he, -, hrecorded⟩
  · rw [hsame]
    exact h
  obtain ⟨a, ha, -⟩ := h e.outpoint e he
  have hentries := entries_recordPing r e p
  have hseen : (LocalNode.recordPing r e p).seenAnnouncements =
      r.seenAnnouncements.modify a.hash fun a => { a with lastPing := p } := by
    unfold LocalNode.recordPing
    rw [ha]
    rfl
  rw [hrecorded]
  refine mirrored_repinged h hfiled he ha hseen ?_ ?_
  · intro e' he'
    rw [hentries, Table.lookup_modify, if_pos rfl, he] at he'
    cases he'
    exact NodeEntry.announcement?_ping ha p
  · intro o' ho
    rw [hentries, Table.lookup_modify, if_neg ho]

/-! ## The sweep -/

/-- A sweep that keeps an entry keeps its announcement. -/
theorem mirrored_sweep (h : Mirrored r) (hfiled : r.Filed) (htimely : AllTimely r t)
    (hremoval : 0 < r.params.removalSeconds ∧ r.params.checkSeconds ≤ r.params.removalSeconds) (c : Chain) (now : Int)
    (forceExpired : Bool) (minProtocol : Nat) : Mirrored (r.sweep c now forceExpired minProtocol).1 := by
  intro o e' he'
  have hlooked := entry_of_sweep he'
  obtain ⟨e, he, rfl⟩ := Option.map_eq_some_iff.mp ((find?_checkAll r c now false o).symm.trans hlooked)
  obtain ⟨a, ha, hremembered⟩ := h o e he
  have hat : a.outpoint = o := (NodeEntry.outpoint_of_announcement? ha).1.trans (hfiled o e he)
  refine ⟨a, (NodeEntry.announcement?_check e c r.params now false).trans ha, ?_⟩
  unfold sweep at he' ⊢
  dsimp only at he' ⊢
  rw [Std.ExtTreeMap.getElem?_filter', Option.filter_eq_some_iff] at he' ⊢
  obtain ⟨-, hkept⟩ := he'
  refine ⟨hremembered, ?_⟩
  have hundoomed := of_decide_eq_true hkept
  rw [decide_eq_true_eq, hat]
  refine ⟨hundoomed, ?_⟩
  -- what is neither alive nor expired is dropped
  have hstate : (e.check c r.params now false).state = .enabled ∨
      (e.check c r.params now false).state = .expired := by
    refine Classical.byContradiction ?_
    intro hdead
    refine hundoomed (List.mem_map.mpr ⟨e.check c r.params now false, List.mem_filter.mpr ⟨?_, ?_⟩, ?_⟩)
    · exact Table.mem_values.mpr ⟨o, hlooked⟩
    · unfold isDoomed
      cases hs : (e.check c r.params now false).state with
      | enabled => exact absurd (Or.inl hs) hdead
      | expired => exact absurd (Or.inr hs) hdead
      | remove => rfl
      | spent => rfl
    · rw [NodeEntry.outpoint_check, hfiled o e he]
  obtain ⟨ping, hping, hage⟩ := (htimely o e he).above_horizon hremoval hstate
  obtain ⟨ping', hping', rfl⟩ := Option.map_eq_some_iff.mp ha
  rw [hping, Option.some.injEq] at hping'
  subst hping'
  exact hage

/-! ## Lists -/

/-- Serving a list writes over nothing that is remembered. -/
theorem remembered_after_serve (peer : PeerId) (requested : Option OutPoint) {hash : Hash} {a : Announcement}
    (h : r.seenAnnouncements[hash]? = some a) :
    (r.serve peer requested).1.seenAnnouncements[hash]? = some a := by
  have hfold : ∀ (served : List Announcement) (seen : Table Hash Announcement), seen[hash]? = some a →
      (served.foldl (fun t b => t.insertIfNew b.hash b) seen)[hash]? = some a := by
    intro served
    induction served with
    | nil => exact fun _ hseen => hseen
    | cons b rest ih =>
      intro seen hseen
      refine ih _ ?_
      rw [Table.lookup_insertIfNew, hseen, Option.some_or]
  exact hfold (r.listed requested) r.seenAnnouncements h

theorem mirrored_listRequest (h : Mirrored r) (peer : Peer) (requested : Option OutPoint) (now : Int)
    (mainnet : Bool) : Mirrored (r.processListRequest peer requested now mainnet).state := by
  have hserve : ∀ {r : Registry}, Mirrored r → Mirrored (r.serve peer.id requested).1 := by
    intro r h o e he
    obtain ⟨a, ha, hremembered⟩ := h o e he
    exact ⟨a, ha, remembered_after_serve peer.id requested hremembered⟩
  unfold processListRequest
  dsimp only
  split
  · split
    · exact h
    · have hasked : Mirrored { r with askedUs := r.askedUs.insert peer.address.ip (now + listRequestSeconds) } :=
        h.same rfl rfl
      exact hserve hasked
  · exact hserve h

/-! ## Every run -/

theorem mirrored_step {c : NodeClass} (hclass : r.params = .of c) (hfiled : r.Filed) (htimely : AllTimely r t)
    (h : Mirrored r) (ev : Event) : Mirrored (step r ev) := by
  cases ev with
  | announce masternodes a env => exact mirrored_announcement h hfiled masternodes a env
  | ping p env => exact mirrored_ping h hfiled p env
  | check chain now force => exact h.checkAll chain now force
  | sweep chain now forceExpired minProtocol =>
    refine mirrored_sweep h hfiled htimely ?_ chain now forceExpired minProtocol
    rw [hclass]
    exact ClassParams.checks_before_removal c
  | manage n chain synced now => exact mirrored_manage h hfiled n chain synced now
  | askForEntry peer o now =>
    refine h.same (entries_askForEntry r peer o now) ?_
    unfold step askForEntry
    dsimp only
    split <;> rfl
  | requestList peer now mainnet =>
    refine h.same (entries_requestList r peer now mainnet) ?_
    unfold step requestList
    dsimp only
    split
    · split <;> rfl
    · rfl
  | serveList peer requested now mainnet => exact mirrored_listRequest h peer requested now mainnet

/-- Along events whose times do not go back, entries stay timely and both places agree. -/
theorem mirrored_foldl {c : NodeClass} (hclass : r.params = .of c) (hfiled : r.Filed) (htimely : AllTimely r t)
    (h : Mirrored r) {es : List Event} (hstart : ∀ ev ∈ es, t ≤ ev.time)
    (hclock : (es.map Event.time).Pairwise (· ≤ ·)) : Mirrored (es.foldl step r) := by
  induction es generalizing r t with
  | nil => exact h
  | cons ev rest ih =>
    obtain ⟨hlater, hrest⟩ := List.pairwise_cons.mp hclock
    have hle : t ≤ ev.time := hstart ev List.mem_cons_self
    refine ih (r := step r ev) (t := ev.time) ?_ ?_ ?_ ?_ ?_ hrest
    · rw [step_params, hclass]
    · exact filed_step hfiled ev
    · exact timely_step hclass hfiled htimely ev hle
    · exact mirrored_step hclass hfiled htimely h ev
    · exact fun ev' hev' => hlater ev'.time (List.mem_map_of_mem hev')

theorem run_mirrored (c : NodeClass) {es : List Event} (hclock : (es.map Event.time).Pairwise (· ≤ ·)) :
    Mirrored (run (.of c) es) := by
  have hnone : ∀ {o : OutPoint} {e : NodeEntry}, (empty (.of c)).entries[o]? ≠ some e := by
    intro o e
    simp [empty]
  cases es with
  | nil => exact fun o e he => absurd he hnone
  | cons ev rest =>
    refine mirrored_foldl (t := ev.time) rfl (fun o e he => absurd he hnone) (fun o e he => absurd he hnone)
      (fun o e he => absurd he hnone) ?_ hclock
    intro ev' hev'
    rcases List.mem_cons.mp hev' with rfl | hlater
    · exact Int.le_refl _
    · exact (List.pairwise_cons.mp hclock).1 ev'.time (List.mem_map_of_mem hlater)

/-- In every run whose times do not go back, announcements and pings are remembered under their own hashes, and every
    entry stands for an announcement that is remembered under its hash exactly as the entry has it, with the newest
    ping. So who asks for a list and who asks for a hash get the same announcement of a node. -/
theorem the_remembered_announcement_of_a_node_is_that_of_its_entry (c : NodeClass) (es : List Event)
    (hclock : (es.map Event.time).Pairwise (· ≤ ·)) :
    let r := run (.of c) es
    (∀ (hash : Hash) (a : Announcement), r.seenAnnouncements[hash]? = some a → a.hash = hash) ∧
    (∀ (hash : Hash) (p : Ping), r.seenPings[hash]? = some p → p.hash = hash) ∧
    (∀ (o : OutPoint) (e : NodeEntry), r.entries[o]? = some e →
      ∃ a, e.announcement? = some a ∧ r.seenAnnouncements[a.hash]? = some a) ∧
    ∀ requested, ∀ a ∈ r.listed requested, r.seenAnnouncements[a.hash]? = some a := by
  intro r
  have hindexed : Indexed r := run_indexed (.of c) es
  have hmirrored : Mirrored r := run_mirrored c hclock
  refine ⟨hindexed.announcements, hindexed.pings, hmirrored, ?_⟩
  intro requested a ha
  obtain ⟨o, e, he, hannounced⟩ := mem_listed ha
  obtain ⟨b, hb, hremembered⟩ := hmirrored o e he
  obtain rfl : b = a := Option.some.inj (hb.symm.trans hannounced)
  exact hremembered

set_option maxRecDepth 20000 in
/-- A node that was announced twice is listed and remembered with its second announcement. -/
theorem a_node_that_is_announced_anew_is_remembered_as_it_is_listed :
    (handedOver.map Event.time).Pairwise (· ≤ ·) ∧
    pingedByOldOperator ∈ (run (.of .masternode) handedOver).listed none ∧
    (run (.of .masternode) handedOver).seenAnnouncements[pingedByOldOperator.hash]? = some pingedByOldOperator := by
  have hclock : (handedOver.map Event.time).Pairwise (· ≤ ·) := by decide
  have hlisted : pingedByOldOperator ∈ (run (.of .masternode) handedOver).listed none := by
    unfold handedOver
    rw [run_append, show ClassParams.of .masternode = .masternode from rfl, run_announcedOnce]
    decide +kernel
  exact ⟨hclock, hlisted, (the_remembered_announcement_of_a_node_is_that_of_its_entry .masternode handedOver
    hclock).2.2.2 none _ hlisted⟩

end Registry
end NodeQuorum
