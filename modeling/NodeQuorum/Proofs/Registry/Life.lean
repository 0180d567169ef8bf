/-
  NodeQuorum.Proofs.Registry.Life — a spent collateral is final, and enabled means funded and pinged.

  States are looked at lazily: by a look at all nodes, by a sweep, by a ping and by an announcement, and a look at all
  nodes passes over those that were looked at a short while ago. Between two looks a state may be out of date.
  - `isEnabled_check_iff`: a look finds an entry enabled exactly if it is sustained (`Sustained`).
  - `step_life`: an event leaves the state of an entry as it is, or looks at it, or is a newer announcement by the owner
    of the collateral that puts a new entry there (`Life`). Pings, refreshments and this node's own pings revive nobody.
  - `Filed.leftOut`: a node that is not enabled is in no answer of the registry (`LeftOut`), whether or not it was
    looked at.
  `spent_is_final_and_enabled_is_funded_and_pinged` puts them together for every run.
-/

import NodeQuorum.Proofs.Registry.Serving

namespace NodeQuorum

/-! ## One look -/

namespace NodeEntry

/-- What a look asks of an entry: it is not spent yet, its coin is there with exactly the collateral, and its newest
    ping is less than the expiration time old. -/
structure Sustained (e : NodeEntry) (c : Chain) (p : ClassParams) (now : Int) : Prop where
  unspent : e.state ≠ .spent
  funded : ∃ coin : Coin, c.coins[e.outpoint]? = some coin ∧ coin.value = p.collateral
  pinged : ∃ ping : Ping, e.lastPing = some ping ∧ now - ping.sigTime < p.expirationSeconds

/-- A look is taken if it is forced, or if the last one was long enough ago. -/
def IsDue (e : NodeEntry) (p : ClassParams) (now : Int) (force : Bool) : Prop :=
  force = true ∨ p.checkSeconds ≤ now - e.lastChecked

variable {e : NodeEntry} {c : Chain} {p : ClassParams} {now : Int} {force : Bool}

theorem holdsCollateral_iff {o : OutPoint} :
    c.holdsCollateral o p = true ↔ ∃ coin : Coin, c.coins[o]? = some coin ∧ coin.value = p.collateral := by
  unfold Chain.holdsCollateral
  split
  · rename_i coin hcoin
    simp [hcoin]
  · rename_i hnone
    simp [hnone]

theorem pingedWithin_iff {seconds : Int} :
    pingedWithin e.lastPingTime seconds now = true ↔
      ∃ ping : Ping, e.lastPing = some ping ∧ now - ping.sigTime < seconds := by
  unfold lastPingTime
  cases e.lastPing with
  | none => simp [pingedWithin]
  | some ping => simp [pingedWithin]

theorem check_of_not_due (h : ¬ e.IsDue p now force) : e.check c p now force = e := by
  unfold IsDue at h
  unfold check
  rw [if_pos ⟨fun hforce => h (Or.inl hforce), Int.not_le.mp fun hold => h (Or.inr hold)⟩]

theorem check_of_due (h : e.IsDue p now force) :
    e.check c p now force =
      { e with
        lastChecked := now
        state := e.state.next e.lastPingTime now (c.holdsCollateral e.outpoint p) p } := by
  unfold check
  refine if_neg ?_
  rintro ⟨hforce, hrecent⟩
  rcases h with h | h
  · exact hforce h
  · omega

theorem isDue_force (e : NodeEntry) (p : ClassParams) (now : Int) : e.IsDue p now true := Or.inl rfl

@[simp] theorem outpoint_check (e : NodeEntry) (c : Chain) (p : ClassParams) (now : Int) (force : Bool) :
    (e.check c p now force).outpoint = e.outpoint :=
  congrArg (fun x => x.outpoint) (announced_check e c p now force)

/-- A look finds an entry enabled exactly if it is sustained. -/
theorem isEnabled_check_iff (horder : p.expirationSeconds ≤ p.removalSeconds) (hdue : e.IsDue p now force) :
    (e.check c p now force).isEnabled = true ↔ e.Sustained c p now := by
  have hboth : pingedWithin e.lastPingTime p.expirationSeconds now = true →
      pingedWithin e.lastPingTime p.removalSeconds now = true := by
    rw [pingedWithin_iff, pingedWithin_iff]
    rintro ⟨ping, hping, hage⟩
    exact ⟨ping, hping, by omega⟩
  have hparts : e.Sustained c p now ↔ e.state ≠ .spent ∧ c.holdsCollateral e.outpoint p = true ∧
      pingedWithin e.lastPingTime p.expirationSeconds now = true := by
    rw [holdsCollateral_iff, pingedWithin_iff]
    exact ⟨fun h => ⟨h.unspent, h.funded, h.pinged⟩, fun h => ⟨h.1, h.2.1, h.2.2⟩⟩
  rw [check_of_due hdue, hparts]
  unfold isEnabled NodeState.next
  dsimp only
  by_cases hspent : e.state = .spent
  · simp [hspent]
  by_cases hexpired : pingedWithin e.lastPingTime p.expirationSeconds now = true
  · simp [hspent, hexpired, hboth hexpired]
  · by_cases hremoved : pingedWithin e.lastPingTime p.removalSeconds now = true
    · simp [hspent, hexpired, hremoved]
    · simp [hspent, hexpired, hremoved]

theorem isEnabled_of_spent (h : e.state = .spent) : e.isEnabled = false := by
  unfold isEnabled
  rw [h]
  rfl

/-- No look revives a spent entry. -/
theorem state_check_of_spent (h : e.state = .spent) : (e.check c p now force).state = .spent := by
  by_cases hdue : e.IsDue p now force
  · rw [check_of_due hdue]
    unfold NodeState.next
    exact if_pos h
  · rw [check_of_not_due hdue, h]

end NodeEntry

theorem ClassParams.expires_before_removal (c : NodeClass) :
    (ClassParams.of c).expirationSeconds ≤ (ClassParams.of c).removalSeconds := by
  cases c <;> decide

namespace Registry

/-! ## What an event does to an entry -/

/-- The chain that an event sees. -/
def Event.chain? : Event → Option Chain
  | .announce _ _ env | .ping _ env => some env.chain
  | .check c _ _ | .sweep c _ _ _ | .manage _ c _ _ => some c
  | .askForEntry .. | .requestList .. | .serveList .. => none

/-- How an entry that is there after an event came to be what it is. -/
inductive Life (r : Registry) (ev : Event) (o : OutPoint) (e' : NodeEntry) : Prop
  /-- Nobody looked at it. -/
  | idle {e : NodeEntry} : r.entries[o]? = some e → e'.announced = e.announced → e'.state = e.state →
      e'.lastChecked = e.lastChecked → Life r ev o e'
  /-- It was looked at, be it with a new ping or under a newer announcement. -/
  | looked {e x : NodeEntry} {c : Chain} {force : Bool} : r.entries[o]? = some e → x.state = e.state →
      (e.isEnabled = false → x.announced = e.announced) → x.outpoint = o → x.IsDue r.params ev.time force →
      ev.chain? = some c → e' = x.check c r.params ev.time force → Life r ev o e'
  /-- A newer announcement by the owner of the collateral put it there. -/
  | entered {masternodes : Option Registry} {a : Announcement} {env : AnnounceEnv} :
      ev = .announce masternodes a env → a.outpoint = o → (∀ e, r.entries[o]? = some e → e.sigTime < a.sigTime) →
      Owned env.chain r.params o a.collateralKey a.sigTime → e' = r.fresh a env → e'.isEnabled = true → Life r ev o e'

namespace Life

variable {r : Registry} {ev : Event} {o : OutPoint} {e' : NodeEntry}

/-- An entry that was only told from others, or not at all. -/
theorem same (he : r.entries[o]? = some e') : Life r ev o e' := .idle he rfl rfl rfl

/-- A look at an entry, which may have come too soon. -/
theorem check {e : NodeEntry} {c : Chain} {force : Bool} (hfiled : r.Filed) (he : r.entries[o]? = some e)
    (hc : ev.chain? = some c) : Life r ev o (e.check c r.params ev.time force) := by
  by_cases hdue : e.IsDue r.params ev.time force
  · exact .looked he rfl (fun _ => rfl) (hfiled o e he) hdue hc rfl
  · rw [NodeEntry.check_of_not_due hdue]
    exact same he

/-- What was spent is spent, unless a new entry was put there. -/
theorem spent (h : Life r ev o e') {e : NodeEntry} (he : r.entries[o]? = some e) (hspent : e.state = .spent) :
    (e'.state = .spent ∧ e'.announced = e.announced) ∨
    ∃ masternodes a env, ev = .announce masternodes a env ∧ a.outpoint = o ∧ e.sigTime < a.sigTime ∧
      Owned env.chain r.params o a.collateralKey a.sigTime ∧ e' = r.fresh a env := by
  cases h with
  | @idle e₀ he₀ hannounced hstate =>
    obtain rfl : e₀ = e := Option.some.inj (he₀.symm.trans he)
    exact Or.inl ⟨hstate.trans hspent, hannounced⟩
  | @looked e₀ x c force he₀ hstate hannounced _ _ _ heq =>
    obtain rfl : e₀ = e := Option.some.inj (he₀.symm.trans he)
    subst heq
    refine Or.inl ⟨NodeEntry.state_check_of_spent (hstate.trans hspent), ?_⟩
    rw [NodeEntry.announced_check]
    exact hannounced (NodeEntry.isEnabled_of_spent hspent)
  | @entered masternodes a env hev ho hnewer howned heq _ =>
    exact Or.inr ⟨masternodes, a, env, hev, ho, hnewer e he, howned, heq⟩

end Life

variable {r : Registry}

theorem life_announcement (hfiled : r.Filed) (masternodes : Option Registry) (a : Announcement) (env : AnnounceEnv)
    {o : OutPoint} {e' : NodeEntry} (he' : (step r (.announce masternodes a env)).entries[o]? = some e') :
    Life r (.announce masternodes a env) o e' := by
  have ht := processAnnouncement_taken r masternodes a env
  change (r.processAnnouncement masternodes a env).state.entries[o]? = some e' at he'
  generalize (r.processAnnouncement masternodes a env).state.entries = after,
    (r.processAnnouncement masternodes a env).verdict = verdict at ht he'
  by_cases ho : a.outpoint = o
  · subst ho
    cases ht with
    | refused => exact .same he'
    | @refreshed e _ he _ hon _ =>
      rw [Table.lookup_insert, if_pos rfl] at he'
      cases he'
      refine .looked (x := e.update a) he rfl ?_ (hfiled a.outpoint e he) (NodeEntry.isDue_force _ _ _) rfl rfl
      intro hoff
      rw [hon] at hoff
      cases hoff
    | entered _ hnewer howned hon =>
      rw [Table.lookup_insert, if_pos rfl] at he'
      cases he'
      exact .entered rfl rfl hnewer howned rfl hon
    | dropped =>
      rw [Table.lookup_erase, if_pos rfl] at he'
      cases he'
  -- an announcement of another output
  · exact .same (ht.lookup_of_ne ho ▸ he')

theorem life_ping (hfiled : r.Filed) (p : Ping) (env : AnnounceEnv) {o : OutPoint} {e' : NodeEntry}
    (he' : (step r (.ping p env)).entries[o]? = some e') : Life r (.ping p env) o e' := by
  change (r.processPing p env).state.entries[o]? = some e' at he'
  rcases entries_processPing r p env with hsame | ⟨e, he, -, -, hentries⟩
  · exact .same (hsame ▸ he')
  rw [hentries, Table.lookup_insert] at he'
  by_cases ho : p.outpoint = o
  · rw [if_pos ho] at he'
    cases he'
    subst ho
    exact .looked (x := { e with lastPing := some p }) he rfl (fun _ => rfl) (hfiled p.outpoint e he)
      (NodeEntry.isDue_force _ _ _) rfl rfl
  · rw [if_neg ho] at he'
    exact .same he'

/-- Every event leaves the state of an entry as it is, or looks at it, or puts a new entry there. -/
theorem step_life (hfiled : r.Filed) {ev : Event} {o : OutPoint} {e' : NodeEntry}
    (he' : (step r ev).entries[o]? = some e') : Life r ev o e' := by
  cases ev with
  | announce masternodes a env => exact life_announcement hfiled masternodes a env he'
  | ping p env => exact life_ping hfiled p env he'
  | check c now force =>
    obtain ⟨e, he, rfl⟩ := Option.map_eq_some_iff.mp ((find?_checkAll r c now force o).symm.trans he')
    exact .check hfiled he rfl
  | sweep c now forceExpired minProtocol =>
    obtain ⟨e, he, rfl⟩ := Option.map_eq_some_iff.mp
      ((find?_checkAll r c now false o).symm.trans (entry_of_sweep he'))
    exact .check hfiled he rfl
  | manage n c synced now =>
    obtain ⟨e, _, he, rfl⟩ := entry_of_manage he'
    exact .idle he rfl rfl rfl
  | askForEntry peer o' now => exact .same (entries_askForEntry r peer o' now ▸ he')
  | requestList peer now mainnet => exact .same (entries_requestList r peer now mainnet ▸ he')
  | serveList peer requested now mainnet => exact .same (entries_processListRequest r peer requested now mainnet ▸ he')

/-! ## Spent is final -/

/-- An event takes the entry of an output away, or it is an announcement that is newer than the entry, by the owner of
    the collateral, and puts a new entry in the place of it. -/
inductive Released (r : Registry) (o : OutPoint) (ev : Event) : Prop
  | removed : (step r ev).entries[o]? = none → Released r o ev
  | replaced {masternodes : Option Registry} {a : Announcement} {env : AnnounceEnv} {e : NodeEntry} :
      ev = .announce masternodes a env → a.outpoint = o → r.entries[o]? = some e → e.sigTime < a.sigTime →
      Owned env.chain r.params o a.collateralKey a.sigTime → (step r ev).entries[o]? = some (r.fresh a env) →
      Released r o ev

theorem spent_step (hfiled : r.Filed) (ev : Event) {o : OutPoint} {e : NodeEntry} (he : r.entries[o]? = some e)
    (hspent : e.state = .spent) :
    (∃ e', (step r ev).entries[o]? = some e' ∧ e'.state = .spent ∧ e'.announced = e.announced) ∨ Released r o ev := by
  cases he' : (step r ev).entries[o]? with
  | none => exact Or.inr (.removed he')
  | some e' =>
    rcases (step_life hfiled he').spent he hspent with ⟨hstate, hannounced⟩ | ⟨masternodes, a, env, hev, ho, hnewer,
      howned, rfl⟩
    · exact Or.inl ⟨e', rfl, hstate, hannounced⟩
    · exact Or.inr (.replaced hev ho he hnewer howned he')

theorem filed_step (hfiled : r.Filed) (ev : Event) : (step r ev).Filed := by
  intro o e' he'
  cases step_life hfiled he' with
  | @idle e he hannounced =>
    have hout : e'.outpoint = e.outpoint := congrArg (fun e => e.outpoint) hannounced
    exact hout.trans (hfiled o e he)
  | looked _ _ _ hx _ _ heq =>
    rw [heq, NodeEntry.outpoint_check, hx]
  | @entered masternodes a env _ ho _ _ heq _ =>
    have hout : (r.fresh a env).outpoint = a.outpoint := congrArg (fun e => e.outpoint) (announced_fresh r a env)
    rw [heq, hout, ho]

/-- A spent entry is spent after any more events, or one of them released it while it was spent. -/
theorem spent_foldl (hfiled : r.Filed) {o : OutPoint} {e : NodeEntry} (he : r.entries[o]? = some e)
    (hspent : e.state = .spent) (more : List Event) :
    (∃ e', (more.foldl step r).entries[o]? = some e' ∧ e'.state = .spent ∧ e'.announced = e.announced) ∨
    ∃ before ev after, more = before ++ ev :: after ∧ Released (before.foldl step r) o ev := by
  induction more generalizing r e with
  | nil => exact Or.inl ⟨e, he, hspent, rfl⟩
  | cons ev rest ih =>
    rcases spent_step hfiled ev he hspent with ⟨e₁, he₁, hspent₁, hannounced₁⟩ | hreleased
    · rcases ih (filed_step hfiled ev) he₁ hspent₁ with ⟨e', he', hspent', hannounced'⟩ | ⟨before, ev', after, rfl, h⟩
      · exact Or.inl ⟨e', he', hspent', hannounced'.trans hannounced₁⟩
      · exact Or.inr ⟨ev :: before, ev', after, rfl, h⟩
    · exact Or.inr ⟨[], ev, rest, rfl, hreleased⟩

/-! ## Left out -/

/-- No answer of the registry has to do with a node, whatever it is asked and at which height or time. -/
structure LeftOut (r : Registry) (o : OutPoint) : Prop where
  unranked : ∀ (c : Chain) (height minProtocol : Nat),
    (∀ s ∈ r.ranked c height minProtocol, s.outpoint ≠ o) ∧ r.rankOf? c o height minProtocol = none
  notWinner : ∀ (c : Chain) (height minProtocol : Nat) (e : NodeEntry),
    r.currentWinner? c height minProtocol = some e → e.outpoint ≠ o
  notNext : ∀ (c : Chain) (height minProtocol : Nat) (now : Int) (rules : QueueRules),
    (r.nextInQueue c height minProtocol now rules).1 ≠ some o
  /-- All that is sent to who asks for the list tells of other nodes, or how many they are. -/
  unlisted : ∀ (peer : Peer) (requested : Option OutPoint) (now : Int) (mainnet : Bool),
    ∀ m ∈ (r.processListRequest peer requested now mainnet).sent,
      (∃ a, a.outpoint ≠ o ∧ m ∈ pushes r.nodeClass peer.id a) ∨
        m = .push peer.id (.syncCount r.nodeClass .list (r.listed requested).length)
  uncounted : ∀ minProtocol : Nat, r.countEnabled minProtocol = (r.remove o).countEnabled minProtocol

namespace Filed

variable {o : OutPoint} {e : NodeEntry}

/-- An enabled entry is one of another node. -/
theorem outpoint_ne (h : r.Filed) (he : r.entries[o]? = some e) (hoff : e.isEnabled = false) {e' : NodeEntry}
    (he' : e' ∈ r.list) (hon : e'.isEnabled = true) : e'.outpoint ≠ o := by
  obtain ⟨k, hk⟩ := Table.mem_values.mp he'
  rintro rfl
  rw [h k e' hk, hk] at he
  obtain rfl := Option.some.inj he
  rw [hon] at hoff
  cases hoff

theorem not_mem_ranked (h : r.Filed) (he : r.entries[o]? = some e) (hoff : e.isEnabled = false) (c : Chain)
    (height minProtocol : Nat) : ∀ s ∈ r.ranked c height minProtocol, s.outpoint ≠ o := by
  intro s hs
  obtain ⟨e', he', hout⟩ := List.mem_map.mp (Ranking.mem_rank.mp hs).1
  obtain ⟨hlist, hon⟩ := List.mem_filter.mp he'
  rw [← hout]
  exact h.outpoint_ne he hoff hlist (Bool.and_eq_true_iff.mp hon).1

theorem not_nextInQueue (h : r.Filed) (he : r.entries[o]? = some e) (hoff : e.isEnabled = false) (c : Chain)
    (height minProtocol : Nat) (now : Int) (rules : QueueRules) :
    (r.nextInQueue c height minProtocol now rules).1 ≠ some o := by
  have heligible : ∀ size bySigTime e', isEligible c minProtocol now rules size bySigTime e' = true →
      e'.isEnabled = true := by
    intro size bySigTime e' he'
    unfold isEligible at he'
    simp only [Bool.and_eq_true] at he'
    exact he'.1.1.1.1
  have hqueue : ∀ e' ∈ r.eligible c minProtocol now rules, e'.outpoint ≠ o := by
    intro e' he'
    unfold eligible at he'
    dsimp only at he'
    split at he'
    · obtain ⟨hlist, hon⟩ := List.mem_filter.mp he'
      exact h.outpoint_ne he hoff hlist (heligible _ _ _ hon)
    · obtain ⟨hlist, hon⟩ := List.mem_filter.mp he'
      exact h.outpoint_ne he hoff hlist (heligible _ _ _ hon)
  have hshort : o ∉ r.shortlist (r.eligible c minProtocol now rules) rules := by
    unfold shortlist
    intro ho
    obtain ⟨w, hw, rfl⟩ := List.mem_map.mp ho
    obtain ⟨e', he', rfl⟩ := List.mem_map.mp (mem_sortBy.mp (List.mem_of_mem_take hw))
    exact hqueue e' he' rfl
  intro hnext
  obtain ⟨s, hs, rfl⟩ := Option.map_eq_some_iff.mp hnext
  exact hshort (Ranking.mem_rank.mp (List.mem_of_mem_head? hs)).1

theorem not_listed (h : r.Filed) (he : r.entries[o]? = some e) (hoff : e.isEnabled = false)
    (requested : Option OutPoint) : ∀ a ∈ r.listed requested, a.outpoint ≠ o := by
  intro a ha
  obtain ⟨e', he', hannounced⟩ := List.mem_filterMap.mp ha
  obtain ⟨hlist, hon⟩ := List.mem_filter.mp he'
  unfold isListed at hon
  simp only [Bool.and_eq_true] at hon
  rw [(NodeEntry.outpoint_of_announcement? hannounced).1]
  exact h.outpoint_ne he hoff hlist hon.1.2

theorem not_sent (h : r.Filed) (he : r.entries[o]? = some e) (hoff : e.isEnabled = false) (peer : Peer)
    (requested : Option OutPoint) (now : Int) (mainnet : Bool) :
    ∀ m ∈ (r.processListRequest peer requested now mainnet).sent,
      (∃ a, a.outpoint ≠ o ∧ m ∈ pushes r.nodeClass peer.id a) ∨
        m = .push peer.id (.syncCount r.nodeClass .list (r.listed requested).length) := by
  intro m hm
  obtain ⟨before, after, hsent⟩ := List.append_of_mem hm
  have hserved : m ∈ (r.serve peer.id requested).2 := by
    rw [sent_processListRequest hsent]
    exact List.mem_append_right before List.mem_cons_self
  rcases List.mem_append.mp hserved with hpush | hcount
  · obtain ⟨a, ha, hm⟩ := List.mem_flatMap.mp hpush
    exact Or.inl ⟨a, h.not_listed he hoff requested a ha, hm⟩
  · split at hcount
    · exact Or.inr (List.mem_singleton.mp hcount)
    · cases hcount

theorem not_counted (he : r.entries[o]? = some e) (hoff : e.isEnabled = false) (minProtocol : Nat) :
    r.countEnabled minProtocol = (r.remove o).countEnabled minProtocol := by
  unfold countEnabled list remove
  rw [(Table.values_perm_of_lookup he).countP_eq, List.countP_cons_of_neg]
  rw [hoff]
  exact Bool.false_ne_true

/-- A node that is not enabled is left out. -/
theorem leftOut (h : r.Filed) (he : r.entries[o]? = some e) (hoff : e.isEnabled = false) : r.LeftOut o where
  unranked c height minProtocol := by
    have hranked := h.not_mem_ranked he hoff c height minProtocol
    refine ⟨hranked, ?_⟩
    unfold rankOf?
    rw [Option.map_eq_none_iff, List.findIdx?_eq_none_iff]
    intro s hs
    exact decide_eq_false (hranked s hs)
  notWinner c height minProtocol e' hwinner := by
    unfold currentWinner? at hwinner
    split at hwinner
    · cases hwinner
    · rename_i best rest hranked
      rw [h best.outpoint e' hwinner]
      exact h.not_mem_ranked he hoff c height minProtocol best (hranked ▸ List.mem_cons_self)
  notNext := h.not_nextInQueue he hoff
  unlisted := h.not_sent he hoff
  uncounted := not_counted he hoff

end Filed

/-! ## Every run -/

/-- An event looked at an entry: it notes the time, and finds the entry enabled exactly if it is sustained with the
    newest ping and the state that it had before. -/
structure Looked (ev : Event) (p : ClassParams) (before : NodeState) (e' : NodeEntry) : Prop where
  lastChecked : e'.lastChecked = ev.time
  enabled_iff : ∃ c, ev.chain? = some c ∧
    (e'.isEnabled = true ↔ ({ e' with state := before } : NodeEntry).Sustained c p ev.time)

theorem looked_check {ev : Event} {p : ClassParams} {x : NodeEntry} {c : Chain} {force : Bool}
    (horder : p.expirationSeconds ≤ p.removalSeconds) (hc : ev.chain? = some c) (hdue : x.IsDue p ev.time force) :
    Looked ev p x.state (x.check c p ev.time force) := by
  refine ⟨?_, c, hc, (NodeEntry.isEnabled_check_iff horder hdue).trans ?_⟩
  · rw [NodeEntry.check_of_due hdue]
  · rw [NodeEntry.check_of_due hdue]
    exact ⟨fun h => ⟨h.unspent, h.funded, h.pinged⟩, fun h => ⟨h.unspent, h.funded, h.pinged⟩⟩

theorem entry_checkAll {o : OutPoint} {e : NodeEntry} (he : r.entries[o]? = some e) (c : Chain) (now : Int)
    (force : Bool) : (r.checkAll c now force).entries[o]? = some (e.check c r.params now force) :=
  (find?_checkAll r c now force o).trans (congrArg _ he)

/-- A look at all nodes finds an entry that is due enabled exactly if it is sustained. -/
theorem isEnabled_checkAll_iff {p : ClassParams} (hfiled : r.Filed) (hparams : r.params = p)
    (horder : p.expirationSeconds ≤ p.removalSeconds) (c : Chain) {now : Int} {force : Bool} {o : OutPoint}
    {e : NodeEntry} (he : r.entries[o]? = some e) (hdue : e.IsDue p now force) :
    ∃ e', (r.checkAll c now force).entries[o]? = some e' ∧
      (e'.isEnabled = true ↔ e.state ≠ .spent ∧
        (∃ coin : Coin, c.coins[o]? = some coin ∧ coin.value = p.collateral) ∧
        ∃ ping : Ping, e.lastPing = some ping ∧ now - ping.sigTime < p.expirationSeconds) := by
  refine ⟨e.check c p now force, hparams ▸ entry_checkAll he c now force, ?_⟩
  refine (NodeEntry.isEnabled_check_iff horder hdue).trans ?_
  obtain rfl := hfiled o e he
  exact ⟨fun h => ⟨h.unspent, h.funded, h.pinged⟩, fun h => ⟨h.1, h.2.1, h.2.2⟩⟩

/-- After an event an entry was not looked at, or looked at, or entered and looked at. -/
theorem idle_or_looked {p : ClassParams} (hfiled : r.Filed) (hparams : r.params = p)
    (horder : p.expirationSeconds ≤ p.removalSeconds) {ev : Event} {o : OutPoint} {e' : NodeEntry}
    (he' : (step r ev).entries[o]? = some e') :
    (∃ e, r.entries[o]? = some e ∧ e'.state = e.state ∧ e'.lastChecked = e.lastChecked) ∨
    (∃ e, r.entries[o]? = some e ∧ Looked ev p e.state e') ∨
    ∃ masternodes a env, ev = .announce masternodes a env ∧ e' = r.fresh a env ∧ e'.isEnabled = true ∧
      Looked ev p .enabled e' := by
  subst hparams
  cases step_life hfiled he' with
  | @idle e he _ hstate hchecked => exact Or.inl ⟨e, he, hstate, hchecked⟩
  | @looked e x c force he hstate _ _ hdue hc heq =>
    refine Or.inr (Or.inl ⟨e, he, ?_⟩)
    rw [heq, ← hstate]
    exact looked_check horder hc hdue
  | @entered masternodes a env hev _ _ _ heq hon =>
    refine Or.inr (Or.inr ⟨masternodes, a, env, hev, heq, hon, ?_⟩)
    subst hev
    rw [heq]
    exact looked_check (x := NodeEntry.ofAnnouncement r.nodeClass a) horder rfl (NodeEntry.isDue_force _ _ _)

/-- In every run, whatever the chains that its events see, an entry that is spent is left out of every answer of the
    registry, looked at once more or not. After any more events it is still spent, announced with the same, or one of
    them took it away or is a newer announcement by the owner of the collateral that put a new entry in its place. A
    look at all nodes finds each entry that is due enabled exactly if it was not spent, its coin is there with exactly
    the collateral of the class, and its newest ping is less than the expiration time old. Every event leaves the state
    and the time of the last look of an entry as they are, or looks at it and finds it enabled exactly on these terms,
    or enters it, looked at on these terms and enabled. -/
theorem spent_is_final_and_enabled_is_funded_and_pinged (c : NodeClass) (es : List Event) :
    let p := ClassParams.of c
    (∀ (o : OutPoint) (e : NodeEntry), (run p es).entries[o]? = some e → e.state = .spent →
      (run p es).LeftOut o ∧
      (∀ chain now force, ((run p es).checkAll chain now force).LeftOut o) ∧
      ∀ more : List Event,
        (∃ e', (run p (es ++ more)).entries[o]? = some e' ∧ e'.state = .spent ∧ e'.announced = e.announced) ∨
        ∃ before ev after, more = before ++ ev :: after ∧ Released (run p (es ++ before)) o ev) ∧
    (∀ (chain : Chain) (now : Int) (force : Bool) (o : OutPoint) (e : NodeEntry), (run p es).entries[o]? = some e →
      e.IsDue p now force →
      ∃ e', ((run p es).checkAll chain now force).entries[o]? = some e' ∧
        (e'.isEnabled = true ↔ e.state ≠ .spent ∧
          (∃ coin : Coin, chain.coins[o]? = some coin ∧ coin.value = p.collateral) ∧
          ∃ ping : Ping, e.lastPing = some ping ∧ now - ping.sigTime < p.expirationSeconds)) ∧
    (∀ (ev : Event) (o : OutPoint) (e' : NodeEntry), (run p (es ++ [ev])).entries[o]? = some e' →
      (∃ e, (run p es).entries[o]? = some e ∧ e'.state = e.state ∧ e'.lastChecked = e.lastChecked) ∨
      (∃ e, (run p es).entries[o]? = some e ∧ Looked ev p e.state e') ∨
      ∃ masternodes a env, ev = .announce masternodes a env ∧ e' = (run p es).fresh a env ∧ e'.isEnabled = true ∧
        Looked ev p .enabled e') := by
  intro p
  have horder : p.expirationSeconds ≤ p.removalSeconds := ClassParams.expires_before_removal c
  have hfiled : (run p es).Filed := run_filed p es
  have hparams : (run p es).params = p := run_params p es
  refine ⟨?_, ?_, ?_⟩
  · intro o e he hspent
    refine ⟨hfiled.leftOut he (NodeEntry.isEnabled_of_spent hspent), ?_, ?_⟩
    · intro chain now force
      exact (hfiled.checkAll chain now force).leftOut (entry_checkAll he chain now force)
        (NodeEntry.isEnabled_of_spent (NodeEntry.state_check_of_spent hspent))
    · intro more
      simp only [run_append]
      exact spent_foldl hfiled he hspent more
  · intro chain now force o e he hdue
    exact isEnabled_checkAll_iff hfiled hparams horder chain he hdue
  · intro ev o e' he'
    rw [run_append] at he'
    exact idle_or_looked hfiled hparams horder he'

/-- A node is announced, and looked at when its coin is gone. -/
def coinGone : List Event := announcedOnce ++ [.check (Chain.generate 20 1600000000 60) 1600002005 false]

set_option maxRecDepth 20000 in
/-- It is spent and left out. -/
theorem the_node_of_a_spent_coin_is_left_out :
    ∃ e, (run (.of .masternode) coinGone).entries[underOldOperator.outpoint]? = some e ∧ e.state = .spent ∧
      (run (.of .masternode) coinGone).LeftOut underOldOperator.outpoint := by
  have hstate : ((run (.of .masternode) coinGone).entries[underOldOperator.outpoint]?).map NodeEntry.state =
      some .spent := by
    unfold coinGone
    rw [run_append, show ClassParams.of .masternode = .masternode from rfl, run_announcedOnce]
    decide +kernel
  obtain ⟨e, he, hspent⟩ := Option.map_eq_some_iff.mp hstate
  exact ⟨e, he, hspent, ((spent_is_final_and_enabled_is_funded_and_pinged .masternode coinGone).1 _ e he hspent).1⟩

end Registry
end NodeQuorum
