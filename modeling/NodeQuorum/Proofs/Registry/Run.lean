/-
  NodeQuorum.Proofs.Registry.Run — what the nodes of a class go through.

  Announcements and pings are taken, states are looked at anew, what is old is swept away, the local node pings,
  and lists are asked for and served (`Event`, `step`, `run`). What an entry was announced with
  (`NodeEntry.announced`) is written by an announcement only:
  - `processAnnouncement_taken`: an announcement is refused, or it is well made (`WellMade`) and newer than the
    entry that it finds. Then it refreshes that entry under the key that the entry has, or its signer owns the
    collateral (`Owned`) and a new entry stands in the place of the old one, or none if the new one is not enabled.
    Nothing else of the registry is written (`writesNodes_processAnnouncement`).
  - `manage_ownPing`: the local node leaves a registry as it is, or records a ping of its own there and passes it on.
  - `step_cases`: every other event keeps what the entries were announced with, or takes entries away (`Kept`).
-/

import NodeQuorum.LocalNode
import NodeQuorum.Registry.Announce
import NodeQuorum.Proofs.Table

namespace NodeQuorum

/-! ## What was announced -/

namespace NodeEntry

/-- An entry without what pings and looks at its state change. -/
def announced (e : NodeEntry) : NodeEntry := { e with lastPing := none, state := .enabled, lastChecked := 0 }

@[simp] theorem announced_check (e : NodeEntry) (c : Chain) (p : ClassParams) (now : Int) (force : Bool) :
    (e.check c p now force).announced = e.announced := by
  unfold check
  split <;> rfl

/-- A refreshed entry was announced with what a new one would have been. -/
theorem announced_update {e : NodeEntry} {a : Announcement} (h : e.outpoint = a.outpoint) :
    (e.update a).announced = (ofAnnouncement e.nodeClass a).announced := by
  unfold update ofAnnouncement announced
  rw [h]

end NodeEntry

/-- The text of an announcement that its collateral key signs. -/
def Announcement.text (a : Announcement) : String :=
  Announcement.signedText a.address a.sigTime a.collateralKey a.operatorKey a.protocol

/-- The text of a ping that the operator key signs. -/
def Ping.text (p : Ping) : String := Ping.signedText p.outpoint p.blockHash p.sigTime

namespace Registry

/-! ## Events -/

/-- What the nodes of a class go through; the surroundings of each event are its own. -/
inductive Event where
  | announce (masternodes : Option Registry) (a : Announcement) (env : AnnounceEnv)
  | ping (p : Ping) (env : AnnounceEnv)
  | check (c : Chain) (now : Int) (force : Bool)
  | sweep (c : Chain) (now : Int) (forceExpired : Bool) (minProtocol : Nat)
  | manage (n : LocalNode) (c : Chain) (synced : Bool) (now : Int)
  | askForEntry (peer : PeerId) (o : OutPoint) (now : Int)
  | requestList (peer : Peer) (now : Int) (mainnet : Bool)
  | serveList (peer : Peer) (requested : Option OutPoint) (now : Int) (mainnet : Bool)

def step (r : Registry) : Event → Registry
  | .announce masternodes a env => (r.processAnnouncement masternodes a env).state
  | .ping p env => (r.processPing p env).state
  | .check c now force => r.checkAll c now force
  | .sweep c now forceExpired minProtocol => (r.sweep c now forceExpired minProtocol).1
  | .manage n c synced now => (n.manage r c synced now).registry
  | .askForEntry peer o now => (r.askForEntry peer o now).1
  | .requestList peer now mainnet => (r.requestList peer now mainnet).1
  | .serveList peer requested now mainnet => (r.processListRequest peer requested now mainnet).state

/-- The nodes of a class after some events. -/
def run (params : ClassParams) (es : List Event) : Registry := es.foldl step (empty params)

theorem run_append (params : ClassParams) (es more : List Event) :
    run params (es ++ more) = more.foldl step (run params es) := by
  simp only [run, List.foldl_append]

/-! ## What is asked of an announcement -/

/-- All that is asked of an announcement but its age and its collateral, with the key that its ping is to pass. -/
structure WellMade (masternodes : Option Registry) (a : Announcement) (env : AnnounceEnv) (pingKey : PublicKey) :
    Prop where
  address : a.address.isAnnounceable env.params.network = true
  host : (masternodes.all fun m => !m.hasHost a.address.ip) = true
  notAhead : a.sigTime ≤ env.now + maxSkew
  protocol : env.minProtocol ≤ a.protocol
  keys : a.collateralKey.isValid = true ∧ a.operatorKey.isValid = true
  ownPing : a.lastPing.outpoint = a.outpoint
  pingTime : checkPingTime a.lastPing env.now = .ok ()
  pingSigned : pingKey.Signed a.lastPing.signature a.lastPing.text
  signed : a.collateralKey.Signed a.signature a.text
  port : env.params.isValidPort a.address.port.toNat = true

/-- The holder of a key owns an unspent output of exactly the collateral, with enough confirmations, and the block
    that confirmed it is not later than a signing time. -/
def Owned (c : Chain) (p : ClassParams) (o : OutPoint) (key : PublicKey) (sigTime : Int) : Prop :=
  ∃ coin : Coin, c.coins[o]? = some coin ∧ coin.script = Script.ofPublicKey key ∧ coin.value = p.collateral ∧
    p.minConfirmations ≤ (c.confirmations? o).getD 0 ∧
    ∀ t, c.timeAt? (coin.height + p.minConfirmations - 1) = some t → t ≤ sigTime

/-- The entry that an announcement makes, looked at once. -/
def fresh (r : Registry) (a : Announcement) (env : AnnounceEnv) : NodeEntry :=
  (NodeEntry.ofAnnouncement r.nodeClass a).check env.chain r.params env.now true

theorem announced_fresh (r : Registry) (a : Announcement) (env : AnnounceEnv) :
    (r.fresh a env).announced = (NodeEntry.ofAnnouncement r.nodeClass a).announced :=
  NodeEntry.announced_check _ _ _ _ _

/-! ## Checks -/

theorem checkPingSignature_eq_ok {p : Ping} {key : PublicKey} :
    checkPingSignature p key = .ok () ↔ key.Signed p.signature p.text := by
  unfold checkPingSignature
  rw [mapError_eq_ok]
  exact Iff.rfl

theorem checkSignature_eq_ok {r : Registry} {a : Announcement} :
    r.checkSignature a = .ok () ↔ a.collateralKey.Signed a.signature a.text := by
  unfold checkSignature
  rw [mapError_eq_ok]
  exact Iff.rfl

theorem ok_bind_eq_ok {x y : Except Reject Unit} : (x >>= fun _ => y) = .ok () ↔ x = .ok () ∧ y = .ok () := by
  cases x with
  | error e => exact ⟨nofun, fun h => nomatch h.1⟩
  | ok u => exact ⟨fun h => ⟨rfl, h⟩, fun h => h.2⟩

/-- The checks pass exactly for what is well made. -/
theorem checks_eq_ok {r : Registry} {masternodes : Option Registry} {a : Announcement} {env : AnnounceEnv} :
    (do r.checkAddress masternodes a env; r.checkAnnouncement a env) = .ok () ↔
      WellMade masternodes a env (r.pingKey a) := by
  unfold checkAddress checkAnnouncement
  simp only [ok_bind_eq_ok, demand_eq_ok, checkPingSignature_eq_ok, checkSignature_eq_ok]
  constructor
  · rintro ⟨⟨h1, h2⟩, h3, h4, h5, h6, h7, h8, h9, h10⟩
    exact ⟨h1, h2, h3, h4, h5, h6, h7, h8, h9, h10⟩
  · intro h
    exact ⟨⟨h.address, h.host⟩, h.notAhead, h.protocol, h.keys, h.ownPing, h.pingTime, h.pingSigned, h.signed, h.port⟩

theorem ownedCoin_eq_ok {r : Registry} {a : Announcement} {env : AnnounceEnv} {coin : Coin} :
    r.ownedCoin a env = .ok coin ↔ env.chain.coins[a.outpoint]? = some coin ∧
      coin.script = Script.ofPublicKey a.collateralKey ∧ coin.value = r.params.collateral := by
  unfold ownedCoin
  dsimp only
  split
  · rename_i h
    simp [h]
  · rename_i c hc
    rw [hc]
    by_cases hs : c.script = Script.ofPublicKey a.collateralKey
    · by_cases hv : c.value = r.params.collateral
      · simp only [hs, hv, ne_eq, not_true_eq_false, if_false]
        constructor
        · intro h
          cases h
          exact ⟨rfl, hs, hv⟩
        · rintro ⟨h, -⟩
          cases h
          rfl
      · simp only [hs, hv, ne_eq, not_true_eq_false, not_false_eq_true, if_false, if_true]
        constructor
        · intro h
          cases h
        · rintro ⟨h, -, hv'⟩
          cases h
          exact absurd hv' hv
    · simp only [hs, ne_eq, not_false_eq_true, if_true]
      constructor
      · intro h
        cases h
      · rintro ⟨h, hs', -⟩
        cases h
        exact absurd hs' hs

theorem checkConfirmed_eq_ok {r : Registry} {a : Announcement} {coin : Coin} {env : AnnounceEnv} :
    r.checkConfirmed a coin env = .ok () ↔
      ∀ t, env.chain.timeAt? (coin.height + r.params.minConfirmations - 1) = some t → t ≤ a.sigTime := by
  unfold checkConfirmed
  split
  · rename_i h
    simp [h]
  · rename_i t ht
    rw [demand_eq_ok, ht]
    simp

/-! ## Entering an entry -/

/-- An enabled new entry goes in once the old one was taken out. -/
theorem add_fresh {r : Registry} {a : Announcement} {env : AnnounceEnv} (h : (r.fresh a env).isEnabled = true) :
    (r.remove a.outpoint).add (r.fresh a env) =
      some { r with entries := (r.entries.erase a.outpoint).insert a.outpoint (r.fresh a env) } := by
  have hat : (r.fresh a env).outpoint = a.outpoint := congrArg NodeEntry.outpoint (announced_fresh r a env)
  unfold add remove
  rw [hat, if_pos ⟨h, by simp [Std.ExtTreeMap.contains_erase]⟩]

/-- An announcement that makes an enabled entry puts it in the place of the old one. -/
theorem replace_of_enabled {r : Registry} {a : Announcement} {env : AnnounceEnv}
    (h : (r.fresh a env).isEnabled = true) :
    (r.replace a env).verdict = .ok .added ∧
      (r.replace a env).state =
        { r with entries := (r.entries.erase a.outpoint).insert a.outpoint (r.fresh a env) } := by
  have hadd := add_fresh h
  unfold fresh at hadd
  unfold replace
  dsimp only
  rw [show (r.remove a.outpoint).nodeClass = r.nodeClass from rfl,
    show (r.remove a.outpoint).params = r.params from rfl, hadd]
  exact ⟨rfl, rfl⟩

/-- One that makes no enabled entry takes the old one away. -/
theorem replace_of_not_enabled {r : Registry} {a : Announcement} {env : AnnounceEnv}
    (h : ¬ (r.fresh a env).isEnabled = true) :
    (∃ e, (r.replace a env).verdict = .error e) ∧ (r.replace a env).state = r.remove a.outpoint := by
  have hadd : (r.remove a.outpoint).add (r.fresh a env) = none := by
    unfold add
    rw [if_neg fun hp => h hp.1]
  unfold fresh at hadd
  unfold replace
  dsimp only
  rw [show (r.remove a.outpoint).nodeClass = r.nodeClass from rfl,
    show (r.remove a.outpoint).params = r.params from rfl, hadd]
  exact ⟨⟨_, rfl⟩, rfl⟩

/-- An announcement whose signer owns the collateral replaces the entry. -/
theorem enter_of_owned {r : Registry} {a : Announcement} {env : AnnounceEnv}
    (h : Owned env.chain r.params a.outpoint a.collateralKey a.sigTime) : r.enter a env = r.replace a env := by
  obtain ⟨coin, hcoin, hscript, hvalue, hage, htime⟩ := h
  unfold enter
  rw [ownedCoin_eq_ok.mpr ⟨hcoin, hscript, hvalue⟩]
  dsimp only
  rw [if_neg (Nat.not_lt.mpr hage), checkConfirmed_eq_ok.mpr htime]

/-- Any other leaves the entries as they are. -/
theorem enter_of_not_owned {r : Registry} {a : Announcement} {env : AnnounceEnv}
    (h : ¬ Owned env.chain r.params a.outpoint a.collateralKey a.sigTime) :
    (∃ e, (r.enter a env).verdict = .error e) ∧ (r.enter a env).state.entries = r.entries := by
  unfold enter
  split
  · exact ⟨⟨_, rfl⟩, rfl⟩
  rename_i coin hcoin
  obtain ⟨hcoin, hscript, hvalue⟩ := ownedCoin_eq_ok.mp hcoin
  dsimp only
  split
  · exact ⟨⟨_, rfl⟩, rfl⟩
  rename_i hage
  split
  · exact ⟨⟨_, rfl⟩, rfl⟩
  rename_i htime
  exact absurd ⟨coin, hcoin, hscript, hvalue, Nat.not_lt.mp hage, checkConfirmed_eq_ok.mp htime⟩ h

/-! ## An announcement -/

theorem settle_of_unknown {r : Registry} {a : Announcement} (h : r.find? a.outpoint = none) (env : AnnounceEnv) :
    r.settle a env = r.enter a env := by
  unfold settle
  rw [h]

theorem settle_of_not_newer {r : Registry} {a : Announcement} {e : NodeEntry} (he : r.find? a.outpoint = some e)
    (hold : a.sigTime ≤ e.sigTime) (env : AnnounceEnv) :
    (∃ e, (r.settle a env).verdict = .error e) ∧ (r.settle a env).state = r := by
  unfold settle
  rw [he]
  dsimp only
  rw [if_pos hold]
  exact ⟨⟨_, rfl⟩, rfl⟩

/-- A newer announcement under the key of an enabled entry refreshes it; any other one has to enter. -/
theorem settle_of_newer {r : Registry} {a : Announcement} {e : NodeEntry} (he : r.find? a.outpoint = some e)
    (hnewer : e.sigTime < a.sigTime) (env : AnnounceEnv) :
    r.settle a env = if e.isEnabled ∧ e.collateralKey = a.collateralKey then r.refresh e a env else r.enter a env := by
  unfold settle
  rw [he]
  dsimp only
  rw [if_neg (Int.not_le.mpr hnewer)]

theorem processAnnouncement_of_seen {r : Registry} {a : Announcement} (h : r.seenAnnouncements.contains a.hash = true)
    (masternodes : Option Registry) (env : AnnounceEnv) :
    (∃ e, (r.processAnnouncement masternodes a env).verdict = .error e) ∧
      (r.processAnnouncement masternodes a env).state = r := by
  unfold processAnnouncement
  rw [if_pos h]
  exact ⟨⟨_, rfl⟩, rfl⟩

theorem unseen_of_accepted {r : Registry} {masternodes : Option Registry} {a : Announcement} {env : AnnounceEnv}
    {v : Accepted} (h : (r.processAnnouncement masternodes a env).verdict = .ok v) :
    ¬ r.seenAnnouncements.contains a.hash = true := by
  intro hseen
  obtain ⟨⟨e, he⟩, -⟩ := processAnnouncement_of_seen hseen masternodes env
  exact nomatch h.symm.trans he

theorem processAnnouncement_of_not_wellMade {r : Registry} {masternodes : Option Registry} {a : Announcement}
    {env : AnnounceEnv} (hnew : ¬ r.seenAnnouncements.contains a.hash = true)
    (h : ¬ WellMade masternodes a env (r.pingKey a)) :
    (∃ e, (r.processAnnouncement masternodes a env).verdict = .error e) ∧
      (r.processAnnouncement masternodes a env).state = r.rememberAnnouncement a := by
  unfold processAnnouncement
  rw [if_neg hnew]
  dsimp only
  split
  · exact ⟨⟨_, rfl⟩, rfl⟩
  · rename_i hok
    exact absurd (checks_eq_ok.mp hok) h

theorem processAnnouncement_of_wellMade {r : Registry} {masternodes : Option Registry} {a : Announcement}
    {env : AnnounceEnv} (hnew : ¬ r.seenAnnouncements.contains a.hash = true)
    (h : WellMade masternodes a env (r.pingKey a)) :
    r.processAnnouncement masternodes a env = (r.rememberAnnouncement a).settle a env := by
  unfold processAnnouncement
  rw [if_neg hnew]
  dsimp only
  have hok := checks_eq_ok.mpr h
  split
  · rename_i hrefused
    exact nomatch hok.symm.trans hrefused
  · rfl

/-- What an announcement does to the entries, with its verdict. -/
inductive Taken (r : Registry) (masternodes : Option Registry) (a : Announcement) (env : AnnounceEnv) :
    Verdict → Table OutPoint NodeEntry → Prop
  | refused (e : Reject) : Taken r masternodes a env (.error e) r.entries
  /-- A newer announcement under the key of an enabled entry. -/
  | refreshed {e : NodeEntry} : WellMade masternodes a env (r.pingKey a) → r.entries[a.outpoint]? = some e →
      e.sigTime < a.sigTime → e.isEnabled = true → e.collateralKey = a.collateralKey →
      Taken r masternodes a env (.ok .updated)
        (r.entries.insert a.outpoint ((e.update a).check env.chain r.params env.now true))
  | entered : WellMade masternodes a env (r.pingKey a) →
      (∀ e, r.entries[a.outpoint]? = some e → e.sigTime < a.sigTime) →
      Owned env.chain r.params a.outpoint a.collateralKey a.sigTime → (r.fresh a env).isEnabled = true →
      Taken r masternodes a env (.ok .added) ((r.entries.erase a.outpoint).insert a.outpoint (r.fresh a env))
  /-- The new entry is not enabled, and the old one is gone. -/
  | dropped (e : Reject) : WellMade masternodes a env (r.pingKey a) →
      (∀ e, r.entries[a.outpoint]? = some e → e.sigTime < a.sigTime) →
      Owned env.chain r.params a.outpoint a.collateralKey a.sigTime → ¬ (r.fresh a env).isEnabled = true →
      Taken r masternodes a env (.error e) (r.entries.erase a.outpoint)

/-- The entry of another node is left alone. -/
theorem Taken.lookup_of_ne {r : Registry} {masternodes : Option Registry} {a : Announcement} {env : AnnounceEnv}
    {verdict : Verdict} {after : Table OutPoint NodeEntry} (ht : Taken r masternodes a env verdict after)
    {o : OutPoint} (ho : a.outpoint ≠ o) : after[o]? = r.entries[o]? := by
  cases ht with
  | refused => rfl
  | refreshed => rw [Table.lookup_insert, if_neg ho]
  | entered => rw [Table.lookup_insert, if_neg ho, Table.lookup_erase, if_neg ho]
  | dropped => rw [Table.lookup_erase, if_neg ho]

theorem enter_taken {r : Registry} {masternodes : Option Registry} {a : Announcement} {env : AnnounceEnv}
    (hmade : WellMade masternodes a env (r.pingKey a))
    (hnewer : ∀ e, r.entries[a.outpoint]? = some e → e.sigTime < a.sigTime) :
    Taken r masternodes a env ((r.rememberAnnouncement a).enter a env).verdict
      ((r.rememberAnnouncement a).enter a env).state.entries := by
  let r' := r.rememberAnnouncement a
  by_cases howned : Owned env.chain r.params a.outpoint a.collateralKey a.sigTime
  · have hreplace : r'.enter a env = r'.replace a env := enter_of_owned howned
    rw [hreplace]
    by_cases hon : (r.fresh a env).isEnabled = true
    · have hfresh : (r'.fresh a env).isEnabled = true := hon
      obtain ⟨hverdict, hstate⟩ := replace_of_enabled hfresh
      rw [hverdict, hstate]
      exact .entered hmade hnewer howned hon
    · have hfresh : ¬ (r'.fresh a env).isEnabled = true := hon
      obtain ⟨⟨e, hverdict⟩, hstate⟩ := replace_of_not_enabled hfresh
      rw [hverdict, hstate]
      exact .dropped e hmade hnewer howned hon
  · have hother : ¬ Owned env.chain r'.params a.outpoint a.collateralKey a.sigTime := howned
    obtain ⟨⟨e, hverdict⟩, hentries⟩ := enter_of_not_owned hother
    rw [hverdict, hentries]
    exact .refused e

/-- What an announcement does. -/
theorem processAnnouncement_taken (r : Registry) (masternodes : Option Registry) (a : Announcement)
    (env : AnnounceEnv) :
    Taken r masternodes a env (r.processAnnouncement masternodes a env).verdict
      (r.processAnnouncement masternodes a env).state.entries := by
  by_cases hseen : r.seenAnnouncements.contains a.hash = true
  · obtain ⟨⟨e, hverdict⟩, hstate⟩ := processAnnouncement_of_seen hseen masternodes env
    rw [hverdict, hstate]
    exact .refused e
  by_cases hmade : WellMade masternodes a env (r.pingKey a)
  · rw [processAnnouncement_of_wellMade hseen hmade]
    cases he : r.entries[a.outpoint]? with
    | none =>
      have hfind : (r.rememberAnnouncement a).find? a.outpoint = none := he
      rw [settle_of_unknown hfind]
      refine enter_taken hmade ?_
      intro e' he'
      exact nomatch he.symm.trans he'
    | some e =>
      have hfind : (r.rememberAnnouncement a).find? a.outpoint = some e := he
      by_cases hold : a.sigTime ≤ e.sigTime
      · obtain ⟨⟨e', hverdict⟩, hstate⟩ := settle_of_not_newer hfind hold env
        rw [hverdict, hstate]
        exact .refused e'
      have hnewer : ∀ e', r.entries[a.outpoint]? = some e' → e'.sigTime < a.sigTime := by
        intro e' he'
        rw [he] at he'
        cases he'
        omega
      rw [settle_of_newer hfind (hnewer e he)]
      split
      · rename_i hsame
        exact .refreshed hmade he (hnewer e he) hsame.1 hsame.2
      · exact enter_taken hmade hnewer
  · obtain ⟨⟨e, hverdict⟩, hstate⟩ := processAnnouncement_of_not_wellMade hseen hmade
    rw [hverdict, hstate]
    exact .refused e

/-- Two states of a registry differ in the entries and in the announcements that were seen at most. -/
def WritesNodes (r r' : Registry) : Prop :=
  r' = { r with entries := r'.entries, seenAnnouncements := r'.seenAnnouncements }

theorem writesNodes_replace (r : Registry) (a : Announcement) (env : AnnounceEnv) :
    WritesNodes r (r.replace a env).state := by
  by_cases hon : (r.fresh a env).isEnabled = true
  · rw [(replace_of_enabled hon).2]
    rfl
  · rw [(replace_of_not_enabled hon).2]
    rfl

theorem writesNodes_enter (r : Registry) (a : Announcement) (env : AnnounceEnv) :
    WritesNodes r (r.enter a env).state := by
  unfold enter
  split
  · rfl
  dsimp only
  split
  · rfl
  split
  · rfl
  · exact writesNodes_replace r a env

theorem writesNodes_processAnnouncement (r : Registry) (masternodes : Option Registry) (a : Announcement)
    (env : AnnounceEnv) : WritesNodes r (r.processAnnouncement masternodes a env).state := by
  have henter : WritesNodes r ((r.rememberAnnouncement a).enter a env).state :=
    writesNodes_enter (r.rememberAnnouncement a) a env
  unfold processAnnouncement
  split
  · rfl
  dsimp only
  split
  · rfl
  unfold settle
  split
  · exact henter
  split
  · rfl
  split
  · rfl
  · exact henter

/-! ## Everything else -/

/-- The rules of the class are the same, and every entry was there, announced with the same. -/
structure Kept (r r' : Registry) : Prop where
  params : r'.params = r.params
  entry : ∀ (o : OutPoint) (e' : NodeEntry), r'.entries[o]? = some e' →
    ∃ e, r.entries[o]? = some e ∧ e'.announced = e.announced

theorem Kept.same {r r' : Registry} (hp : r'.params = r.params) (he : r'.entries = r.entries) : Kept r r' :=
  ⟨hp, fun _ e' h => ⟨e', he ▸ h, rfl⟩⟩

theorem Kept.trans {r r' r'' : Registry} (h : Kept r r') (h' : Kept r' r'') : Kept r r'' := by
  refine ⟨h'.params.trans h.params, ?_⟩
  intro o e'' he''
  obtain ⟨e', he', heq'⟩ := h'.entry o e'' he''
  obtain ⟨e, he, heq⟩ := h.entry o e' he'
  exact ⟨e, he, heq'.trans heq⟩

/-- A look at the nodes looks at each of them. -/
theorem find?_checkAll (r : Registry) (c : Chain) (now : Int) (force : Bool) (o : OutPoint) :
    (r.checkAll c now force).find? o = (r.find? o).map fun e => e.check c r.params now force :=
  Std.ExtTreeMap.getElem?_map

theorem kept_checkAll (r : Registry) (c : Chain) (now : Int) (force : Bool) : Kept r (r.checkAll c now force) := by
  refine ⟨rfl, ?_⟩
  intro o e' he'
  obtain ⟨e, he, rfl⟩ := Option.map_eq_some_iff.mp ((find?_checkAll r c now force o).symm.trans he')
  exact ⟨e, he, NodeEntry.announced_check _ _ _ _ _⟩

/-- A sweep looks at the nodes and keeps some. -/
theorem entry_of_sweep {r : Registry} {c : Chain} {now : Int} {forceExpired : Bool} {minProtocol : Nat} {o : OutPoint}
    {e : NodeEntry} (h : (r.sweep c now forceExpired minProtocol).1.entries[o]? = some e) :
    (r.checkAll c now false).entries[o]? = some e := by
  unfold sweep at h
  dsimp only at h
  rw [Std.ExtTreeMap.getElem?_filter', Option.filter_eq_some_iff] at h
  exact h.1

theorem kept_sweep (r : Registry) (c : Chain) (now : Int) (forceExpired : Bool) (minProtocol : Nat) :
    Kept r (r.sweep c now forceExpired minProtocol).1 := by
  refine (kept_checkAll r c now false).trans ⟨rfl, ?_⟩
  intro o e' he'
  exact ⟨e', entry_of_sweep he', rfl⟩

theorem kept_insert {r r' : Registry} {o : OutPoint} {e e' : NodeEntry} (hp : r'.params = r.params)
    (hentries : r'.entries = r.entries.insert o e') (he : r.entries[o]? = some e) (ha : e'.announced = e.announced) :
    Kept r r' := by
  refine ⟨hp, ?_⟩
  intro o' e'' he''
  rw [hentries, Table.lookup_insert] at he''
  by_cases ho : o = o'
  · subst ho
    rw [if_pos rfl] at he''
    cases he''
    exact ⟨e, he, ha⟩
  · rw [if_neg ho] at he''
    exact ⟨e'', he'', rfl⟩

/-- A ping changes the entry that it names, and nothing that the entry was announced with. -/
theorem kept_takePing {r : Registry} {e : NodeEntry} {p : Ping} (he : r.entries[p.outpoint]? = some e)
    (env : AnnounceEnv) : Kept r (r.takePing e p env) := by
  have ha : (({ e with lastPing := some p } : NodeEntry).check env.chain r.params env.now true).announced =
      e.announced := NodeEntry.announced_check _ _ _ _ _
  unfold takePing
  split
  · exact kept_insert rfl rfl he ha
  · exact kept_insert rfl rfl he ha

theorem kept_processPing (r : Registry) (p : Ping) (env : AnnounceEnv) : Kept r (r.processPing p env).state := by
  unfold processPing
  split
  · exact .same rfl rfl
  dsimp only
  split
  · exact .same rfl rfl
  split
  · exact .same rfl rfl
  rename_i e he
  split
  · exact .same rfl rfl
  split
  · exact .same rfl rfl
  have hremember : Kept r (r.rememberPing p) := .same rfl rfl
  have htake : Kept (r.rememberPing p) ((r.rememberPing p).takePing e p env) := kept_takePing he env
  have hkept := hremember.trans htake
  split
  · exact hkept
  · exact hkept

/-- What the local node leaves of a registry, and sends: nothing new, or it records a ping of its own and passes it
    on. -/
inductive OwnPing (n : LocalNode) (r : Registry) (m : LocalNode.Managed) : Prop
  | silent : m.registry = r → m.sent = [] → OwnPing n r m
  | pinged {e : NodeEntry} {p : Ping} : m.registry = LocalNode.recordPing r e p →
      m.sent = [.relay ⟨.ping n.nodeClass, p.hash⟩] → OwnPing n r m

theorem sendPing_ownPing (n : LocalNode) (r : Registry) (c : Chain) (now : Int) :
    OwnPing n r (n.sendPing r c now) := by
  unfold LocalNode.sendPing
  split
  · exact .silent rfl rfl
  split
  · exact .silent rfl rfl
  split
  · exact .silent rfl rfl
  split
  · exact .silent rfl rfl
  · exact .pinged rfl rfl

theorem manage_ownPing (n : LocalNode) (r : Registry) (c : Chain) (synced : Bool) (now : Int) :
    OwnPing n r (n.manage r c synced now) := by
  have hclass : (n.tryStart r c).nodeClass = n.nodeClass := by
    unfold LocalNode.tryStart
    split
    · rfl
    split
    · unfold LocalNode.enable
      split <;> rfl
    · rfl
  unfold LocalNode.manage
  split
  · exact .silent rfl rfl
  split
  · exact sendPing_ownPing n r c now
  dsimp only
  split
  · cases sendPing_ownPing (n.tryStart r c) r c now with
    | silent hr hsent => exact .silent hr hsent
    | pinged hr hsent => exact .pinged hr (hclass ▸ hsent)
  · exact .silent rfl rfl

/-- An entry is pinged; what else is in it stays. -/
theorem entries_recordPing (r : Registry) (e : NodeEntry) (p : Ping) :
    (LocalNode.recordPing r e p).entries = r.entries.modify e.outpoint fun e => { e with lastPing := some p } := by
  unfold LocalNode.recordPing
  dsimp only
  split <;> rfl

/-- The local node writes nothing of an entry but its last ping. -/
theorem entry_of_manage {n : LocalNode} {r : Registry} {c : Chain} {synced : Bool} {now : Int} {o : OutPoint}
    {e' : NodeEntry} (he' : (n.manage r c synced now).registry.entries[o]? = some e') :
    ∃ (e : NodeEntry) (lastPing : Option Ping), r.entries[o]? = some e ∧ e' = { e with lastPing := lastPing } := by
  cases manage_ownPing n r c synced now with
  | silent hr => exact ⟨e', e'.lastPing, hr ▸ he', rfl⟩
  | @pinged pinged p hr =>
    rw [hr, entries_recordPing, Table.lookup_modify] at he'
    by_cases ho : pinged.outpoint = o
    · rw [if_pos ho] at he'
      obtain ⟨e, he, rfl⟩ := Option.map_eq_some_iff.mp he'
      exact ⟨e, some p, he, rfl⟩
    · rw [if_neg ho] at he'
      exact ⟨e', e'.lastPing, he', rfl⟩

theorem params_manage (n : LocalNode) (r : Registry) (c : Chain) (synced : Bool) (now : Int) :
    (n.manage r c synced now).registry.params = r.params := by
  cases manage_ownPing n r c synced now with
  | silent hr => rw [hr]
  | pinged hr =>
    rw [hr]
    unfold LocalNode.recordPing
    dsimp only
    split <;> rfl

/-- So does the local node. -/
theorem kept_manage (n : LocalNode) (r : Registry) (c : Chain) (synced : Bool) (now : Int) :
    Kept r (n.manage r c synced now).registry := by
  refine ⟨params_manage n r c synced now, ?_⟩
  intro o e' he'
  obtain ⟨e, _, he, rfl⟩ := entry_of_manage he'
  exact ⟨e, he, rfl⟩

theorem kept_askForEntry (r : Registry) (peer : PeerId) (o : OutPoint) (now : Int) :
    Kept r (r.askForEntry peer o now).1 := by
  unfold askForEntry
  split
  · exact .same rfl rfl
  · exact .same rfl rfl

theorem kept_requestList (r : Registry) (peer : Peer) (now : Int) (mainnet : Bool) :
    Kept r (r.requestList peer now mainnet).1 := by
  unfold requestList
  dsimp only
  split
  · split
    · exact .same rfl rfl
    · exact .same rfl rfl
  · exact .same rfl rfl

theorem kept_processListRequest (r : Registry) (peer : Peer) (requested : Option OutPoint) (now : Int)
    (mainnet : Bool) : Kept r (r.processListRequest peer requested now mainnet).state := by
  unfold processListRequest
  dsimp only
  split
  · split
    · exact .same rfl rfl
    · exact .same rfl rfl
  · exact .same rfl rfl

/-! ## Any event -/

/-- An announcement does what `Taken` says; everything else keeps what the entries were announced with. -/
theorem step_cases (r : Registry) (ev : Event) :
    (∃ masternodes a env verdict, ev = .announce masternodes a env ∧
      Taken r masternodes a env verdict (step r ev).entries) ∨ Kept r (step r ev) := by
  cases ev with
  | announce masternodes a env =>
    exact Or.inl ⟨masternodes, a, env, _, rfl, processAnnouncement_taken r masternodes a env⟩
  | ping p env => exact Or.inr (kept_processPing r p env)
  | check c now force => exact Or.inr (kept_checkAll r c now force)
  | sweep c now forceExpired minProtocol => exact Or.inr (kept_sweep r c now forceExpired minProtocol)
  | manage n c synced now => exact Or.inr (kept_manage n r c synced now)
  | askForEntry peer o now => exact Or.inr (kept_askForEntry r peer o now)
  | requestList peer now mainnet => exact Or.inr (kept_requestList r peer now mainnet)
  | serveList peer requested now mainnet => exact Or.inr (kept_processListRequest r peer requested now mainnet)

theorem params_processAnnouncement (r : Registry) (masternodes : Option Registry) (a : Announcement)
    (env : AnnounceEnv) : (r.processAnnouncement masternodes a env).state.params = r.params := by
  have hwrites := writesNodes_processAnnouncement r masternodes a env
  unfold WritesNodes at hwrites
  rw [hwrites]

theorem step_params (r : Registry) (ev : Event) : (step r ev).params = r.params := by
  rcases step_cases r ev with ⟨masternodes, a, env, -, rfl, -⟩ | h
  · exact params_processAnnouncement r masternodes a env
  · exact h.params

/-- The nodes of a class keep the rules of the class, whatever they go through. -/
theorem run_params (params : ClassParams) (es : List Event) : (run params es).params = params :=
  List.foldlRecOn (motive := fun r => r.params = params) es step rfl fun r h ev _ => (step_params r ev).trans h

end Registry
end NodeQuorum
