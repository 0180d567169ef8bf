/-
  NodeQuorum.Proofs.Quorum.Progress — what keeps a synchronisation in its stage.

  The stage of an item lasts as long as items come that count as progress. An announcement or a payment vote counts if
  it is accepted, and up to twice if it is stale, as one that is stored already would be. But more is stale than what
  is stored:
  - `lastProgress_message`: the messages that count are exactly those (`Counts`).
  - `stale_announcement_iff`: an announcement is stale that was refused before, since it is remembered before it is
    looked at. So each one that nobody signed counts when it comes again (`counts_again`).
  - `stale_paymentVote_iff`: a payment vote is stale whose voter was heard for its height last, whoever signed it, and a
    forged vote makes its voter heard.
  - `stage_of_flood`: so announcements that nobody signed keep a node in the stage of the list as long as they come.
  `refused_items_count_when_they_come_again` says this of every state.
-/

import NodeQuorum.Proofs.Payment.Forged
import NodeQuorum.Proofs.Quorum.Served
import NodeQuorum.Proofs.Sync.Stages

namespace NodeQuorum

/-- What a message brings of the lists that are pulled from peers. -/
def Message.item? : Message → Option (NodeClass × SyncItem × Hash)
  | .announcement c a => some (c, .list, a.hash)
  | .paymentVote c v => some (c, .winners, v.hash)
  | _ => none

namespace ItemProgress

/-- How often a hash was noted. -/
def noted (p : ItemProgress) (hash : Hash) : Nat := p.seen[hash]?.getD 0

variable {p : ItemProgress} {hash : Hash}

theorem last_of_counting {known : Bool} (h : known = false ∨ p.noted hash < threshold) (now : Int) :
    (p.note hash known now).last = now := by
  unfold note
  split
  · rename_i count hcount
    split
    · rfl
    rename_i hknown
    rw [if_pos]
    have hless := h.resolve_left (by simpa using hknown)
    rwa [noted, hcount] at hless
  · rfl

theorem note_of_worn (h : ¬ p.noted hash < threshold) (now : Int) : p.note hash true now = p := by
  unfold noted at h
  unfold note
  split
  · rename_i count hcount
    rw [hcount, Option.getD_some] at h
    rw [if_neg (by simp), if_neg h]
  · rename_i hnone
    rw [hnone] at h
    exact absurd (by decide) h

/-- Something is noted once at a time, and nothing else with it. -/
theorem noted_note_le (p : ItemProgress) (hash : Hash) (known : Bool) (now : Int) :
    (p.note hash known now).noted hash ≤ p.noted hash + 1 := by
  unfold note
  split
  · rename_i count hcount
    split
    · simp [noted]
    split
    · simp [noted, hcount]
    · exact Nat.le_succ _
  · simp [noted]

theorem noted_note_of_ne {other : Hash} (h : hash ≠ other) (known : Bool) (now : Int) :
    (p.note hash known now).noted other = p.noted other := by
  have hinsert : ∀ count : Nat, (p.seen.insert hash count)[other]? = p.seen[other]? := fun count =>
    (Table.lookup_insert _ _ _ _).trans (if_neg h)
  unfold note
  split
  · split
    · simp only [noted, hinsert]
    split
    · simp only [noted, hinsert]
    · rfl
  · simp only [noted, hinsert]

end ItemProgress

namespace SyncTracker

/-- While items count, a pass within ten seconds of the last one leaves the stage. -/
theorem tick_of_recent {t : SyncTracker} {item : SyncItem} (h : t.stage = item.stage) {now : Int}
    (hpos : 0 < (t.progress item).last) (hrecent : now ≤ (t.progress item).last + 2 * interval)
    (chainSynced enforced : Bool) : t.tick now chainSynced enforced = t := by
  have hsettle : t.settle item now enforced = t := by
    unfold settle
    dsimp only
    rw [if_neg (by omega), if_neg (by omega)]
  rw [tick_of_running (Or.inr ⟨item, h⟩), proceed_of_item h, hsettle, ite_self]

end SyncTracker

namespace Quorum

/-! ## What counts -/

/-- A refusal as no newer than what is known. -/
def Stale {α : Type} (outcome : Except Reject α) : Prop := ∃ reason, outcome = .error (.stale reason)

/-- The outcomes that count as progress, by how often the hash was noted before. -/
def Counting (verdict : Verdict) (noted : Nat) : Prop :=
  (∃ v, verdict = .ok v) ∨ (Stale verdict ∧ noted < ItemProgress.threshold)

/-- The time of the last progress of an item of a class. -/
def lastProgress (q : Quorum) (c : NodeClass) (item : SyncItem) : Int := ((q.syncs.get c).progress item).last

/-- How often a hash was noted since the synchronisation of a class began. -/
def noted (q : Quorum) (c : NodeClass) (item : SyncItem) (hash : Hash) : Nat :=
  ((q.syncs.get c).progress item).noted hash

/-- A message counts as progress of an item of a class. -/
def Counts (q : Quorum) (peer : Peer) (m : Message) (now : Int) (c : NodeClass) (item : SyncItem) : Prop :=
  ∃ hash, m.item? = some (c, item, hash) ∧ Counting (q.process peer m now).verdict (q.noted c item hash)

variable {q : Quorum} {c : NodeClass} {item : SyncItem} {hash : Hash} {verdict : Verdict} {now : Int}

/-- An outcome is written down in the trackers and nowhere else. -/
theorem syncs_noteItem_congr (q q' : Quorum) (h : q'.syncs = q.syncs) (c : NodeClass) (item : SyncItem) (hash : Hash)
    (verdict : Verdict) (now : Int) :
    (q'.noteItem c item hash verdict now).syncs = (q.noteItem c item hash verdict now).syncs := by
  unfold noteItem setSync
  split
  · rw [h]
  · split
    · rw [h]
    · exact h

theorem get_setSync_self (q : Quorum) (c : NodeClass) (t : SyncTracker) : (q.setSync c t).syncs.get c = t :=
  PerClass.get_set_self _ _ _

theorem progress_noteItem_of_counting (h : Counting verdict (q.noted c item hash)) (now : Int) :
    ∃ known, (known = false ∨ q.noted c item hash < ItemProgress.threshold) ∧
      (q.noteItem c item hash verdict now).syncs.get c = (q.syncs.get c).note item hash known now := by
  rcases h with ⟨v, rfl⟩ | ⟨⟨reason, rfl⟩, hless⟩
  · exact ⟨false, Or.inl rfl, get_setSync_self _ _ _⟩
  · exact ⟨true, Or.inr hless, get_setSync_self _ _ _⟩

theorem lastProgress_noteItem_of_counting (h : Counting verdict (q.noted c item hash)) (now : Int) :
    (q.noteItem c item hash verdict now).lastProgress c item = now := by
  obtain ⟨known, hknown, htracker⟩ := progress_noteItem_of_counting h now
  unfold lastProgress
  rw [htracker, SyncTracker.note, SyncTracker.progress_setProgress_self]
  exact ItemProgress.last_of_counting hknown now

/-- What does not count leaves the trackers. -/
theorem tracker_noteItem_of_not_counting (h : ¬ Counting verdict (q.noted c item hash)) (now : Int) (c' : NodeClass) :
    (q.noteItem c item hash verdict now).syncs.get c' = q.syncs.get c' := by
  have hset : ∀ (t : SyncTracker) (p : ItemProgress), t.progress item = p → t.setProgress item p = t := by
    rintro t p rfl
    cases item <;> rfl
  cases verdict with
  | ok v => exact absurd (Or.inl ⟨v, rfl⟩) h
  | error e =>
    unfold noteItem
    dsimp only
    split
    · rename_i hstale
      have hworn : ¬ q.noted c item hash < ItemProgress.threshold := by
        intro hless
        refine h (Or.inr ⟨?_, hless⟩)
        cases e <;> first | exact ⟨_, rfl⟩ | cases hstale
      have hsame : (q.syncs.get c).note item hash true now = q.syncs.get c :=
        hset _ _ (ItemProgress.note_of_worn hworn now).symm
      by_cases hc : c' = c
      · subst hc
        rw [get_setSync_self, hsame]
      · exact PerClass.get_set_of_ne _ _ hc
    · rfl

/-- A note of one item of a class leaves every other one. -/
theorem lastProgress_noteItem_of_ne {c' : NodeClass} {item' : SyncItem} (h : ¬ (c' = c ∧ item' = item)) (q : Quorum)
    (hash : Hash) (verdict : Verdict) (now : Int) :
    (q.noteItem c item hash verdict now).lastProgress c' item' = q.lastProgress c' item' := by
  have hnote : ∀ known, (q.setSync c ((q.syncs.get c).note item hash known now)).lastProgress c' item' =
      q.lastProgress c' item' := by
    intro known
    unfold lastProgress
    by_cases hc : c' = c
    · subst hc
      rw [get_setSync_self, SyncTracker.note, SyncTracker.progress_setProgress_of_ne _ fun hi => h ⟨rfl, hi⟩]
    · rw [setSync, PerClass.get_set_of_ne _ _ hc]
  unfold noteItem
  split
  · exact hnote false
  · split
    · exact hnote true
    · rfl

/-! ## Messages -/

theorem syncs_enableLocal (q : Quorum) (c : NodeClass) (a : Announcement) : (q.enableLocal c a).syncs = q.syncs := by
  unfold enableLocal
  split
  · split <;> rfl
  · rfl

theorem syncs_onAnnouncement (q : Quorum) (c : NodeClass) (a : Announcement) (now : Int) :
    (q.onAnnouncement c a now).state.syncs =
      (q.noteItem c .list a.hash (q.onAnnouncement c a now).verdict now).syncs := by
  let h := (q.registries.get c).processAnnouncement (q.hosts? c) a (q.announceEnv c now)
  have hnoted : ((q.setRegistry c h.state).noteItem c .list a.hash h.verdict now).syncs =
      (q.noteItem c .list a.hash h.verdict now).syncs :=
    syncs_noteItem_congr q (q.setRegistry c h.state) rfl c .list a.hash h.verdict now
  rw [onAnnouncement_eq]
  dsimp only
  split
  · rw [syncs_enableLocal]
    exact hnoted
  · exact hnoted

theorem syncs_onPaymentVote (q : Quorum) (peer : Peer) (c : NodeClass) (v : PaymentVote) (now : Int) :
    (q.onPaymentVote peer c v now).state.syncs =
      (q.noteItem c .winners v.hash (q.onPaymentVote peer c v now).verdict now).syncs := by
  let h := (q.payments.get c).process (q.registries.get c) peer v (q.paymentEnv c now)
  exact syncs_noteItem_congr q ((q.setPayments c h.state.payments).setRegistry c h.state.registry) rfl c .winners v.hash
    h.verdict now

theorem syncs_settleLocks (q : Quorum) (h : Handled LockState) (now : Int) :
    (q.settleLocks h now).state.syncs = q.syncs := by
  unfold settleLocks
  dsimp only
  split <;> rfl

/-- A message that brings an item is written down by its outcome. -/
theorem syncs_of_item {m : Message} (h : m.item? = some (c, item, hash)) (q : Quorum) (peer : Peer) (now : Int) :
    (q.process peer m now).state.syncs = (q.noteItem c item hash (q.process peer m now).verdict now).syncs := by
  cases m with
  | announcement c a =>
    cases h
    exact syncs_onAnnouncement q c a now
  | paymentVote c v =>
    cases h
    exact syncs_onPaymentVote q peer c v now
  | _ => cases h

/-- No other message is progress, a reported count included. -/
theorem lastProgress_of_no_item {m : Message} (h : m.item? = none) (q : Quorum) (peer : Peer) (now : Int)
    (c : NodeClass) (item : SyncItem) : (q.process peer m now).state.lastProgress c item = q.lastProgress c item := by
  have hsame : (q.process peer m now).state.syncs = q.syncs →
      (q.process peer m now).state.lastProgress c item = q.lastProgress c item := by
    intro hsyncs
    unfold lastProgress
    rw [hsyncs]
  cases m with
  | announcement c a => cases h
  | paymentVote c v => cases h
  | spork record =>
    refine hsame ?_
    show (q.onSpork record now).state.syncs = q.syncs
    unfold onSpork
    split
    · rfl
    · rename_i action _
      cases action <;> rfl
  | getSporks => rfl
  | ping c p =>
    refine hsame ?_
    show (q.onPing peer.id c p now).state.syncs = q.syncs
    unfold onPing
    dsimp only
    split
    · rfl
    · split <;> rfl
  | getList c requested => rfl
  | getPaymentVotes c needed =>
    refine hsame ?_
    show (q.onGetPaymentVotes peer c needed now).state.syncs = q.syncs
    unfold onGetPaymentVotes
    dsimp only
    split
    · rfl
    split
    · rfl
    · split <;> rfl
  | syncCount c' item' count =>
    show (q.onSyncCount c' item' count).state.lastProgress c item = q.lastProgress c item
    unfold onSyncCount SyncTracker.count?
    split
    · rename_i t ht
      split at ht
      · cases ht
        unfold lastProgress
        by_cases hc : c = c'
        · subst hc
          dsimp only
          rw [get_setSync_self]
          by_cases hi : item = item'
          · subst hi
            rw [SyncTracker.progress_setProgress_self]
            rfl
          · rw [SyncTracker.progress_setProgress_of_ne _ hi]
        · dsimp only
          rw [setSync, PerClass.get_set_of_ne _ _ hc]
      · cases ht
    · rfl
  | lockRequest tx => exact hsame (syncs_settleLocks q _ now)
  | lockVote v => exact hsame (syncs_settleLocks q _ now)
  | lockList => rfl

/-- The messages that count move the time of the last progress to their own, and no other message moves it. -/
theorem lastProgress_message (q : Quorum) (peer : Peer) (m : Message) (now : Int) (c : NodeClass) (item : SyncItem) :
    (Counts q peer m now c item → (q.step (.message peer m now)).lastProgress c item = now) ∧
      (¬ Counts q peer m now c item →
        (q.step (.message peer m now)).lastProgress c item = q.lastProgress c item) := by
  show (_ → (q.process peer m now).state.lastProgress c item = now) ∧
    (_ → (q.process peer m now).state.lastProgress c item = q.lastProgress c item)
  have hnoted : ∀ c' item' hash, m.item? = some (c', item', hash) →
      (q.process peer m now).state.lastProgress c item =
        (q.noteItem c' item' hash (q.process peer m now).verdict now).lastProgress c item := by
    intro c' item' hash hitem
    unfold lastProgress
    rw [syncs_of_item hitem]
  constructor
  · rintro ⟨hash, hitem, hcounting⟩
    rw [hnoted c item hash hitem]
    exact lastProgress_noteItem_of_counting hcounting now
  · intro hnot
    cases hitem : m.item? with
    | none => exact lastProgress_of_no_item hitem q peer now c item
    | some brought =>
      obtain ⟨c', item', hash⟩ := brought
      rw [hnoted c' item' hash hitem]
      by_cases hsame : c = c' ∧ item = item'
      · obtain ⟨rfl, rfl⟩ := hsame
        unfold lastProgress
        rw [tracker_noteItem_of_not_counting fun hcounting => hnot ⟨hash, hitem, hcounting⟩]
      · exact lastProgress_noteItem_of_ne hsame q hash _ now

/-! ## Announcements that are stale -/

theorem not_stale_demand {p : Prop} [Decidable p] {e : Reject} (h : ∀ reason, e ≠ .stale reason) :
    ¬ Stale (demand p e) := by
  rintro ⟨reason, hstale⟩
  exact h reason (demand_eq_error.mp hstale).2

theorem not_stale_bind {x : Except Reject Unit} {k : Unit → Except Reject Unit} (hx : ¬ Stale x)
    (hk : ¬ Stale (k ())) : ¬ Stale (x >>= k) := by
  cases x with
  | ok _ => exact hk
  | error e =>
    rintro ⟨reason, hstale⟩
    cases hstale
    exact hx ⟨reason, rfl⟩

theorem not_stale_mapError {ε : Type} {f : ε → Reject} {x : Except ε Unit}
    (h : ∀ e reason, f e ≠ .stale reason) :
    ¬ Stale (x.mapError f) := by
  cases x with
  | ok _ => exact nofun
  | error e =>
    rintro ⟨reason, hstale⟩
    exact h e reason (Except.error.inj hstale)

/-- What is not well made is refused for that, and not as known. -/
theorem not_stale_checks (r : Registry) (masternodes : Option Registry) (a : Announcement) (env : AnnounceEnv) :
    ¬ Stale (do r.checkAddress masternodes a env; r.checkAnnouncement a env) := by
  have haddress : ¬ Stale (r.checkAddress masternodes a env) :=
    not_stale_bind (not_stale_demand nofun) (not_stale_demand nofun)
  have hpingTime : ¬ Stale (Registry.checkPingTime a.lastPing env.now) :=
    not_stale_bind (not_stale_demand nofun) (not_stale_demand nofun)
  have hpingSignature : ¬ Stale (Registry.checkPingSignature a.lastPing (r.pingKey a)) := not_stale_mapError nofun
  have hsignature : ¬ Stale (r.checkSignature a) := not_stale_mapError nofun
  refine not_stale_bind haddress ?_
  unfold Registry.checkAnnouncement
  dsimp only
  refine not_stale_bind (not_stale_demand nofun) ?_
  refine not_stale_bind (not_stale_demand nofun) ?_
  refine not_stale_bind (not_stale_demand nofun) ?_
  refine not_stale_bind (not_stale_demand nofun) ?_
  refine not_stale_bind hpingTime ?_
  refine not_stale_bind hpingSignature ?_
  exact not_stale_bind hsignature (not_stale_demand nofun)

theorem not_stale_enter (r : Registry) (a : Announcement) (env : AnnounceEnv) : ¬ Stale (r.enter a env).verdict := by
  have hconfirmed : ∀ coin, ¬ Stale (r.checkConfirmed a coin env) := by
    intro coin
    unfold Registry.checkConfirmed
    split
    · exact nofun
    · exact not_stale_demand nofun
  unfold Registry.enter
  split
  · rename_i e he
    rintro ⟨reason, hstale⟩
    cases hstale
    unfold Registry.ownedCoin at he
    dsimp only at he
    split at he
    · cases he
    split at he
    · cases he
    split at he <;> cases he
  dsimp only
  split
  · exact nofun
  split
  · rename_i e he
    rintro ⟨reason, hstale⟩
    cases hstale
    exact hconfirmed _ ⟨reason, he⟩
  · unfold Registry.replace
    dsimp only
    split <;> exact nofun

/-- Stale is an announcement that is remembered, and one that is well made but no newer than its entry. -/
theorem stale_announcement_iff {r : Registry} {masternodes : Option Registry} {a : Announcement} {env : AnnounceEnv} :
    Stale (r.processAnnouncement masternodes a env).verdict ↔
      r.seenAnnouncements.contains a.hash = true ∨
        (Registry.WellMade masternodes a env (r.pingKey a) ∧
          ∃ e, r.find? a.outpoint = some e ∧ a.sigTime ≤ e.sigTime) := by
  by_cases hseen : r.seenAnnouncements.contains a.hash = true
  · refine iff_of_true ?_ (Or.inl hseen)
    unfold Registry.processAnnouncement
    rw [if_pos hseen]
    exact ⟨_, rfl⟩
  rw [or_iff_right hseen]
  by_cases hmade : Registry.WellMade masternodes a env (r.pingKey a)
  · rw [Registry.processAnnouncement_of_wellMade hseen hmade, and_iff_right hmade]
    cases hfind : (r.rememberAnnouncement a).find? a.outpoint with
    | none =>
      rw [Registry.settle_of_unknown hfind]
      refine iff_of_false (not_stale_enter _ a env) ?_
      rintro ⟨e, he, -⟩
      exact nomatch hfind.symm.trans he
    | some e =>
      by_cases hold : a.sigTime ≤ e.sigTime
      · refine iff_of_true ?_ ⟨e, hfind, hold⟩
        unfold Registry.settle
        rw [hfind]
        dsimp only
        rw [if_pos hold]
        exact ⟨_, rfl⟩
      · refine iff_of_false ?_ ?_
        · rw [Registry.settle_of_newer hfind (Int.not_le.mp hold)]
          split
          · exact nofun
          · exact not_stale_enter _ a env
        · rintro ⟨e', he', hold'⟩
          rw [show r.find? a.outpoint = some e from hfind] at he'
          cases he'
          exact hold hold'
  · refine iff_of_false ?_ fun h => hmade h.1
    rintro ⟨reason, hstale⟩
    unfold Registry.processAnnouncement at hstale
    rw [if_neg hseen] at hstale
    dsimp only at hstale
    split at hstale
    · rename_i e he
      cases hstale
      exact not_stale_checks r masternodes a env ⟨reason, he⟩
    · rename_i hok
      exact hmade (Registry.checks_eq_ok.mp hok)

/-! ## Payment votes that are stale -/

section Votes

variable {p : Payments} {r : Registry} {peer : Peer} {v : PaymentVote} {env : PaymentEnv}

theorem stale_checkVote_iff : Stale (p.checkVote r peer v env) ↔
    Payments.minVoterProtocol ≤ peer.protocol ∧ (∃ tip, env.chain.tip? = some tip) ∧
      p.votes.contains v.hash = true := by
  unfold Payments.checkVote
  constructor
  · rintro ⟨reason, hstale⟩
    obtain ⟨-, hold⟩ | ⟨hpeer, hrest⟩ := demand_bind_eq_error.mp hstale
    · cases hold
    cases htip : env.chain.tip? with
    | none =>
      rw [htip] at hrest
      cases hrest
    | some tip =>
      rw [htip] at hrest
      obtain ⟨hknown, -⟩ | ⟨-, hfar⟩ := demand_bind_eq_error.mp hrest
      · exact ⟨hpeer, ⟨tip, rfl⟩, not_not.mp hknown⟩
      · cases (demand_eq_error.mp hfar).2
  · rintro ⟨hpeer, ⟨tip, htip⟩, hknown⟩
    refine ⟨p.nodeClass.name ++ " winner " ++ v.hash.text ++ " already seen", ?_⟩
    refine demand_bind_eq_error.mpr (.inr ⟨hpeer, ?_⟩)
    rw [htip]
    exact demand_bind_eq_error.mpr (.inl ⟨not_not.mpr hknown, rfl⟩)

theorem not_stale_checkVoter (r : Registry) (peer : Peer) (v : PaymentVote) (env : PaymentEnv) :
    ¬ Stale (Payments.checkVoter r peer v env).2.2 := by
  unfold Payments.checkVoter
  split
  · exact nofun
  split
  · exact nofun
  split
  · exact nofun
  dsimp only
  unfold Payments.checkRank
  split
  · exact nofun
  dsimp only
  split
  · exact nofun
  split
  · exact nofun
  · exact nofun

theorem not_stale_count (p : Payments) (r : Registry) (v : PaymentVote) (env : PaymentEnv) :
    ¬ Stale (p.count r v env).verdict := by
  unfold Payments.count
  split
  · exact nofun
  · exact nofun

/-- Stale is a payment vote that is stored, and one of a voter that was heard for its height last, whoever signed it. -/
theorem stale_paymentVote_iff : Stale (p.process r peer v env).verdict ↔
    (Payments.minVoterProtocol ≤ peer.protocol ∧ (∃ tip, env.chain.tip? = some tip) ∧
      p.votes.contains v.hash = true) ∨
    (p.Heard r peer v env ∧ p.lastVote[v.voter]? = some v.height) := by
  rw [← stale_checkVote_iff]
  by_cases hheard : p.Heard r peer v env
  · have hnew : ¬ Stale (p.checkVote r peer v env) := by
      rw [hheard.1]
      exact nofun
    rw [or_iff_right hnew, and_iff_right hheard, Payments.process_of_heard hheard]
    by_cases hrepeated : p.lastVote[v.voter]? = some v.height
    · rw [if_pos hrepeated]
      exact iff_of_true ⟨_, rfl⟩ hrepeated
    · rw [if_neg hrepeated]
      refine iff_of_false ?_ hrepeated
      split
      · exact not_stale_count _ _ _ _
      · exact nofun
  · rw [or_iff_left fun h => hheard h.1]
    unfold Payments.process
    cases hvote : p.checkVote r peer v env with
    | error e => exact ⟨fun ⟨reason, h⟩ => ⟨reason, congrArg Except.error (Except.error.inj h)⟩,
        fun ⟨reason, h⟩ => ⟨reason, congrArg Except.error (Except.error.inj h)⟩⟩
    | ok _ =>
      refine iff_of_false ?_ nofun
      have hvoter := not_stale_checkVoter r peer v env
      dsimp only
      generalize houtcome : Payments.checkVoter r peer v env = outcome at hvoter ⊢
      obtain ⟨r', sent, result⟩ := outcome
      cases result with
      | error e =>
        rintro ⟨reason, hstale⟩
        exact hvoter ⟨reason, congrArg Except.error (Except.error.inj hstale)⟩
      | ok _ => exact absurd ⟨hvote, congrArg (fun x => x.2.2) houtcome⟩ hheard

end Votes

/-! ## What comes again -/

/-- An announcement is remembered by a class. -/
def Remembers (q : Quorum) (c : NodeClass) (a : Announcement) : Prop :=
  (q.registries.get c).seenAnnouncements.contains a.hash = true

/-- An announcement passes the checks that need nothing of the chain. -/
def WellMade (q : Quorum) (c : NodeClass) (a : Announcement) (now : Int) : Prop :=
  Registry.WellMade (q.hosts? c) a (q.announceEnv c now) ((q.registries.get c).pingKey a)

variable {a : Announcement} {v : PaymentVote} {peer : Peer}

theorem registry_onAnnouncement (q : Quorum) (c : NodeClass) (a : Announcement) (now : Int) :
    (q.onAnnouncement c a now).state.registries.get c =
      ((q.registries.get c).processAnnouncement (q.hosts? c) a (q.announceEnv c now)).state := by
  let h := (q.registries.get c).processAnnouncement (q.hosts? c) a (q.announceEnv c now)
  have hnoted := (noteItem_parts (q.setRegistry c h.state) c .list a.hash h.verdict now).1
  have hset : (q.setRegistry c h.state).registries.get c = h.state := PerClass.get_set_self _ _ _
  rw [onAnnouncement_eq]
  dsimp only
  split
  · rw [enableLocal_registries, hnoted]
    exact hset
  · rw [hnoted]
    exact hset

/-- An announcement that is remembered counts until it was noted twice. -/
theorem lastProgress_of_remembered (h : Remembers q c a) (hless : q.noted c .list a.hash < ItemProgress.threshold)
    (peer : Peer) (now : Int) : (q.step (.message peer (.announcement c a) now)).lastProgress c .list = now := by
  have hstale : Stale (q.process peer (.announcement c a) now).verdict := stale_announcement_iff.mpr (Or.inl h)
  exact (lastProgress_message q peer _ now c .list).1 ⟨a.hash, rfl, Or.inr ⟨hstale, hless⟩⟩

/-- An announcement that is new and not well made is refused, is remembered, and leaves nodes and trackers. -/
structure RefusedAtFirst (q : Quorum) (peer : Peer) (c : NodeClass) (a : Announcement) (now : Int) : Prop where
  refused : ∃ e, (q.process peer (.announcement c a) now).verdict = .error e
  remembered : Remembers (q.step (.message peer (.announcement c a) now)) c a
  nodes : ((q.step (.message peer (.announcement c a) now)).registries.get c).entries = (q.registries.get c).entries
  trackers : ∀ c', (q.step (.message peer (.announcement c a) now)).syncs.get c' = q.syncs.get c'

theorem refusedAtFirst (hnew : ¬ Remembers q c a) (hmade : ¬ WellMade q c a now) (peer : Peer) :
    RefusedAtFirst q peer c a now := by
  obtain ⟨hrefused, hstate⟩ := Registry.processAnnouncement_of_not_wellMade hnew hmade
  have hregistry := registry_onAnnouncement q c a now
  rw [hstate] at hregistry
  have hnot : ¬ Counting (q.process peer (.announcement c a) now).verdict (q.noted c .list a.hash) := by
    rintro (⟨v, hv⟩ | ⟨hstale, -⟩)
    · obtain ⟨e, he⟩ := hrefused
      exact nomatch hv.symm.trans he
    · rcases stale_announcement_iff.mp hstale with hseen | ⟨hok, -⟩
      · exact hnew hseen
      · exact hmade hok
  refine ⟨hrefused, ?_, ?_, ?_⟩
  · show ((q.onAnnouncement c a now).state.registries.get c).seenAnnouncements.contains a.hash = true
    rw [hregistry]
    exact Std.ExtTreeMap.contains_insert_self
  · show ((q.onAnnouncement c a now).state.registries.get c).entries = _
    rw [hregistry]
    rfl
  · intro c'
    show (q.process peer (.announcement c a) now).state.syncs.get c' = _
    rw [syncs_of_item (m := .announcement c a) rfl]
    exact tracker_noteItem_of_not_counting hnot now c'

/-- The state of the votes behind a message that brings one. -/
theorem payments_onPaymentVote (q : Quorum) (peer : Peer) (c : NodeClass) (v : PaymentVote) (now : Int) :
    (q.onPaymentVote peer c v now).state.payments.get c =
      ((q.payments.get c).process (q.registries.get c) peer v (q.paymentEnv c now)).state.payments := by
  let h := (q.payments.get c).process (q.registries.get c) peer v (q.paymentEnv c now)
  have hset : ((q.setPayments c h.state.payments).setRegistry c h.state.registry).payments.get c = h.state.payments :=
    PerClass.get_set_self _ _ _
  unfold onPaymentVote
  dsimp only
  rw [(noteItem_parts _ c .winners v.hash _ now).2]
  exact hset

/-- A forged vote changes nothing but the height that is remembered of its voter. -/
theorem forged_changes (h : (q.payments.get c).Forged (q.registries.get c) peer v (q.paymentEnv c now)) :
    (q.step (.message peer (.paymentVote c v) now)).payments.get c = (q.payments.get c).noted v ∧
      ∀ c', (q.step (.message peer (.paymentVote c v) now)).syncs.get c' = q.syncs.get c' := by
  have hprocess := Payments.process_of_forged h
  constructor
  · have hpayments := payments_onPaymentVote q peer c v now
    rw [hprocess] at hpayments
    exact hpayments
  · intro c'
    have hnot : ¬ Counting (q.process peer (.paymentVote c v) now).verdict (q.noted c .winners v.hash) := by
      have hverdict := congrArg Handled.verdict hprocess
      rintro (⟨_, hok⟩ | ⟨⟨_, hstale⟩, -⟩)
      · exact nomatch hok.symm.trans hverdict
      · exact nomatch hstale.symm.trans hverdict
    show (q.process peer (.paymentVote c v) now).state.syncs.get c' = _
    rw [syncs_of_item (m := .paymentVote c v) rfl]
    exact tracker_noteItem_of_not_counting hnot now c'

/-- A vote whose voter was heard for its height last counts until it was noted twice, and changes no vote. -/
theorem lastProgress_of_repeated
    (hheard : (q.payments.get c).Heard (q.registries.get c) peer v (q.paymentEnv c now))
    (hlast : (q.payments.get c).lastVote[v.voter]? = some v.height)
    (hless : q.noted c .winners v.hash < ItemProgress.threshold) :
    (q.step (.message peer (.paymentVote c v) now)).lastProgress c .winners = now ∧
      (q.step (.message peer (.paymentVote c v) now)).payments.get c = q.payments.get c := by
  have hstale : Stale (q.process peer (.paymentVote c v) now).verdict :=
    stale_paymentVote_iff.mpr (Or.inr ⟨hheard, hlast⟩)
  refine ⟨(lastProgress_message q peer _ now c .winners).1 ⟨v.hash, rfl, Or.inr ⟨hstale, hless⟩⟩, ?_⟩
  have hpayments := payments_onPaymentVote q peer c v now
  rw [Payments.process_of_heard hheard, if_pos hlast] at hpayments
  exact hpayments

/-! ## A flood -/

/-- An announcement that somebody sends twice, and the passes up to the next one. -/
structure Wave where
  sender : Peer
  sent : Announcement
  sentAt : Int
  passes : List Int

def Wave.events (c : NodeClass) (w : Wave) : List Event :=
  let message : Event := .message w.sender (.announcement c w.sent) w.sentAt
  message :: message :: w.passes.map .upkeep

/-- Announcements that nobody signed, each of them with a hash of its own that was not noted before, and no pass more
    than ten seconds after the last of them. -/
structure Flood (q : Quorum) (c : NodeClass) (waves : List Wave) : Prop where
  unsigned : ∀ w ∈ waves, ¬ w.sent.collateralKey.Signed w.sent.signature w.sent.text
  distinct : (waves.map fun w => w.sent.hash).Nodup
  unnoted : ∀ w ∈ waves, q.noted c .list w.sent.hash = 0
  pressing : ∀ w ∈ waves, 0 < w.sentAt ∧ ∀ pass ∈ w.passes, pass ≤ w.sentAt + 10

/-- An announcement is noted in its own class, or nowhere. -/
theorem tracker_announcement (q : Quorum) (peer : Peer) (c : NodeClass) (a : Announcement) (now : Int) :
    (q.step (.message peer (.announcement c a) now)).syncs.get c = q.syncs.get c ∨
      ∃ known, (q.step (.message peer (.announcement c a) now)).syncs.get c =
        (q.syncs.get c).note .list a.hash known now := by
  show (q.process peer (.announcement c a) now).state.syncs.get c = _ ∨
    ∃ known, (q.process peer (.announcement c a) now).state.syncs.get c = _
  rw [syncs_of_item (m := .announcement c a) rfl]
  by_cases h : Counting (q.process peer (.announcement c a) now).verdict (q.noted c .list a.hash)
  · obtain ⟨known, -, htracker⟩ := progress_noteItem_of_counting h now
    exact Or.inr ⟨known, htracker⟩
  · exact Or.inl (tracker_noteItem_of_not_counting h now c)

theorem stage_announcement (q : Quorum) (peer : Peer) (c : NodeClass) (a : Announcement) (now : Int) :
    ((q.step (.message peer (.announcement c a) now)).syncs.get c).stage = (q.syncs.get c).stage := by
  rcases tracker_announcement q peer c a now with h | ⟨known, h⟩
  · rw [h]
  · rw [h]
    exact SyncTracker.stage_setProgress _ _ _

theorem noted_announcement_le (q : Quorum) (peer : Peer) (c : NodeClass) (a : Announcement) (now : Int) :
    (q.step (.message peer (.announcement c a) now)).noted c .list a.hash ≤ q.noted c .list a.hash + 1 := by
  unfold noted
  rcases tracker_announcement q peer c a now with h | ⟨known, h⟩
  · rw [h]
    exact Nat.le_succ _
  · rw [h, SyncTracker.note, SyncTracker.progress_setProgress_self]
    exact ItemProgress.noted_note_le _ _ _ _

theorem noted_announcement_of_ne (h : a.hash ≠ hash) (q : Quorum) (peer : Peer) (c : NodeClass) (now : Int) :
    (q.step (.message peer (.announcement c a) now)).noted c .list hash = q.noted c .list hash := by
  unfold noted
  rcases tracker_announcement q peer c a now with htracker | ⟨known, htracker⟩
  · rw [htracker]
  · rw [htracker, SyncTracker.note, SyncTracker.progress_setProgress_self]
    exact ItemProgress.noted_note_of_ne h _ _

theorem tracker_sweepClass (q : Quorum) (c c' : NodeClass) (now : Int) :
    (q.sweepClass c now).1.chain = q.chain ∧
      if c' = c then
        ∃ enforced, (q.sweepClass c now).1.syncs.get c' = (q.syncs.get c').tick now q.chain.synced enforced
      else (q.sweepClass c now).1.syncs.get c' = q.syncs.get c' := by
  have hsyncs : (q.sweepClass c now).1.chain = q.chain ∧ (q.sweepClass c now).1.syncs =
      q.syncs.set c ((q.syncs.get c).tick now q.chain.synced
        (q.sporks.isActive (q.params.forClass c).enforcement now)) := by
    unfold sweepClass
    dsimp only
    split <;> exact ⟨rfl, rfl⟩
  refine ⟨hsyncs.1, ?_⟩
  rw [hsyncs.2]
  split
  · rename_i hc
    subst hc
    exact ⟨_, PerClass.get_set_self _ _ _⟩
  · rename_i hc
    exact PerClass.get_set_of_ne _ _ hc

/-- A pass is a tick for either class. -/
theorem tracker_upkeep (q : Quorum) (c : NodeClass) (now : Int) :
    ∃ enforced, (q.step (.upkeep now)).syncs.get c = (q.syncs.get c).tick now q.chain.synced enforced := by
  have hlocal : ∀ q : Quorum, (q.manageLocal now).1.syncs = q.syncs := by
    intro q
    unfold manageLocal
    split <;> rfl
  have hswept : (q.step (.upkeep now)).syncs =
      ((q.sweepClass .masternode now).1.sweepClass .systemnode now).1.syncs := by
    show (q.upkeep now).1.syncs = _
    rw [(upkeep_eq q now).1, hlocal]
    rfl
  obtain ⟨hchain, hfirst⟩ := tracker_sweepClass q .masternode c now
  obtain ⟨-, hsecond⟩ := tracker_sweepClass (q.sweepClass .masternode now).1 .systemnode c now
  rw [hswept]
  cases c with
  | masternode =>
    obtain ⟨enforced, hticked⟩ := hfirst
    exact ⟨enforced, hsecond.trans hticked⟩
  | systemnode =>
    obtain ⟨enforced, hticked⟩ := hsecond
    refine ⟨enforced, hticked.trans ?_⟩
    rw [show (q.sweepClass .masternode now).1.syncs.get .systemnode = q.syncs.get .systemnode from hfirst, hchain]

/-- Passes within ten seconds of the last progress leave a stage as it is. -/
theorem tracker_passes (passes : List Int) :
    ∀ q : Quorum, (q.syncs.get c).stage = item.stage → 0 < q.lastProgress c item →
      (∀ pass ∈ passes, pass ≤ q.lastProgress c item + 10) →
      ((passes.map Event.upkeep).foldl step q).syncs.get c = q.syncs.get c := by
  induction passes with
  | nil => exact fun _ _ _ _ => rfl
  | cons pass rest ih =>
    intro q hstage hpos hrecent
    obtain ⟨enforced, hticked⟩ := tracker_upkeep q c pass
    have hkept : (q.step (.upkeep pass)).syncs.get c = q.syncs.get c :=
      hticked.trans (SyncTracker.tick_of_recent hstage hpos (hrecent pass List.mem_cons_self) _ _)
    have hlast : (q.step (.upkeep pass)).lastProgress c item = q.lastProgress c item := by
      unfold lastProgress
      rw [hkept]
    rw [List.map_cons, List.foldl_cons, ih, hkept]
    · rw [hkept]
      exact hstage
    · rw [hlast]
      exact hpos
    · intro later hlater
      rw [hlast]
      exact hrecent later (List.mem_cons_of_mem _ hlater)

/-- An announcement that nobody signed is not well made. -/
theorem not_wellMade_of_unsigned (h : ¬ a.collateralKey.Signed a.signature a.text) (q : Quorum) (c : NodeClass)
    (now : Int) : ¬ WellMade q c a now := fun hmade => h hmade.signed

/-- Sent twice, it counts, whether it was remembered before or not. -/
theorem lastProgress_of_twice (hunsigned : ¬ a.collateralKey.Signed a.signature a.text)
    (hnoted : q.noted c .list a.hash = 0) (peer : Peer) (now : Int) :
    let message : Event := .message peer (.announcement c a) now
    ((q.step message).step message).lastProgress c .list = now := by
  intro message
  have hless : (q.step message).noted c .list a.hash < ItemProgress.threshold := by
    have hle : (q.step message).noted c .list a.hash ≤ q.noted c .list a.hash + 1 :=
      noted_announcement_le q peer c a now
    unfold ItemProgress.threshold
    omega
  refine lastProgress_of_remembered ?_ hless peer now
  -- the first copy is remembered behind its refusal, and need not count itself
  by_cases hseen : Remembers q c a
  · have hregistry : (q.step message).registries.get c = q.registries.get c :=
      (registry_onAnnouncement q c a now).trans (Registry.processAnnouncement_of_seen hseen _ _).2
    unfold Remembers
    rw [hregistry]
    exact hseen
  · exact (refusedAtFirst hseen (not_wellMade_of_unsigned hunsigned q c now) peer).remembered

/-- A flood keeps a node in the stage of the list. -/
theorem stage_of_flood (waves : List Wave) : ∀ q : Quorum, (q.syncs.get c).stage = .list → Flood q c waves →
    (((waves.flatMap (Wave.events c)).foldl step q).syncs.get c).stage = .list := by
  induction waves with
  | nil => exact fun _ hstage _ => hstage
  | cons w rest ih =>
    intro q hstage hflood
    let message : Event := .message w.sender (.announcement c w.sent) w.sentAt
    let q₂ := (q.step message).step message
    let q₃ := (w.passes.map Event.upkeep).foldl step q₂
    -- the two copies of a wave set the time of the last progress, and its passes come too early to go on
    have hlast : q₂.lastProgress c .list = w.sentAt :=
      lastProgress_of_twice (hflood.unsigned w List.mem_cons_self) (hflood.unnoted w List.mem_cons_self) w.sender
        w.sentAt
    have hstage₂ : (q₂.syncs.get c).stage = SyncItem.list.stage :=
      (stage_announcement _ _ _ _ _).trans ((stage_announcement _ _ _ _ _).trans hstage)
    obtain ⟨hpos, hpasses⟩ := hflood.pressing w List.mem_cons_self
    have hkept : q₃.syncs.get c = q₂.syncs.get c := by
      refine tracker_passes w.passes q₂ hstage₂ ?_ ?_
      · rw [hlast]
        exact hpos
      · rw [hlast]
        exact hpasses
    obtain ⟨hother, hdistinct⟩ := List.nodup_cons.mp hflood.distinct
    have hnoted : ∀ w' ∈ rest, q₃.noted c .list w'.sent.hash = 0 := by
      intro w' hw'
      have hne : w.sent.hash ≠ w'.sent.hash := by
        intro heq
        refine hother ?_
        show w.sent.hash ∈ rest.map fun w => w.sent.hash
        rw [heq]
        exact List.mem_map_of_mem (f := fun w : Wave => w.sent.hash) hw'
      have hnoted₂ : q₂.noted c .list w'.sent.hash = q.noted c .list w'.sent.hash :=
        (noted_announcement_of_ne hne _ _ _ _).trans (noted_announcement_of_ne hne _ _ _ _)
      unfold noted
      rw [hkept]
      exact hnoted₂.trans (hflood.unnoted w' (List.mem_cons_of_mem _ hw'))
    have hrest : Flood q₃ c rest :=
      ⟨fun w' hw' => hflood.unsigned w' (List.mem_cons_of_mem _ hw'), hdistinct, hnoted,
        fun w' hw' => hflood.pressing w' (List.mem_cons_of_mem _ hw')⟩
    rw [List.flatMap_cons, List.foldl_append]
    refine ih q₃ ?_ hrest
    rw [hkept]
    exact hstage₂

/-! ## Every state -/

/-- In every state: a message moves the time of the last progress of an item to its own exactly if it brings an accepted
    or a stale item of that class and kind, a stale one only if its hash was noted less than twice. An announcement is
    stale exactly if it is remembered, or well made and no newer than its entry; a payment vote exactly if it is stored,
    or its voter may vote and was heard for its height last. But an announcement that is not well made is refused,
    changes neither nodes nor progress, and is remembered, and counts when it comes again. A forged vote is refused and
    changes nothing but the height remembered of its voter, and from then on any vote in that name for that height
    counts, signed or not, and changes no vote. So in the stage of the list a node stays for as long as somebody sends
    announcements that nobody signed, each of them twice, if no pass comes more than ten seconds after the last one. -/
theorem refused_items_count_when_they_come_again (q : Quorum) :
    (∀ peer m now c item,
      (Counts q peer m now c item → (q.step (.message peer m now)).lastProgress c item = now) ∧
      (¬ Counts q peer m now c item →
        (q.step (.message peer m now)).lastProgress c item = q.lastProgress c item)) ∧
    (∀ peer c a now, Stale (q.process peer (.announcement c a) now).verdict ↔
      Remembers q c a ∨
        (WellMade q c a now ∧ ∃ e, (q.registries.get c).find? a.outpoint = some e ∧ a.sigTime ≤ e.sigTime)) ∧
    (∀ peer c v now, Stale (q.process peer (.paymentVote c v) now).verdict ↔
      (Payments.minVoterProtocol ≤ peer.protocol ∧ (∃ tip, q.chain.tip? = some tip) ∧
        (q.payments.get c).votes.contains v.hash = true) ∨
      ((q.payments.get c).Heard (q.registries.get c) peer v (q.paymentEnv c now) ∧
        (q.payments.get c).lastVote[v.voter]? = some v.height)) ∧
    (∀ peer c a now, ¬ Remembers q c a → ¬ WellMade q c a now →
      let q' := q.step (.message peer (.announcement c a) now)
      RefusedAtFirst q peer c a now ∧
        (q.noted c .list a.hash < ItemProgress.threshold →
          ∀ peer' again, (q'.step (.message peer' (.announcement c a) again)).lastProgress c .list = again)) ∧
    (∀ peer c v now, (q.payments.get c).Forged (q.registries.get c) peer v (q.paymentEnv c now) →
      let q' := q.step (.message peer (.paymentVote c v) now)
      q'.payments.get c = (q.payments.get c).noted v ∧ (∀ c', q'.syncs.get c' = q.syncs.get c') ∧
        ∀ peer' u again, u.voter = v.voter → u.height = v.height →
          (q'.payments.get c).Heard (q'.registries.get c) peer' u (q'.paymentEnv c again) →
          q.noted c .winners u.hash < ItemProgress.threshold →
          let q'' := q'.step (.message peer' (.paymentVote c u) again)
          q''.lastProgress c .winners = again ∧ q''.payments.get c = q'.payments.get c) ∧
    ∀ c waves, (q.syncs.get c).stage = .list → Flood q c waves →
      (((waves.flatMap (Wave.events c)).foldl step q).syncs.get c).stage = .list := by
  refine ⟨lastProgress_message q, fun _ _ _ _ => stale_announcement_iff, fun _ _ _ _ => stale_paymentVote_iff, ?_, ?_,
    fun c waves => stage_of_flood waves q⟩
  · intro peer c a now hnew hmade q'
    have hrefused : RefusedAtFirst q peer c a now := refusedAtFirst hnew hmade peer
    refine ⟨hrefused, ?_⟩
    intro hless peer' again
    refine lastProgress_of_remembered hrefused.remembered ?_ peer' again
    unfold noted
    rw [hrefused.trackers]
    exact hless
  · intro peer c v now hforged q'
    obtain ⟨hpayments, htrackers⟩ := forged_changes hforged
    refine ⟨hpayments, htrackers, ?_⟩
    intro peer' u again hvoter hheight hheard hless q''
    have hlast : (q'.payments.get c).lastVote[u.voter]? = some u.height := by
      rw [hpayments, hvoter, hheight]
      exact Payments.remembered_self _ _ _
    refine lastProgress_of_repeated hheard hlast ?_
    unfold noted
    rw [htrackers]
    exact hless

/-! ## A node that waits for the list -/

/-- A node of a synchronised chain after two passes. -/
def listing : Quorum := run ⟨.regtest, none, ∅⟩ oneCoin 1 [.upkeep 1, .upkeep 11]

/-- An announcement that anybody can make. -/
def unsignedAnnouncement (sigTime : Int) : Announcement where
  outpoint := ⟨1, 0⟩
  address := ⟨.v4 0x08080808, 9340, 0⟩
  collateralKey := 1
  operatorKey := 1
  signature := []
  sigTime
  protocol := 70058
  lastPing := ⟨⟨1, 0⟩, 0, sigTime, []⟩

def waves : List Wave :=
  [⟨⟨1, ⟨.v4 0x7f000001, 9340, 0⟩, 70058⟩, unsignedAnnouncement 1, 30, [36, 40]⟩,
    ⟨⟨1, ⟨.v4 0x7f000001, 9340, 0⟩, 70058⟩, unsignedAnnouncement 2, 41, [45, 51]⟩]

/-- Left alone it goes on; two announcements that nobody signed hold it back. -/
theorem two_unsigned_announcements_hold_the_list_back :
    ((listing.step (.upkeep 37)).syncs.get .masternode).stage = .winners ∧ Flood listing .masternode waves ∧
      (((waves.flatMap (Wave.events .masternode)).foldl step listing).syncs.get .masternode).stage = .list := by
  have hstage : (listing.syncs.get .masternode).stage = .list := by decide +kernel
  have hflood : Flood listing .masternode waves := by
    refine ⟨?_, by decide +kernel, ?_, by decide⟩
    · decide +kernel
    · decide +kernel
  exact ⟨by decide +kernel, hflood,
    (refused_items_count_when_they_come_again listing).2.2.2.2.2 .masternode waves hstage hflood⟩

end Quorum
end NodeQuorum
