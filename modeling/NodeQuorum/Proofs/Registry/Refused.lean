/-
  NodeQuorum.Proofs.Registry.Refused — a refused announcement leaves the nodes as they were.

  An announcement that does not just refresh an entry passes the full check and then replaces it: the old entry is
  taken out first, and the new one is put in only if a look finds it enabled. Nothing takes the old entry back, so that
  look must not fail:
  - `skew_lt_expiration`: an announcement is taken with a ping that is younger than an entry may get before it expires.
  - `enabled_of_owned`: the look asks nothing else that the full check (`Owned`) did not ask before.
  - `Replaces` is all that it takes to get as far as the replacement, and `added_iff_replaces` says that who gets there
    is added.
  `a_refused_announcement_leaves_the_nodes_as_they_were` is both, for every announcement.
-/

import NodeQuorum.Proofs.Registry.Life

namespace NodeQuorum

theorem ClassParams.skew_lt_expiration (c : NodeClass) : Registry.maxSkew < (ClassParams.of c).expirationSeconds := by
  cases c <;> decide

namespace Registry

variable {r : Registry} {masternodes : Option Registry} {a : Announcement} {env : AnnounceEnv}

/-! ## The new entry -/

/-- A look finds the entry of a well-made announcement enabled if its signer owns the collateral. -/
theorem enabled_of_owned {c : NodeClass} {key : PublicKey} (hclass : r.params = .of c)
    (hmade : WellMade masternodes a env key)
    (howned : Owned env.chain r.params a.outpoint a.collateralKey a.sigTime) : (r.fresh a env).isEnabled = true := by
  have horder : r.params.expirationSeconds ≤ r.params.removalSeconds := by
    rw [hclass]
    exact ClassParams.expires_before_removal c
  have hskew : maxSkew < r.params.expirationSeconds := by
    rw [hclass]
    exact ClassParams.skew_lt_expiration c
  obtain ⟨-, hrecent⟩ := checkPingTime_eq_ok.mp hmade.pingTime
  obtain ⟨coin, hcoin, -, hvalue, -⟩ := howned
  unfold fresh
  rw [NodeEntry.isEnabled_check_iff horder (NodeEntry.isDue_force _ _ _)]
  refine ⟨?_, ?_, ?_⟩
  · show NodeState.enabled ≠ .spent
    decide
  · exact ⟨coin, hcoin, hvalue⟩
  · exact ⟨a.lastPing, rfl, by omega⟩

/-! ## A refusal -/

/-- Nothing is sent but for an announcement that is accepted. -/
theorem sent_or_accepted (r : Registry) (masternodes : Option Registry) (a : Announcement) (env : AnnounceEnv) :
    (r.processAnnouncement masternodes a env).sent = [] ∨
      ∃ v, (r.processAnnouncement masternodes a env).verdict = .ok v := by
  have hreplace : ∀ r : Registry, (r.replace a env).sent = [] ∨ ∃ v, (r.replace a env).verdict = .ok v := by
    intro r
    unfold replace
    dsimp only
    split
    · exact Or.inl rfl
    · exact Or.inr ⟨_, rfl⟩
  have henter : ∀ r : Registry, (r.enter a env).sent = [] ∨ ∃ v, (r.enter a env).verdict = .ok v := by
    intro r
    unfold enter
    split
    · exact Or.inl rfl
    dsimp only
    split
    · exact Or.inl rfl
    split
    · exact Or.inl rfl
    · exact hreplace r
  unfold processAnnouncement
  split
  · exact Or.inl rfl
  dsimp only
  split
  · exact Or.inl rfl
  unfold settle
  split
  · exact henter _
  split
  · exact Or.inl rfl
  split
  · exact Or.inr ⟨_, rfl⟩
  · exact henter _

/-- A refused announcement leaves the entries: that the new one is not enabled never happens. -/
theorem entries_of_refused {c : NodeClass} {e : Reject} (hclass : r.params = .of c)
    (h : (r.processAnnouncement masternodes a env).verdict = .error e) :
    (r.processAnnouncement masternodes a env).state.entries = r.entries := by
  have htaken := processAnnouncement_taken r masternodes a env
  rw [h] at htaken
  generalize (r.processAnnouncement masternodes a env).state.entries = after at htaken ⊢
  cases htaken with
  | refused => rfl
  | dropped _ hmade _ howned hoff => exact absurd (enabled_of_owned hclass hmade howned) hoff

/-! ## The full check -/

/-- An announcement that gets as far as the replacement of the entry: it was not seen, it is well made and newer than an
    entry that it does not just refresh, and its signer owns the collateral. -/
structure Replaces (r : Registry) (masternodes : Option Registry) (a : Announcement) (env : AnnounceEnv) : Prop where
  unseen : ¬ r.seenAnnouncements.contains a.hash = true
  made : WellMade masternodes a env (r.pingKey a)
  newer : ∀ e, r.find? a.outpoint = some e → e.sigTime < a.sigTime
  /-- The entry is not enabled, or another key announces it now. -/
  anew : ∀ e, r.find? a.outpoint = some e → ¬ (e.isEnabled = true ∧ e.collateralKey = a.collateralKey)
  owned : Owned env.chain r.params a.outpoint a.collateralKey a.sigTime

theorem processAnnouncement_of_replaces (h : Replaces r masternodes a env) :
    r.processAnnouncement masternodes a env = (r.rememberAnnouncement a).replace a env := by
  have henter : (r.rememberAnnouncement a).enter a env = (r.rememberAnnouncement a).replace a env :=
    enter_of_owned h.owned
  rw [processAnnouncement_of_wellMade h.unseen h.made, ← henter]
  cases he : (r.rememberAnnouncement a).find? a.outpoint with
  | none => exact settle_of_unknown he env
  | some e => rw [settle_of_newer he (h.newer e he), if_neg (h.anew e he)]

/-- Exactly those that get there are added. -/
theorem added_iff_replaces {c : NodeClass} (hclass : r.params = .of c) :
    (r.processAnnouncement masternodes a env).verdict = .ok .added ↔ Replaces r masternodes a env := by
  constructor
  · intro hadded
    have hunseen := unseen_of_accepted hadded
    have htaken := processAnnouncement_taken r masternodes a env
    rw [hadded] at htaken
    generalize (r.processAnnouncement masternodes a env).state.entries = after at htaken
    cases htaken with
    | entered hmade hnewer howned _ =>
      refine ⟨hunseen, hmade, hnewer, ?_, howned⟩
      intro e he hsame
      have hfind : (r.rememberAnnouncement a).find? a.outpoint = some e := he
      rw [processAnnouncement_of_wellMade hunseen hmade, settle_of_newer hfind (hnewer e he), if_pos hsame] at hadded
      cases hadded
  · intro h
    have hon : ((r.rememberAnnouncement a).fresh a env).isEnabled = true := enabled_of_owned hclass h.made h.owned
    rw [processAnnouncement_of_replaces h]
    exact (replace_of_enabled hon).1

/-! ## Every announcement -/

/-- An announcement to the registry of either class that is refused leaves the entries as they were, and changes and
    sends nothing else but that it may be remembered as seen. One that gets as far as the replacement of the entry is
    never refused: with the old entry taken out, the new one is enabled and always goes in. -/
theorem a_refused_announcement_leaves_the_nodes_as_they_were (c : NodeClass) (r : Registry) (hclass : r.params = .of c)
    (masternodes : Option Registry) (a : Announcement) (env : AnnounceEnv) :
    let handled := r.processAnnouncement masternodes a env
    (∀ e, handled.verdict = .error e →
      handled.state.entries = r.entries ∧
      handled.state = { r with seenAnnouncements := handled.state.seenAnnouncements } ∧ handled.sent = []) ∧
    (handled.verdict = .ok .added ↔ Replaces r masternodes a env) ∧
    (Replaces r masternodes a env →
      (r.fresh a env).isEnabled = true ∧
      ((r.rememberAnnouncement a).remove a.outpoint).add (r.fresh a env) = some handled.state) := by
  intro handled
  refine ⟨?_, added_iff_replaces hclass, ?_⟩
  · intro e he
    have hentries : handled.state.entries = r.entries := entries_of_refused hclass he
    have hwrites : WritesNodes r handled.state := writesNodes_processAnnouncement r masternodes a env
    unfold WritesNodes at hwrites
    rw [hentries] at hwrites
    refine ⟨hentries, hwrites, (sent_or_accepted r masternodes a env).resolve_right ?_⟩
    rintro ⟨v, hv⟩
    exact nomatch hv.symm.trans he
  · intro h
    have hon : (r.fresh a env).isEnabled = true := enabled_of_owned hclass h.made h.owned
    have hremembered : ((r.rememberAnnouncement a).fresh a env).isEnabled = true := hon
    have hstate : handled.state =
        { r.rememberAnnouncement a with
          entries := (r.entries.erase a.outpoint).insert a.outpoint (r.fresh a env) } := by
      show (r.processAnnouncement masternodes a env).state = _
      rw [processAnnouncement_of_replaces h]
      exact (replace_of_enabled hremembered).2
    rw [hstate]
    exact ⟨hon, add_fresh hremembered⟩

/-! ## A node that expired -/

/-- The entry of a node that was announced some time ago and expired. -/
def lapsedEntry : NodeEntry :=
  { NodeEntry.ofAnnouncement .masternode underOldOperator with sigTime := 1600000500, state := .expired }

def lapsed : Registry := { empty .masternode with entries := (∅ : Table OutPoint NodeEntry).insert ⟨1, 0⟩ lapsedEntry }

theorem find?_lapsed : lapsed.find? underOldOperator.outpoint = some lapsedEntry :=
  (Table.lookup_insert _ _ _ _).trans (if_pos rfl)

theorem lapsed_replaced : Replaces lapsed none underOldOperator handoverEnv := by
  have haccepted := accepted_under_either_operator
  have hacceptable := acceptable_of_accepted haccepted.unknown rfl
    (haccepted.accepted underOldOperator List.mem_cons_self)
  refine ⟨hacceptable.unseen, ?_, ?_, ?_, hacceptable.owned⟩
  · rw [pingKey_of_some find?_lapsed]
    exact hacceptable.made
  · intro e he
    rw [find?_lapsed] at he
    cases he
    decide
  · intro e he
    rw [find?_lapsed] at he
    cases he
    decide

/-- It is replaced by its next announcement, but not an hour after the ping of that. -/
theorem an_expired_entry_is_replaced_or_left_alone :
    let late : AnnounceEnv := { handoverEnv with now := underOldOperator.lastPing.sigTime + maxSkew }
    lapsed.params = .of .masternode ∧
    (lapsed.processAnnouncement none underOldOperator handoverEnv).verdict = .ok .added ∧
    (lapsed.processAnnouncement none underOldOperator late).state.entries = lapsed.entries := by
  intro late
  have hnow := a_refused_announcement_leaves_the_nodes_as_they_were .masternode lapsed rfl none underOldOperator
    handoverEnv
  have hlate := a_refused_announcement_leaves_the_nodes_as_they_were .masternode lapsed rfl none underOldOperator late
  have hunmade : ¬ WellMade none underOldOperator late (lapsed.pingKey underOldOperator) := by
    intro hmade
    have hrecent := (checkPingTime_eq_ok.mp hmade.pingTime).2
    revert hrecent
    decide
  obtain ⟨⟨e, he⟩, -⟩ := processAnnouncement_of_not_wellMade lapsed_replaced.unseen hunmade
  exact ⟨rfl, hnow.2.1.mpr lapsed_replaced, (hlate.1 e he).1⟩

end Registry
end NodeQuorum
