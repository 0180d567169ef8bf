/-
  NodeQuorum.Proofs.Registry.Ownership — entries are signed, and change hands only with their collaterals.

  Entries are written by announcements of two kinds, by pings, by looks at their state and by the local node.
  - `run_authentic`: whatever writes them, every entry stands under its own output, and its collateral key signed
    all that it was announced with.
  - `step_entry`: an event that leaves an entry has kept what it was announced with, or is a newer announcement
    under its key or from the owner of the collateral.
  - `entries_are_signed_and_change_hands_only_with_their_collaterals` puts both together for every run.
-/

import NodeQuorum.Proofs.Registry.Run

namespace NodeQuorum

/-! ## One entry -/

/-- An entry of a class stands under its own output, and its collateral key signed what it was announced with. -/
structure NodeEntry.Authentic (c : NodeClass) (o : OutPoint) (e : NodeEntry) : Prop where
  outpoint_eq : e.outpoint = o
  nodeClass_eq : e.nodeClass = c
  signed : e.collateralKey.Signed e.signature
    (Announcement.signedText e.address e.sigTime e.collateralKey e.operatorKey e.protocol)

namespace NodeEntry.Authentic

variable {c : NodeClass} {o : OutPoint}

theorem announced_iff {e : NodeEntry} : e.announced.Authentic c o ↔ e.Authentic c o :=
  ⟨fun h => ⟨h.outpoint_eq, h.nodeClass_eq, h.signed⟩, fun h => ⟨h.outpoint_eq, h.nodeClass_eq, h.signed⟩⟩

/-- Only what was announced matters. -/
theorem congr {e e' : NodeEntry} (h : e.Authentic c o) (he : e'.announced = e.announced) : e'.Authentic c o := by
  rw [← announced_iff, he]
  exact announced_iff.mpr h

theorem ofAnnouncement {a : Announcement} (h : a.collateralKey.Signed a.signature a.text) :
    (NodeEntry.ofAnnouncement c a).Authentic c a.outpoint :=
  ⟨rfl, rfl, h⟩

/-- A refreshed entry was announced with what a new one would have been. -/
theorem announced_refreshed {e : NodeEntry} {a : Announcement} (h : e.Authentic c a.outpoint) (chain : Chain)
    (p : ClassParams) (now : Int) :
    ((e.update a).check chain p now true).announced = (NodeEntry.ofAnnouncement c a).announced := by
  rw [announced_check, announced_update h.outpoint_eq, h.nodeClass_eq]

end NodeEntry.Authentic

/-- A collateral that was confirmed twice or more has the block that confirmed it. -/
theorem Chain.confirmed {c : Chain} {o : OutPoint} {coin : Coin} {confirmations : Nat} (hcoin : c.coins[o]? = some coin)
    (hmin : 1 < confirmations) (h : confirmations ≤ (c.confirmations? o).getD 0) :
    ∃ t, c.timeAt? (coin.height + confirmations - 1) = some t := by
  unfold confirmations? tip? at h
  rw [hcoin] at h
  by_cases hsize : c.blocks.size = 0
  · simp [hsize] at h
    omega
  · simp only [hsize, if_false, Option.getD_some] at h
    have hlt : coin.height + confirmations - 1 < c.blocks.size := by omega
    exact ⟨c.blocks[coin.height + confirmations - 1].time, by simp [timeAt?, hlt]⟩

namespace Registry

/-! ## What every run keeps -/

/-- Every entry is in order. -/
def Authentic (r : Registry) : Prop :=
  ∀ (o : OutPoint) (e : NodeEntry), r.entries[o]? = some e → e.Authentic r.nodeClass o

theorem authentic_empty (params : ClassParams) : (empty params).Authentic := by
  intro o e he
  simp [empty] at he

/-- An announcement leaves every entry in order. -/
theorem authentic_taken {r : Registry} (h : r.Authentic) {masternodes : Option Registry} {a : Announcement}
    {env : AnnounceEnv} {verdict : Verdict} {after : Table OutPoint NodeEntry}
    (ht : Taken r masternodes a env verdict after) :
    ∀ (o : OutPoint) (e : NodeEntry), after[o]? = some e → e.Authentic r.nodeClass o := by
  cases ht with
  | refused => exact h
  | @refreshed e hmade he _ _ _ =>
    have hannounced := (h a.outpoint e he).announced_refreshed env.chain r.params env.now
    exact Table.forall_insert h ((NodeEntry.Authentic.ofAnnouncement hmade.signed).congr hannounced)
  | entered hmade _ _ _ =>
    exact Table.forall_insert (Table.forall_erase h a.outpoint)
      ((NodeEntry.Authentic.ofAnnouncement hmade.signed).congr (announced_fresh r a env))
  | dropped => exact Table.forall_erase h a.outpoint

theorem authentic_step {r : Registry} (h : r.Authentic) (ev : Event) : (step r ev).Authentic := by
  have hclass : (step r ev).nodeClass = r.nodeClass := congrArg ClassParams.nodeClass (step_params r ev)
  intro o e' he'
  rw [hclass]
  rcases step_cases r ev with ⟨masternodes, a, env, verdict, -, ht⟩ | hkept
  · exact authentic_taken h ht o e' he'
  · obtain ⟨e, he, heq⟩ := hkept.entry o e' he'
    exact (h o e he).congr heq

theorem authentic_foldl {r : Registry} (h : r.Authentic) (es : List Event) : (es.foldl step r).Authentic :=
  List.foldlRecOn es step h fun _ h ev _ => authentic_step h ev

theorem run_authentic (params : ClassParams) (es : List Event) : (run params es).Authentic :=
  authentic_foldl (authentic_empty params) es

/-! ## What one event may do to an entry -/

/-- An entry that is there after an event was announced with the same before, or the event is an announcement that
    is newer than the entry before, under the same key or from the owner of the collateral. -/
theorem step_entry {r : Registry} (h : r.Authentic) {ev : Event} {o : OutPoint} {e' : NodeEntry}
    (he' : (step r ev).entries[o]? = some e') :
    (∃ e, r.entries[o]? = some e ∧ e'.announced = e.announced) ∨
    ∃ masternodes a env, ev = .announce masternodes a env ∧
      e'.announced = (NodeEntry.ofAnnouncement r.nodeClass a).announced ∧
      (∀ e, r.entries[o]? = some e → e.sigTime < a.sigTime) ∧
      ((∃ e, r.entries[o]? = some e ∧ e.collateralKey = a.collateralKey) ∨
        Owned env.chain r.params o a.collateralKey a.sigTime) := by
  rcases step_cases r ev with ⟨masternodes, a, env, verdict, hev, ht⟩ | hkept
  · generalize (step r ev).entries = after at ht he'
    by_cases ho : a.outpoint = o
    · subst ho
      cases ht with
      | refused => exact Or.inl ⟨e', he', rfl⟩
      | @refreshed e hmade he hnewer _ hkey =>
        rw [Table.lookup_insert, if_pos rfl] at he'
        cases he'
        refine Or.inr ⟨masternodes, a, env, hev, (h a.outpoint e he).announced_refreshed _ _ _, ?_,
          Or.inl ⟨e, he, hkey⟩⟩
        intro e'' he''
        rw [he] at he''
        cases he''
        exact hnewer
      | entered hmade hnewer howned _ =>
        rw [Table.lookup_insert, if_pos rfl] at he'
        cases he'
        exact Or.inr ⟨masternodes, a, env, hev, announced_fresh r a env, hnewer, Or.inr howned⟩
      | dropped =>
        rw [Table.lookup_erase, if_pos rfl] at he'
        cases he'
    -- an announcement of another output
    · exact Or.inl ⟨e', ht.lookup_of_ne ho ▸ he', rfl⟩
  · exact Or.inl (hkept.entry o e' he')

/-- An event does not put an older announcement in the place of a newer one. -/
theorem sigTime_le_step {r : Registry} (h : r.Authentic) {ev : Event} {o : OutPoint} {e e' : NodeEntry}
    (he : r.entries[o]? = some e) (he' : (step r ev).entries[o]? = some e') : e.sigTime ≤ e'.sigTime := by
  rcases step_entry h he' with ⟨e₀, he₀, heq⟩ | ⟨_, a, _, _, heq, hnewer, _⟩
  · rw [he] at he₀
    cases he₀
    exact Int.le_of_eq (congrArg NodeEntry.sigTime heq).symm
  · have hsig : e'.sigTime = a.sigTime := congrArg NodeEntry.sigTime heq
    have := hnewer e he
    omega

/-- Nor does a run, as long as it leaves an entry there. -/
theorem sigTime_le_foldl {more : List Event} {r : Registry} (h : r.Authentic) {o : OutPoint} {e e' : NodeEntry}
    (he : r.entries[o]? = some e)
    (hstays : ∀ part, part <+: more → (part.foldl step r).entries.contains o = true)
    (he' : (more.foldl step r).entries[o]? = some e') : e.sigTime ≤ e'.sigTime := by
  induction more generalizing r e with
  | nil =>
    rw [List.foldl_nil, he] at he'
    cases he'
    exact Int.le_refl _
  | cons ev rest ih =>
    have hfirst : (step r ev).entries.contains o = true :=
      hstays [ev] (List.prefix_append [ev] rest)
    obtain ⟨e₁, he₁⟩ := Table.contains_iff_lookup.mp hfirst
    have hle := sigTime_le_step h he he₁
    have hrest := ih (authentic_step h ev) he₁
      (fun part hpart => hstays (ev :: part) (List.cons_prefix_cons.mpr ⟨rfl, hpart⟩)) he'
    omega

/-! ## Every run -/

/-- After every run, every entry stands under its own output in its own class, and its collateral key signed just
    what it says. While an entry stays its signing time never falls. An event that makes an entry, or changes its
    collateral key, is an announcement under an unspent output that pays to the new key, with exactly the collateral
    and enough confirmations, and that was confirmed not later than the announcement was signed. -/
theorem entries_are_signed_and_change_hands_only_with_their_collaterals (params : ClassParams) (es : List Event) :
    (∀ (o : OutPoint) (e : NodeEntry), (run params es).entries[o]? = some e →
      e.outpoint = o ∧ e.nodeClass = params.nodeClass ∧
        e.collateralKey.Signed e.signature
          (Announcement.signedText e.address e.sigTime e.collateralKey e.operatorKey e.protocol)) ∧
    (∀ (more : List Event) (o : OutPoint) (e e' : NodeEntry), (run params es).entries[o]? = some e →
      (∀ part, part <+: more → (run params (es ++ part)).entries.contains o = true) →
      (run params (es ++ more)).entries[o]? = some e' → e.sigTime ≤ e'.sigTime) ∧
    (∀ (ev : Event) (o : OutPoint) (e' : NodeEntry), (run params (es ++ [ev])).entries[o]? = some e' →
      (∃ e, (run params es).entries[o]? = some e ∧ e.collateralKey = e'.collateralKey) ∨
      ∃ masternodes a env, ev = .announce masternodes a env ∧ ∃ coin : Coin,
        env.chain.coins[o]? = some coin ∧ coin.script = Script.ofPublicKey e'.collateralKey ∧
        coin.value = params.collateral ∧ params.minConfirmations ≤ (env.chain.confirmations? o).getD 0 ∧
        (∀ t, env.chain.timeAt? (coin.height + params.minConfirmations - 1) = some t → t ≤ e'.sigTime) ∧
        (1 < params.minConfirmations →
          ∃ t, env.chain.timeAt? (coin.height + params.minConfirmations - 1) = some t)) := by
  have hauthentic := run_authentic params es
  have hclass : (run params es).nodeClass = params.nodeClass := congrArg ClassParams.nodeClass (run_params params es)
  refine ⟨?_, ?_, ?_⟩
  · intro o e he
    have h := hauthentic o e he
    exact ⟨h.outpoint_eq, h.nodeClass_eq.trans hclass, h.signed⟩
  · intro more o e e' he hstays he'
    rw [run_append] at he'
    simp only [run_append] at hstays
    exact sigTime_le_foldl hauthentic he hstays he'
  · intro ev o e' he'
    rw [run_append] at he'
    rcases step_entry hauthentic he' with ⟨e, he, heq⟩ | ⟨masternodes, a, env, hev, heq, -, ⟨e, he, hkey⟩ | howned⟩
    · exact Or.inl ⟨e, he, (congrArg NodeEntry.collateralKey heq).symm⟩
    · exact Or.inl ⟨e, he, hkey.trans (congrArg NodeEntry.collateralKey heq).symm⟩
    · obtain ⟨coin, hcoin, hscript, hvalue, hage, htime⟩ := howned
      have hkey : e'.collateralKey = a.collateralKey := congrArg NodeEntry.collateralKey heq
      have hsig : e'.sigTime = a.sigTime := congrArg NodeEntry.sigTime heq
      rw [run_params] at hvalue hage htime
      exact Or.inr ⟨masternodes, a, env, hev, coin, hcoin, hkey ▸ hscript, hvalue, hage, hsig ▸ htime,
        fun hmin => Chain.confirmed hcoin hmin hage⟩

end Registry
end NodeQuorum
