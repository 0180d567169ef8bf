/-
  NodeQuorum.Proofs.Lock.Holders — who holds the locked outputs.

  `Sound` says how the tables of the locks belong together: everything stands under its own transaction, and an
  output is held only by a requested transaction that spends it, has a ballot, and is complete or was refused by
  the pool. Every event keeps it (`sound_step`), so it holds after every run (`run_sound`).
-/

import NodeQuorum.Proofs.Lock.Run

namespace NodeQuorum.Locks

/-- Whether a transaction holds an output by right: it was requested and spends the output, and its ballot is
    complete or the pool refused it. -/
def Held (s : Locks) (o : OutPoint) (txid : Hash) : Prop :=
  ∃ tx l, s.requested? txid = some tx ∧ o ∈ tx.spends ∧ s.ballots[txid]? = some l ∧
    (l.isComplete = true ∨ s.rejected.contains txid = true)

/-- The tables of the locks belong together. -/
structure Sound (s : Locks) : Prop where
  ballot_txid : ∀ (t : Hash) (l : Lock), s.ballots[t]? = some l → l.txid = t
  request_txid : ∀ (t : Hash) (tx : Transaction), s.requests[t]? = some tx → tx.txid = t
  rejected_txid : ∀ (t : Hash) (tx : Transaction), s.rejected[t]? = some tx → tx.txid = t
  agree : ∀ (t : Hash) (tx tx' : Transaction), s.requests[t]? = some tx → s.rejected[t]? = some tx' → tx = tx'
  holder : ∀ (o : OutPoint) (t : Hash), s.inputs[o]? = some t → Held s o t

theorem sound_empty : Sound empty := by
  refine ⟨?_, ?_, ?_, ?_, ?_⟩ <;> simp [empty]

theorem requested?_eq (s : Locks) (txid : Hash) : s.requested? txid = s.requests[txid]?.or s.rejected[txid]? := by
  unfold requested?
  cases s.requests[txid]? <;> rfl

/-- A requested transaction stands under its own name. -/
theorem Sound.requested_txid {s : Locks} (h : Sound s) {txid : Hash} {tx : Transaction}
    (hr : s.requested? txid = some tx) : tx.txid = txid := by
  rw [requested?_eq, Option.or_eq_some_iff] at hr
  rcases hr with hr | ⟨-, hr⟩
  · exact h.request_txid txid tx hr
  · exact h.rejected_txid txid tx hr

/-- A holder stays one by right while its request is kept, its ballot loses no vote, and it stays refused. -/
theorem Held.mono {s s' : Locks} {o : OutPoint} {t : Hash} (h : Held s o t) (hr : s'.requested? t = s.requested? t)
    (hb : ∀ l, s.ballots[t]? = some l → ∃ l', s'.ballots[t]? = some l' ∧ l.signatures ≤ l'.signatures)
    (hj : s.rejected.contains t = true → s'.rejected.contains t = true) : Held s' o t := by
  obtain ⟨tx, l, htx, ho, hl, hc⟩ := h
  obtain ⟨l', hl', hle⟩ := hb l hl
  refine ⟨tx, l', hr.trans htx, ho, hl', ?_⟩
  rcases hc with hc | hc
  · exact Or.inl (decide_eq_true (Nat.le_trans (of_decide_eq_true hc) hle))
  · exact Or.inr (hj hc)

/-! ## Moves -/

theorem sound_quiet {s s' : Locks} (h : Sound s) (h1 : s'.requests = s.requests) (h2 : s'.rejected = s.rejected)
    (h3 : s'.ballots = s.ballots) (h4 : s'.inputs = s.inputs) : Sound s' := by
  refine ⟨h3 ▸ h.ballot_txid, h1 ▸ h.request_txid, h2 ▸ h.rejected_txid, h1 ▸ h2 ▸ h.agree, ?_⟩
  intro o t ho
  have hheld := h.holder o t (h4 ▸ ho)
  refine hheld.mono ?_ (fun l hl => ⟨l, h3 ▸ hl, Nat.le_refl _⟩) (fun hj => h2 ▸ hj)
  rw [requested?_eq, requested?_eq, h1, h2]

/-- A ballot that is opened is the transaction's own. -/
theorem sound_openBallot {s : Locks} (h : Sound s) {tx : Transaction} (hnew : s.isRequested tx.txid = false)
    (height : Nat) (now : Int) : Sound (s.openBallot tx height now) := by
  have hrejected : s.rejected[tx.txid]? = none := by
    rw [Table.getElem?_eq_none_iff]
    exact (Bool.or_eq_false_iff.mp hnew).2
  refine ⟨Table.forall_insert h.ballot_txid ?_, Table.forall_insert h.request_txid rfl, h.rejected_txid, ?_, ?_⟩
  · split
    · rename_i l hl
      exact h.ballot_txid tx.txid l hl
    · rfl
  · intro t a b ha hb
    simp only [openBallot, Table.lookup_insert] at ha
    split at ha
    · rename_i he
      rw [show (s.openBallot tx height now).rejected = s.rejected from rfl, ← he, hrejected] at hb
      cases hb
    · exact h.agree t a b ha hb
  · intro o t ho
    have hheld := h.holder o t ho
    -- a holder was requested before, so it is another transaction
    have hne : tx.txid ≠ t := by
      rintro rfl
      obtain ⟨tx', -, htx', -⟩ := hheld
      rw [isRequested_of_requested? htx'] at hnew
      cases hnew
    refine hheld.mono ?_ (fun l hl => ⟨l, ?_, Nat.le_refl _⟩) id
    · simp only [requested?_eq, openBallot, Table.lookup_insert, if_neg hne]
    · simp only [openBallot, Table.lookup_insert, if_neg hne]
      exact hl

/-- Changing ballots keeps the tables together as long as each keeps its name and loses no vote. -/
theorem sound_ballots {s : Locks} (h : Sound s) {ballots : Table Hash Lock}
    (hid : ∀ (t : Hash) (l : Lock), ballots[t]? = some l → l.txid = t)
    (hle : ∀ (t : Hash) (l : Lock), s.ballots[t]? = some l →
      ∃ l', ballots[t]? = some l' ∧ l.signatures ≤ l'.signatures) :
    Sound { s with ballots } :=
  ⟨hid, h.request_txid, h.rejected_txid, h.agree, fun o t ho => (h.holder o t ho).mono rfl (hle t) id⟩

theorem sound_await {s : Locks} (h : Sound s) (txid : Hash) (now : Int) :
    Sound { s with ballots := s.ballots.insertIfNew txid (.create txid 0 now) } := by
  refine sound_ballots h ?_ ?_
  · intro t l hl
    rw [Table.lookup_insertIfNew, Option.or_eq_some_iff] at hl
    rcases hl with hl | ⟨-, hl⟩
    · exact h.ballot_txid t l hl
    by_cases he : txid = t
    · rw [if_pos he] at hl
      cases hl
      exact he
    · rw [if_neg he] at hl
      cases hl
  · intro t l hl
    refine ⟨l, ?_, Nat.le_refl _⟩
    rw [Table.lookup_insertIfNew, hl, Option.some_or]

theorem signatures_append (l : Lock) (v : LockVote) :
    l.signatures ≤ ({ l with votes := l.votes ++ [v] } : Lock).signatures := by
  unfold Lock.signatures
  dsimp only
  split
  · exact Nat.le_refl _
  · rw [List.countP_append]
    exact Nat.le_add_right _ _

/-- Changing one ballot in place keeps the tables together if it keeps its name and loses no vote. -/
theorem sound_modify {s : Locks} (h : Sound s) (txid : Hash) {f : Lock → Lock} (hid : ∀ l, (f l).txid = l.txid)
    (hle : ∀ l, l.signatures ≤ (f l).signatures) : Sound { s with ballots := s.ballots.modify txid f } := by
  refine sound_ballots h ?_ ?_
  · intro t l hl
    rw [Table.lookup_modify] at hl
    by_cases he : txid = t
    · rw [if_pos he] at hl
      obtain ⟨l', hl', rfl⟩ := Option.map_eq_some_iff.mp hl
      exact (hid l').trans (h.ballot_txid t l' hl')
    · rw [if_neg he] at hl
      exact h.ballot_txid t l hl
  · intro t l hl
    rw [Table.lookup_modify, hl]
    by_cases he : txid = t
    · rw [if_pos he]
      exact ⟨f l, rfl, hle l⟩
    · rw [if_neg he]
      exact ⟨l, rfl, Nat.le_refl _⟩

theorem sound_markCompleted {s : Locks} (h : Sound s) (txid : Hash) : Sound (s.markCompleted txid).1 := by
  obtain ⟨h1, h2, h3, h4⟩ := markCompleted_spec s txid
  have hmarked : Sound { s with ballots := s.ballots.modify txid fun l => { l with completed := true } } :=
    sound_modify h txid (fun _ => rfl) fun _ => Nat.le_refl _
  exact sound_quiet hmarked h2 h3 h1 h4

theorem sound_reject {s : Locks} (h : Sound s) {tx : Transaction} (hr : s.requests[tx.txid]? = some tx) :
    Sound { s with requests := s.requests.erase tx.txid, rejected := s.rejected.insert tx.txid tx } := by
  refine ⟨h.ballot_txid, Table.forall_erase h.request_txid _, Table.forall_insert h.rejected_txid rfl, ?_, ?_⟩
  · intro t a b ha hb
    rw [Table.lookup_erase] at ha
    rw [Table.lookup_insert] at hb
    by_cases he : tx.txid = t
    · rw [if_pos he] at ha
      cases ha
    · rw [if_neg he] at ha hb
      exact h.agree t a b ha hb
  · intro o t ho
    refine (h.holder o t ho).mono ?_ (fun l hl => ⟨l, hl, Nat.le_refl _⟩) ?_
    · rw [requested?_eq, requested?_eq, Table.lookup_erase, Table.lookup_insert]
      by_cases he : tx.txid = t
      · rw [if_pos he, if_pos he, ← he, hr, Option.none_or, Option.some_or]
      · rw [if_neg he, if_neg he]
    · intro hj
      dsimp only
      rw [Std.ExtTreeMap.contains_insert, hj, Bool.or_true]

/-- Outputs that nobody held are held by the transaction, and the others as before. -/
theorem lookup_hold (s : Locks) (txid : Hash) (outputs : List OutPoint) (o : OutPoint) :
    (s.hold txid outputs).inputs[o]? = s.inputs[o]?.or (if o ∈ outputs then some txid else none) := by
  unfold hold
  dsimp only
  generalize s.inputs = t
  induction outputs generalizing t with
  | nil => simp
  | cons x rest ih =>
    rw [List.foldl_cons, ih, Table.lookup_insertIfNew]
    by_cases hx : x = o
    · subst hx
      cases t[x]? <;> simp
    · simp [hx, Ne.symm hx]

theorem sound_hold {s : Locks} (h : Sound s) {txid : Hash} {tx : Transaction} {l : Lock}
    (hr : s.requested? txid = some tx) (hl : s.ballots[txid]? = some l)
    (hc : l.isComplete = true ∨ s.rejected.contains txid = true) : Sound (s.hold txid tx.spends) := by
  refine ⟨h.ballot_txid, h.request_txid, h.rejected_txid, h.agree, ?_⟩
  intro o t ho
  rw [lookup_hold, Option.or_eq_some_iff] at ho
  rcases ho with ho | ⟨-, ho⟩
  · exact h.holder o t ho
  · split at ho
    · rename_i hmem
      cases ho
      exact ⟨tx, l, hr, hmem, hl, hc⟩
    · cases ho

theorem sound_reinstate {s : Locks} (h : Sound s) {tx : Transaction} (hr : s.rejected[tx.txid]? = some tx) :
    Sound { s with requests := s.requests.insert tx.txid tx } := by
  refine ⟨h.ballot_txid, Table.forall_insert h.request_txid rfl, h.rejected_txid, ?_, ?_⟩
  · intro t a b ha hb
    rw [Table.lookup_insert] at ha
    by_cases he : tx.txid = t
    · rw [if_pos he] at ha
      cases ha
      dsimp only at hb
      rw [← he, hr] at hb
      exact Option.some.inj hb
    · rw [if_neg he] at ha
      exact h.agree t a b ha hb
  · intro o t ho
    refine (h.holder o t ho).mono ?_ (fun l hl => ⟨l, hl, Nat.le_refl _⟩) id
    rw [requested?_eq, requested?_eq, Table.lookup_insert]
    by_cases he : tx.txid = t
    · subst he
      rw [if_pos rfl]
      -- the reinstated transaction was refused, and if it was requested as well it is the same one
      cases hq : s.requests[tx.txid]? with
      | none => rw [hr, Option.some_or, Option.none_or]
      | some tx' => rw [h.agree _ tx' tx hq hr, Option.some_or]
    · rw [if_neg he]

theorem sound_move {s s' : Locks} (h : Sound s) (hm : Move s s') : Sound s' := by
  cases hm with
  | quiet h1 h2 h3 h4 => exact sound_quiet h h1 h2 h3 h4
  | openBallot hnew => exact sound_openBallot h hnew _ _
  | await => exact sound_await h _ _
  | addVote => exact sound_modify h _ (fun _ => rfl) fun l => signatures_append l _
  | markCompleted => exact sound_markCompleted h _
  | reject hr => exact sound_reject h hr
  | hold hr hl hc => exact sound_hold h hr hl hc
  | reinstate hr => exact sound_reinstate h hr

theorem sound_moves {s s' : Locks} (h : Sound s) (hm : Moves s s') : Sound s' := by
  induction hm with
  | refl => exact h
  | tail _ hmove ih => exact sound_move ih hmove

/-! ## Cancelling -/

theorem sound_expire {s : Locks} (h : Sound s) (txid : Hash) (now : Int) : Sound (s.expire txid now) :=
  sound_modify h txid (fun _ => rfl) fun _ => Nat.le_refl _

/-- Freeing outputs keeps the tables together. -/
theorem sound_inputs {s : Locks} (h : Sound s) {inputs : Table OutPoint Hash}
    (hle : ∀ (o : OutPoint) (t : Hash), inputs[o]? = some t → s.inputs[o]? = some t) : Sound { s with inputs } :=
  ⟨h.ballot_txid, h.request_txid, h.rejected_txid, h.agree, fun o t ho => h.holder o t (hle o t ho)⟩

theorem sound_cancelConflict {s : Locks} (h : Sound s) (tx : Transaction) (now : Int) :
    Sound (s.cancelConflict tx now).1 := by
  unfold cancelConflict
  split
  · exact h
  · rename_i other _
    have hexpired := sound_expire (sound_expire h tx.txid now) other now
    let kept := s.inputs.filter fun _ holder => decide (holder ≠ tx.txid ∧ holder ≠ other)
    have hkept : ∀ (o : OutPoint) (t : Hash), kept[o]? = some t → s.inputs[o]? = some t := by
      intro o t ho
      rw [Std.ExtTreeMap.getElem?_filter', Option.filter_eq_some_iff] at ho
      exact ho.1
    exact sound_quiet (sound_inputs hexpired hkept) rfl rfl rfl rfl

/-! ## A sweep -/

/-- The outputs that a transaction holds are freed where it spends them. -/
theorem lookup_release (txid : Hash) (outputs : List OutPoint) (t : Table OutPoint Hash) (o : OutPoint) :
    (outputs.foldl (fun t o => if t[o]? = some txid then t.erase o else t) t)[o]? =
      if o ∈ outputs ∧ t[o]? = some txid then none else t[o]? := by
  induction outputs generalizing t with
  | nil => simp
  | cons x rest ih =>
    rw [List.foldl_cons, ih]
    by_cases hx : t[x]? = some txid
    · rw [if_pos hx, Table.lookup_erase]
      by_cases ho : x = o
      · subst ho
        simp [hx]
      · simp [ho, Ne.symm ho]
    · rw [if_neg hx]
      by_cases ho : o = x
      · subst ho
        simp [hx]
      · simp [ho]

/-- Dropping a transaction frees the outputs that it spends and holds. -/
theorem lookup_drop (s : Locks) (txid : Hash) : ∃ outputs : List OutPoint,
    (∀ tx, s.requested? txid = some tx → outputs = tx.spends) ∧
    ∀ o, (s.drop txid).inputs[o]? = if o ∈ outputs ∧ s.inputs[o]? = some txid then none else s.inputs[o]? := by
  refine ⟨_, ?_, fun o => lookup_release txid _ s.inputs o⟩
  intro tx htx
  rw [htx]

theorem sound_drop {s : Locks} (h : Sound s) (txid : Hash) : Sound (s.drop txid) := by
  refine ⟨Table.forall_erase h.ballot_txid txid, Table.forall_erase h.request_txid txid,
    Table.forall_erase h.rejected_txid txid, ?_, ?_⟩
  · intro t a b ha hb
    simp only [drop, Table.lookup_erase] at ha hb
    by_cases he : txid = t
    · rw [if_pos he] at ha
      cases ha
    · rw [if_neg he] at ha hb
      exact h.agree t a b ha hb
  · intro o t ho
    obtain ⟨outputs, houtputs, hlookup⟩ := lookup_drop s txid
    rw [hlookup o] at ho
    by_cases hfreed : o ∈ outputs ∧ s.inputs[o]? = some txid
    · rw [if_pos hfreed] at ho
      cases ho
    rw [if_neg hfreed] at ho
    have hheld := h.holder o t ho
    -- the dropped transaction spends all that it held, so another one holds the output
    have hne : txid ≠ t := by
      rintro rfl
      obtain ⟨tx, l, htx, hmem, -⟩ := hheld
      exact hfreed ⟨houtputs tx htx ▸ hmem, ho⟩
    refine hheld.mono ?_ ?_ ?_
    · simp only [requested?_eq, drop, Table.lookup_erase, if_neg hne]
    · intro l hl
      refine ⟨l, ?_, Nat.le_refl _⟩
      simp only [drop, Table.lookup_erase, if_neg hne]
      exact hl
    · intro hj
      rw [Table.contains_iff_lookup] at hj ⊢
      simp only [drop, Table.lookup_erase, if_neg hne]
      exact hj

theorem sound_sweep {s : Locks} (h : Sound s) (c : Chain) (now : Int) : Sound (s.sweep c now).1 := by
  have hdropped : ∀ txids : List Hash, Sound (txids.foldl drop s) := fun txids =>
    List.foldlRecOn txids drop h fun _ hs t _ => sound_drop hs t
  exact sound_quiet (hdropped _) rfl rfl rfl rfl

/-! ## Every run -/

theorem sound_effect {s s' : Locks} {m m' : Mempool} {now : Int} {c : Option (Hash × Hash)} (h : Sound s)
    (he : Effect s m now s' m' c) : Sound s' := by
  cases he with
  | kept hmoves _ => exact sound_moves h hmoves
  | cancelled hmoves _ _ _ _ => exact sound_cancelConflict (sound_moves h hmoves) _ _

theorem sound_step {s : Locks} (h : Sound s) (e : Event) : Sound (step s e) := by
  cases e with
  | request tx registry mempool env => exact sound_effect h (request_effect ⟨s, registry, mempool⟩ tx env)
  | vote peer v registry mempool env => exact sound_effect h (vote_effect ⟨s, registry, mempool⟩ peer v env)
  | check tx now => exact sound_cancelConflict h tx now
  | sweep chain now => exact sound_sweep h chain now
  | takeRollback => exact sound_quiet h rfl rfl rfl rfl
  | clear => exact sound_quiet sound_empty rfl rfl rfl rfl

theorem run_sound (es : List Event) : Sound (run es) :=
  List.foldlRecOn es step sound_empty fun _ h e _ => sound_step h e

end NodeQuorum.Locks
