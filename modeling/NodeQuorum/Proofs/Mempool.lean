/-
  NodeQuorum.Proofs.Mempool — the pool holds no two transactions that spend one output.

  The index says for an output which transaction spends it, and acceptance looks at nothing else. As long as the
  identities of the transactions offered tell them apart, index and pool agree in every run (`run_sound`):
  - `sound_accept`, `sound_remove`: one transaction more, or one less.
  - `Sound.refused_iff`: so a transaction is refused exactly if another one in the pool spends one of its inputs.
  - `Sound.accept_of_pooled`: one that is in the pool is accepted again and changes nothing.
  - `spentBy_remove`: one that is taken out frees its own inputs and no others.
  `the_pool_holds_no_double_spend` says this of all runs.
-/

import NodeQuorum.Mempool
import NodeQuorum.Proofs.Table

namespace NodeQuorum.Mempool

/-- What a pool goes through. -/
inductive Event where
  | accept (tx : Transaction)
  | remove (txid : Hash)

def step (m : Mempool) : Event → Mempool
  | .accept tx => match m.accept tx with
    | .ok m' => m'
    | .error _ => m
  | .remove txid => m.remove txid

/-- The pool after some events. -/
def run (es : List Event) : Mempool := es.foldl step empty

/-- The transactions that a run offers to the pool. -/
def offered (es : List Event) : List Transaction :=
  es.filterMap fun
    | .accept tx => some tx
    | .remove _ => none

/-- The pool holds a transaction under this identity that spends the output. -/
def Spends (m : Mempool) (txid : Hash) (o : OutPoint) : Prop :=
  ∃ tx, m.transactions[txid]? = some tx ∧ o ∈ tx.spends

variable {m m' : Mempool} {tx : Transaction} {txs : List Transaction} {txid t : Hash} {o : OutPoint}

/-! ## Looking for a conflict -/

theorem conflict?_eq_none_iff {os : List OutPoint} :
    m.conflict? txid os = none ↔ ∀ o ∈ os, ∀ spender, m.spentBy[o]? = some spender → spender = txid := by
  induction os with
  | nil => simp [conflict?]
  | cons o rest ih =>
    rw [conflict?, List.forall_mem_cons, ← ih]
    cases hspent : m.spentBy[o]? with
    | none => simp
    | some spender =>
      by_cases hs : spender = txid
      · simp [hs]
      · simp [hs]

/-- A conflict names one of the outputs and who else spends it. -/
theorem of_conflict? {os : List OutPoint} {e : DoubleSpend} (h : m.conflict? txid os = some e) :
    e.output ∈ os ∧ m.spentBy[e.output]? = some e.spender ∧ e.spender ≠ txid := by
  induction os with
  | nil => cases h
  | cons o rest ih =>
    rw [conflict?] at h
    have hlater : m.conflict? txid rest = some e →
        e.output ∈ o :: rest ∧ m.spentBy[e.output]? = some e.spender ∧ e.spender ≠ txid :=
      fun hrest => ⟨List.mem_cons_of_mem o (ih hrest).1, (ih hrest).2⟩
    cases hspent : m.spentBy[o]? with
    | none =>
      rw [hspent] at h
      exact hlater h
    | some spender =>
      rw [hspent] at h
      dsimp only at h
      split at h
      · exact hlater h
      · rename_i hne
        cases h
        exact ⟨List.mem_cons_self, hspent, hne⟩

/-- The index after an accepted transaction was written to it. -/
theorem lookup_written (os : List OutPoint) (txid : Hash) (index : Table OutPoint Hash) (o : OutPoint) :
    (os.foldl (fun t o => t.insert o txid) index)[o]? = if o ∈ os then some txid else index[o]? := by
  induction os generalizing index with
  | nil => simp
  | cons a rest ih =>
    rw [List.foldl_cons, ih, Table.lookup_insert]
    by_cases ho : o ∈ rest
    · simp [ho]
    · by_cases ha : a = o
      · simp [ha]
      · simp [ho, ha, Ne.symm ha]

/-- A transaction is accepted exactly if no other one is in the index for one of its inputs. -/
theorem accept_eq_ok_iff :
    m.accept tx = .ok m' ↔ m.conflict? tx.txid tx.spends = none ∧
      m' = ⟨m.transactions.insert tx.txid tx, tx.spends.foldl (fun t o => t.insert o tx.txid) m.spentBy⟩ := by
  unfold accept
  dsimp only
  cases m.conflict? tx.txid tx.spends with
  | none => simp [eq_comm]
  | some e => simp

theorem accept_eq_error_iff {e : DoubleSpend} : m.accept tx = .error e ↔ m.conflict? tx.txid tx.spends = some e := by
  unfold accept
  dsimp only
  cases m.conflict? tx.txid tx.spends with
  | none => simp
  | some e' => simp

/-! ## Pool and index -/

/-- The pool holds some of these transactions under their identities, and the index says who spends which output. -/
structure Sound (txs : List Transaction) (m : Mempool) : Prop where
  keyed : m.transactions.Keyed Transaction.txid
  among : ∀ (t : Hash) (tx : Transaction), m.transactions[t]? = some tx → tx ∈ txs
  indexed : ∀ (o : OutPoint) (t : Hash), m.spentBy[o]? = some t ↔ m.Spends t o

theorem sound_empty (txs : List Transaction) : Sound txs empty := by
  refine ⟨.empty _, ?_, ?_⟩
  · simp [empty]
  · simp [empty, Spends]

/-- What stands under the identity of one of the transactions is that transaction. -/
theorem Sound.eq_of_txid (h : Sound txs m) (hapart : Table.TellsApart Transaction.txid txs) (htx : tx ∈ txs)
    {tx' : Transaction} (hpooled : m.transactions[tx.txid]? = some tx') : tx' = tx :=
  hapart tx' (h.among _ _ hpooled) tx htx (h.keyed _ _ hpooled)

theorem sound_accept (h : Sound txs m) (hapart : Table.TellsApart Transaction.txid txs) (htx : tx ∈ txs)
    (haccept : m.accept tx = .ok m') : Sound txs m' := by
  obtain ⟨hfree, rfl⟩ := accept_eq_ok_iff.mp haccept
  rw [conflict?_eq_none_iff] at hfree
  refine ⟨h.keyed.insert tx, Table.forall_insert h.among htx, ?_⟩
  intro o t
  unfold Spends
  dsimp only
  rw [lookup_written, Table.lookup_insert]
  by_cases ht : tx.txid = t
  · subst ht
    rw [if_pos rfl]
    by_cases ho : o ∈ tx.spends
    · simp [ho]
    · -- the index has no input of the transaction that is none
      have hnot : ¬ m.Spends tx.txid o := by
        rintro ⟨tx', hpooled, ho'⟩
        rw [h.eq_of_txid hapart htx hpooled] at ho'
        exact ho ho'
      simp [ho, h.indexed, hnot]
  · rw [if_neg ht]
    by_cases ho : o ∈ tx.spends
    · -- the pool has no other spender, or there were a conflict
      have hnot : ¬ m.Spends t o := fun hspends => ht (hfree o ho t ((h.indexed o t).mpr hspends)).symm
      rw [if_pos ho]
      constructor
      · intro heq
        exact absurd (Option.some_inj.mp heq) ht
      · exact fun hspends => absurd hspends hnot
    · rw [if_neg ho]
      exact h.indexed o t

theorem lookup_remove (m : Mempool) (txid t : Hash) :
    (m.remove txid).transactions[t]? = if txid = t then none else m.transactions[t]? := by
  unfold remove
  split
  · exact Table.lookup_erase m.transactions txid t
  · rename_i hno
    by_cases ht : txid = t
    · subst ht
      rw [if_pos rfl, Table.getElem?_eq_none_iff]
      exact Bool.eq_false_iff.mpr hno
    · rw [if_neg ht]

/-- A transaction that is taken out leaves the index, and no other one does. -/
theorem spentBy_remove (h : Sound txs m) (txid : Hash) :
    (m.remove txid).spentBy[o]? = some t ↔ m.spentBy[o]? = some t ∧ t ≠ txid := by
  unfold remove
  split
  · rw [Std.ExtTreeMap.getElem?_filter', Option.filter_eq_some_iff]
    simp
  · rename_i hno
    refine ⟨fun hspent => ⟨hspent, ?_⟩, fun hspent => hspent.1⟩
    rintro rfl
    obtain ⟨tx, hpooled, -⟩ := (h.indexed o t).mp hspent
    exact hno (Table.contains_of_lookup hpooled)

theorem sound_remove (h : Sound txs m) (txid : Hash) : Sound txs (m.remove txid) := by
  have hkept : ∀ (t : Hash) (tx : Transaction),
      (m.remove txid).transactions[t]? = some tx ↔ m.transactions[t]? = some tx ∧ t ≠ txid := by
    intro t tx
    rw [lookup_remove]
    by_cases ht : txid = t
    · simp [ht]
    · simp [ht, Ne.symm ht]
  refine ⟨?_, ?_, ?_⟩
  · exact fun t tx htx => h.keyed t tx ((hkept t tx).mp htx).1
  · exact fun t tx htx => h.among t tx ((hkept t tx).mp htx).1
  · intro o t
    rw [spentBy_remove h, h.indexed]
    unfold Spends
    simp only [hkept]
    constructor
    · rintro ⟨⟨tx, hpooled, ho⟩, ht⟩
      exact ⟨tx, ⟨hpooled, ht⟩, ho⟩
    · rintro ⟨tx, ⟨hpooled, ht⟩, ho⟩
      exact ⟨⟨tx, hpooled, ho⟩, ht⟩

theorem sound_step (h : Sound txs m) (hapart : Table.TellsApart Transaction.txid txs) {e : Event}
    (he : ∀ tx, e = .accept tx → tx ∈ txs) : Sound txs (m.step e) := by
  cases e with
  | accept tx =>
    unfold step
    dsimp only
    split
    · rename_i haccept
      exact sound_accept h hapart (he tx rfl) haccept
    · exact h
  | remove txid => exact sound_remove h txid

/-- Pool and index agree in every run whose identities tell the transactions apart. -/
theorem run_sound {es : List Event} (hsub : ∀ tx ∈ offered es, tx ∈ txs)
    (hapart : Table.TellsApart Transaction.txid txs) : Sound txs (run es) := by
  refine List.foldlRecOn es step (sound_empty txs) fun m h e he => sound_step h hapart ?_
  rintro tx rfl
  exact hsub tx (List.mem_filterMap.mpr ⟨_, he, rfl⟩)

/-! ## What follows for one more event -/

/-- No two transactions of the pool spend one output. -/
theorem Sound.spender_unique (h : Sound txs m) {t' : Hash} (ht : m.Spends t o) (ht' : m.Spends t' o) : t = t' := by
  rw [← h.indexed] at ht ht'
  exact Option.some_inj.mp (ht.symm.trans ht')

/-- A transaction is refused exactly if another one of the pool spends one of its inputs. -/
theorem Sound.refused_iff (h : Sound txs m) (hapart : Table.TellsApart Transaction.txid txs) (htx : tx ∈ txs) :
    (∃ e, m.accept tx = .error e) ↔
      ∃ (t : Hash) (tx' : Transaction), m.transactions[t]? = some tx' ∧ tx' ≠ tx ∧ ∃ o ∈ tx.spends, o ∈ tx'.spends := by
  simp only [accept_eq_error_iff]
  constructor
  · rintro ⟨e, he⟩
    obtain ⟨ho, hspent, hne⟩ := of_conflict? he
    obtain ⟨tx', hpooled, ho'⟩ := (h.indexed _ _).mp hspent
    refine ⟨e.spender, tx', hpooled, ?_, e.output, ho, ho'⟩
    rintro rfl
    exact hne (h.keyed _ _ hpooled).symm
  · rintro ⟨t, tx', hpooled, hne, o, ho, ho'⟩
    cases hconflict : m.conflict? tx.txid tx.spends with
    | some e => exact ⟨e, rfl⟩
    | none =>
      obtain rfl := conflict?_eq_none_iff.mp hconflict o ho t ((h.indexed o t).mpr ⟨tx', hpooled, ho'⟩)
      exact absurd (h.eq_of_txid hapart htx hpooled) hne

/-- A transaction of the pool is accepted again and changes nothing. -/
theorem Sound.accept_of_pooled (h : Sound txs m) (hpooled : m.transactions[tx.txid]? = some tx) :
    m.accept tx = .ok m := by
  have hspent : ∀ o ∈ tx.spends, m.spentBy[o]? = some tx.txid := fun o ho => (h.indexed o _).mpr ⟨tx, hpooled, ho⟩
  rw [accept_eq_ok_iff, conflict?_eq_none_iff]
  refine ⟨?_, ?_⟩
  · intro o ho spender hspender
    exact Option.some_inj.mp (hspender.symm.trans (hspent o ho))
  · have htransactions : m.transactions.insert tx.txid tx = m.transactions := by
      refine Std.ExtTreeMap.ext_getElem? fun t => ?_
      rw [Table.lookup_insert]
      split
      · rename_i ht
        rw [← ht, hpooled]
      · rfl
    have hindex : tx.spends.foldl (fun t o => t.insert o tx.txid) m.spentBy = m.spentBy := by
      refine Std.ExtTreeMap.ext_getElem? fun o => ?_
      rw [lookup_written]
      split
      · rename_i ho
        rw [hspent o ho]
      · rfl
    rw [htransactions, hindex]

/-- What leaves the index with a transaction is what the transaction spends. -/
theorem Sound.freed_iff (h : Sound txs m) (txid : Hash) (o : OutPoint) :
    m.spentBy.contains o = true ∧ (m.remove txid).spentBy.contains o = false ↔ m.Spends txid o := by
  rw [← h.indexed, Table.contains_iff_lookup, ← Table.getElem?_eq_none_iff, Option.eq_none_iff_forall_ne_some]
  simp only [ne_eq, spentBy_remove h, not_and, Classical.not_not]
  constructor
  · rintro ⟨⟨t, hspent⟩, hfreed⟩
    obtain rfl := hfreed t hspent
    exact hspent
  · intro hspent
    exact ⟨⟨txid, hspent⟩, fun t ht => Option.some_inj.mp (ht.symm.trans hspent)⟩

/-- In every run whose identities tell the transactions apart, the index says of an output that a transaction spends it
    exactly if that one is in the pool and does, and so no two of the pool spend one output. A transaction is refused
    exactly if another one of the pool spends one of its inputs, and then nothing changes; else it joins the others, and
    if it was there before nothing changes either. One that is taken out leaves the others and frees its own inputs. -/
theorem the_pool_holds_no_double_spend {es : List Event}
    (hapart : Table.TellsApart Transaction.txid (offered es)) :
    (∀ (o : OutPoint) (t : Hash), (run es).spentBy[o]? = some t ↔ (run es).Spends t o) ∧
    (∀ o t t', (run es).Spends t o → (run es).Spends t' o → t = t') ∧
    (∀ tx, Table.TellsApart Transaction.txid (tx :: offered es) →
      ((∃ e, (run es).accept tx = .error e) ↔
        ∃ (t : Hash) (tx' : Transaction), (run es).transactions[t]? = some tx' ∧ tx' ≠ tx ∧
          ∃ o ∈ tx.spends, o ∈ tx'.spends) ∧
      (∀ e, (run es).accept tx = .error e → run (es ++ [.accept tx]) = run es) ∧
      (∀ m, (run es).accept tx = .ok m →
        ∀ t : Hash, m.transactions[t]? = if tx.txid = t then some tx else (run es).transactions[t]?) ∧
      ((run es).transactions.contains tx.txid = true → (run es).accept tx = .ok (run es))) ∧
    ∀ txid,
      (∀ t : Hash, ((run es).remove txid).transactions[t]? = if txid = t then none else (run es).transactions[t]?) ∧
      (∀ (o : OutPoint) (t : Hash), ((run es).remove txid).spentBy[o]? = some t ↔
        (run es).spentBy[o]? = some t ∧ t ≠ txid) ∧
      ∀ o, (run es).spentBy.contains o = true ∧ ((run es).remove txid).spentBy.contains o = false ↔
        (run es).Spends txid o := by
  have hsound : Sound (offered es) (run es) := run_sound (fun _ h => h) hapart
  refine ⟨hsound.indexed, fun o t t' => hsound.spender_unique, ?_, ?_⟩
  · intro tx happart
    have hwith : Sound (tx :: offered es) (run es) := run_sound (fun _ h => List.mem_cons_of_mem tx h) happart
    refine ⟨hwith.refused_iff happart List.mem_cons_self, ?_, ?_, ?_⟩
    · intro e he
      unfold run
      rw [List.foldl_append]
      simp only [List.foldl_cons, List.foldl_nil, step]
      rw [show List.foldl step empty es = run es from rfl, he]
    · intro m hm t
      rw [(accept_eq_ok_iff.mp hm).2]
      exact Table.lookup_insert _ _ _ _
    · intro hcontains
      obtain ⟨tx', hpooled⟩ := Table.contains_iff_lookup.mp hcontains
      obtain rfl := hwith.eq_of_txid happart List.mem_cons_self hpooled
      exact hwith.accept_of_pooled hpooled
  · intro txid
    exact ⟨lookup_remove _ txid, fun o t => spentBy_remove hsound txid, hsound.freed_iff txid⟩

/-- A transaction that spends a certain output and pays an amount. -/
def paying (value : UInt64) : Transaction := .standard 1 [⟨⟨7, 1⟩, [], 0⟩] [⟨value, []⟩] 0

set_option maxRecDepth 20000 in
/-- A second transaction on one output is refused, the first one may come again, and the output is free once it is
    taken out. -/
theorem a_second_spender_waits_for_the_first :
    Table.TellsApart Transaction.txid (offered [.accept (paying 1)]) ∧
      (∃ e, (run [.accept (paying 1)]).accept (paying 2) = .error e) ∧
      (run [.accept (paying 1)]).accept (paying 1) = .ok (run [.accept (paying 1)]) ∧
      ((run [.accept (paying 1)]).remove (paying 1).txid).spentBy.contains ⟨7, 1⟩ = false := by
  have hapart : Table.TellsApart Transaction.txid (paying 2 :: offered [.accept (paying 1)]) := by decide +kernel
  have hone : Table.TellsApart Transaction.txid (offered [.accept (paying 1)]) := by decide +kernel
  have hagain : Table.TellsApart Transaction.txid (paying 1 :: offered [.accept (paying 1)]) := by decide +kernel
  have hpooled : (run [.accept (paying 1)]).transactions[(paying 1).txid]? = some (paying 1) := by decide +kernel
  obtain ⟨-, -, haccept, hremove⟩ := the_pool_holds_no_double_spend hone
  refine ⟨hone, ?_, ?_, ?_⟩
  · exact (haccept (paying 2) hapart).1.mpr ⟨_, paying 1, hpooled, by decide, ⟨7, 1⟩, by decide, by decide⟩
  · exact (haccept (paying 1) hagain).2.2.2 (Table.contains_of_lookup hpooled)
  · obtain ⟨-, -, hfreed⟩ := hremove (paying 1).txid
    exact ((hfreed ⟨7, 1⟩).mpr ⟨paying 1, hpooled, by decide⟩).2

end NodeQuorum.Mempool
