/-
  NodeQuorum.Proofs.Lock.Sweep — how long an output stays locked.

  A sweep drops every ballot that has expired, with its request and the outputs that it holds. A holder has a
  ballot and spends what it holds (`Sound`), so its outputs are freed with its ballot and not before:
  - `holder_sweep`: an output is held after a sweep exactly if it was held before and its holder's ballot lasts.
  - `outputs_are_locked_as_long_as_their_ballots`: that of every state a run reaches, so a sweep past every
    expiration leaves no output locked.
-/

import NodeQuorum.Proofs.Lock.Holders

namespace NodeQuorum.Locks

/-- The transactions whose ballots have expired. -/
def expired (s : Locks) (now : Int) : List Hash :=
  (s.ballots.values.filter fun l => l.expiration < now).map Lock.txid

/-- A ballot stands under its own transaction, so that is what expires. -/
theorem mem_expired {s : Locks} (h : Sound s) (now : Int) (t : Hash) :
    t ∈ s.expired now ↔ ∃ l, s.ballots[t]? = some l ∧ l.expiration < now := by
  simp only [expired, List.mem_map, List.mem_filter, Table.mem_values, decide_eq_true_eq]
  constructor
  · rintro ⟨l, ⟨⟨t', hl⟩, he⟩, rfl⟩
    rw [h.ballot_txid t' l hl]
    exact ⟨l, hl, he⟩
  · rintro ⟨l, hl, he⟩
    exact ⟨l, ⟨⟨t, hl⟩, he⟩, h.ballot_txid t l hl⟩

/-! ## Dropping some transactions -/

/-- A table from which each drop takes the entry of the transaction loses the entries of all that are dropped. -/
theorem lookup_drops {α : Type} {f : Locks → Table Hash α}
    (hdrop : ∀ s x, f (s.drop x) = (f s).erase x) (txids : List Hash) (s : Locks) (t : Hash) :
    (f (txids.foldl drop s))[t]? = if t ∈ txids then none else (f s)[t]? := by
  induction txids generalizing s with
  | nil => simp
  | cons x rest ih =>
    rw [List.foldl_cons, ih, hdrop, Table.lookup_erase]
    by_cases ht : t = x
    · simp [ht]
    · simp [ht, Ne.symm ht]

/-- A drop frees what the transaction holds, and nothing that another one holds. -/
theorem holder_drop {s : Locks} (h : Sound s) (x : Hash) (o : OutPoint) (t : Hash) :
    (s.drop x).inputs[o]? = some t ↔ s.inputs[o]? = some t ∧ t ≠ x := by
  obtain ⟨outputs, houtputs, hlookup⟩ := lookup_drop s x
  rw [hlookup o]
  constructor
  · intro ho
    split at ho
    · cases ho
    rename_i hkept
    refine ⟨ho, ?_⟩
    rintro rfl
    obtain ⟨tx, -, htx, hmem, -⟩ := h.holder o t ho
    exact hkept ⟨houtputs tx htx ▸ hmem, ho⟩
  · rintro ⟨ho, hne⟩
    rw [if_neg, ho]
    rintro ⟨-, hx⟩
    rw [ho] at hx
    exact hne (Option.some.inj hx)

theorem holder_drops {s : Locks} (h : Sound s) (txids : List Hash) (o : OutPoint) (t : Hash) :
    (txids.foldl drop s).inputs[o]? = some t ↔ s.inputs[o]? = some t ∧ t ∉ txids := by
  induction txids generalizing s with
  | nil => simp
  | cons x rest ih =>
    rw [List.foldl_cons, ih (sound_drop h x), holder_drop h, List.mem_cons, not_or, and_assoc]

/-! ## A sweep -/

/-- A ballot outlives a sweep exactly if it has not expired, and then it is unchanged. -/
theorem ballot_sweep {s : Locks} (h : Sound s) (c : Chain) (now : Int) (t : Hash) (l : Lock) :
    (s.sweep c now).1.ballots[t]? = some l ↔ s.ballots[t]? = some l ∧ now ≤ l.expiration := by
  have hdrops : (s.sweep c now).1.ballots[t]? = if t ∈ s.expired now then none else s.ballots[t]? :=
    lookup_drops (f := Locks.ballots) (fun _ _ => rfl) (s.expired now) s t
  rw [hdrops]
  split
  · rename_i hexpired
    obtain ⟨l', hl', he⟩ := (mem_expired h now t).mp hexpired
    simp only [hl', reduceCtorEq, Option.some.injEq, false_iff, not_and]
    rintro rfl
    exact Int.not_le.mpr he
  · rename_i hkept
    refine ⟨fun hl => ⟨hl, Int.not_lt.mp fun he => hkept ((mem_expired h now t).mpr ⟨l, hl, he⟩)⟩, And.left⟩

/-- With its ballot a request outlives a sweep. -/
theorem request_sweep {s : Locks} (h : Sound s) {c : Chain} {now : Int} {t : Hash} {l : Lock}
    (hl : (s.sweep c now).1.ballots[t]? = some l) :
    (s.sweep c now).1.requests[t]? = s.requests[t]? ∧ (s.sweep c now).1.rejected[t]? = s.rejected[t]? := by
  have hkept : t ∉ s.expired now := by
    intro hexpired
    obtain ⟨l', hl', he⟩ := (mem_expired h now t).mp hexpired
    obtain ⟨hbefore, hlasts⟩ := (ballot_sweep h c now t l).mp hl
    rw [hl', Option.some.injEq] at hbefore
    exact Int.not_le.mpr he (hbefore ▸ hlasts)
  have hrequests : (s.sweep c now).1.requests[t]? = if t ∈ s.expired now then none else s.requests[t]? :=
    lookup_drops (f := Locks.requests) (fun _ _ => rfl) (s.expired now) s t
  have hrejected : (s.sweep c now).1.rejected[t]? = if t ∈ s.expired now then none else s.rejected[t]? :=
    lookup_drops (f := Locks.rejected) (fun _ _ => rfl) (s.expired now) s t
  rw [hrequests, hrejected, if_neg hkept, if_neg hkept]
  exact ⟨rfl, rfl⟩

/-- An output is held after a sweep exactly if it was held before and its holder's ballot has not expired. -/
theorem holder_sweep {s : Locks} (h : Sound s) (c : Chain) (now : Int) (o : OutPoint) (t : Hash) :
    (s.sweep c now).1.inputs[o]? = some t ↔
      s.inputs[o]? = some t ∧ ∃ l, s.ballots[t]? = some l ∧ now ≤ l.expiration := by
  have hdrops : (s.sweep c now).1.inputs[o]? = some t ↔ s.inputs[o]? = some t ∧ t ∉ s.expired now :=
    holder_drops h (s.expired now) o t
  rw [hdrops, mem_expired h]
  refine and_congr_right ?_
  intro ho
  obtain ⟨-, l, -, -, hl, -⟩ := h.holder o t ho
  simp only [hl, Option.some.injEq, exists_eq_left', Int.not_lt]

/-- In every state that a run reaches: whoever holds an output has a ballot and a known request that spends it; a
    sweep frees exactly the outputs whose holders' ballots have expired; and past every expiration it frees all. -/
theorem outputs_are_locked_as_long_as_their_ballots (es : List Event) :
    (∀ (o : OutPoint) (t : Hash), (run es).inputs[o]? = some t →
      (run es).ballots.contains t = true ∧
      ∃ tx, ((run es).requests[t]? = some tx ∨ (run es).rejected[t]? = some tx) ∧ tx.txid = t ∧ o ∈ tx.spends) ∧
    (∀ (c : Chain) (now : Int) (o : OutPoint) (t : Hash), ((run es).sweep c now).1.inputs[o]? = some t ↔
      (run es).inputs[o]? = some t ∧ ∃ l, (run es).ballots[t]? = some l ∧ now ≤ l.expiration) ∧
    ∀ (c : Chain) (now : Int), (∀ (t : Hash) (l : Lock), (run es).ballots[t]? = some l → l.expiration < now) →
      ((run es).sweep c now).1.inputs = ∅ := by
  have h := run_sound es
  refine ⟨?_, fun c now => holder_sweep h c now, ?_⟩
  · intro o t ho
    obtain ⟨tx, l, htx, hmem, hl, -⟩ := h.holder o t ho
    have hrequest := htx
    rw [requested?_eq, Option.or_eq_some_iff] at hrequest
    exact ⟨Table.contains_of_lookup hl, tx, hrequest.imp_right And.right, h.requested_txid htx, hmem⟩
  · intro c now hall
    refine Std.ExtTreeMap.ext_getElem? ?_
    intro o
    rw [Std.ExtTreeMap.getElem?_empty, Option.eq_none_iff_forall_ne_some]
    intro t ho
    obtain ⟨-, l, hl, hlasts⟩ := (holder_sweep h c now o t).mp ho
    exact absurd (hall t l hl) (Int.not_lt.mpr hlasts)

end NodeQuorum.Locks
