/-
  NodeQuorum.Proofs.Table — what is in a finite map after an update.

  Each update has one lemma that looks up any key (`lookup_insert` and its kin), and what every entry has is
  kept by an update (`forall_insert`, `forall_erase`), so values stay under the keys that they name (`Keyed`).
  The values form a list: inserting under a new key adds one value to it (`values_insert_perm`), what stands under a
  key is one of them beside the others (`values_perm_of_lookup`), and dropping entries by their values drops those
  (`values_filter`), so sums and counts over a table follow its updates. Where a key is a hash, that no two of some
  values have the same is `TellsApart`.
-/

import NodeQuorum.Table

namespace NodeQuorum.Table

variable {κ α : Type} [Ord κ] [Std.TransOrd κ]

theorem getElem?_eq_none_iff {t : Table κ α} {k : κ} : t[k]? = none ↔ t.contains k = false := by
  rw [Std.ExtTreeMap.contains_eq_isSome_getElem?, Option.isSome_eq_false_iff, Option.isNone_iff_eq_none]

theorem contains_of_lookup {t : Table κ α} {k : κ} {v : α} (h : t[k]? = some v) : t.contains k = true := by
  rw [Std.ExtTreeMap.contains_eq_isSome_getElem?, h, Option.isSome_some]

theorem contains_iff_lookup {t : Table κ α} {k : κ} : t.contains k = true ↔ ∃ v, t[k]? = some v := by
  rw [Std.ExtTreeMap.contains_eq_isSome_getElem?, Option.isSome_iff_exists]

/-! ## Looking up after an update -/

section

variable [Std.LawfulEqOrd κ] [DecidableEq κ]

theorem lookup_insert (t : Table κ α) (k a : κ) (v : α) : (t.insert k v)[a]? = if k = a then some v else t[a]? := by
  simp only [Std.ExtTreeMap.getElem?_insert, Std.LawfulEqOrd.compare_eq_iff_eq]

theorem lookup_erase (t : Table κ α) (k a : κ) : (t.erase k)[a]? = if k = a then none else t[a]? := by
  simp only [Std.ExtTreeMap.getElem?_erase, Std.LawfulEqOrd.compare_eq_iff_eq]

theorem lookup_modify (t : Table κ α) (k a : κ) (f : α → α) :
    (t.modify k f)[a]? = if k = a then t[a]?.map f else t[a]? := by
  simp only [Std.ExtTreeMap.getElem?_modify, Std.LawfulEqOrd.compare_eq_iff_eq]
  split
  · rename_i h
    rw [h]
  · rfl

/-- A value is written only where there is none. -/
theorem lookup_insertIfNew (t : Table κ α) (k a : κ) (v : α) :
    (t.insertIfNew k v)[a]? = t[a]?.or (if k = a then some v else none) := by
  simp only [Std.ExtTreeMap.getElem?_insertIfNew, Std.LawfulEqOrd.compare_eq_iff_eq,
    Std.ExtTreeMap.mem_iff_isSome_getElem?]
  by_cases hk : k = a
  · subst hk
    cases t[k]? <;> simp
  · simp [hk]

/-- What every entry has, and the one written too, every entry has afterwards. -/
theorem forall_insert {t : Table κ α} {P : κ → α → Prop} (h : ∀ a w, t[a]? = some w → P a w) {k : κ} {v : α}
    (hv : P k v) : ∀ a w, (t.insert k v)[a]? = some w → P a w := by
  intro a w hw
  rw [lookup_insert] at hw
  by_cases hk : k = a
  · subst hk
    rw [if_pos rfl] at hw
    cases hw
    exact hv
  · rw [if_neg hk] at hw
    exact h a w hw

theorem forall_erase {t : Table κ α} {P : κ → α → Prop} (h : ∀ a w, t[a]? = some w → P a w) (k : κ) :
    ∀ a w, (t.erase k)[a]? = some w → P a w := by
  intro a w hw
  rw [lookup_erase] at hw
  by_cases hk : k = a
  · rw [if_pos hk] at hw
    cases hw
  · rw [if_neg hk] at hw
    exact h a w hw

end

/-! ## Values under their own keys -/

/-- No two of some values have the same key. -/
def TellsApart {κ α : Type} (key : α → κ) (vs : List α) : Prop := ∀ v ∈ vs, ∀ w ∈ vs, key v = key w → v = w

instance {κ α : Type} [DecidableEq κ] [DecidableEq α] (key : α → κ) (vs : List α) : Decidable (TellsApart key vs) :=
  inferInstanceAs (Decidable (∀ v ∈ vs, ∀ w ∈ vs, _ → _))

/-- Every value stands under the key that it names. -/
def Keyed (t : Table κ α) (key : α → κ) : Prop := ∀ k v, t[k]? = some v → key v = k

namespace Keyed

variable {t : Table κ α} {key : α → κ}

theorem empty (key : α → κ) : Keyed (∅ : Table κ α) key := by
  intro k v h
  simp at h

variable [Std.LawfulEqOrd κ]

theorem filter (h : Keyed t key) (f : κ → α → Bool) : Keyed (t.filter f) key := by
  intro k v hv
  rw [Std.ExtTreeMap.getElem?_filter'] at hv
  exact h k v (Option.filter_eq_some_iff.mp hv).1

variable [DecidableEq κ]

theorem insert (h : Keyed t key) (v : α) : Keyed (t.insert (key v) v) key := forall_insert h rfl

theorem erase (h : Keyed t key) (k : κ) : Keyed (t.erase k) key := forall_erase h k

theorem insertIfNew (h : Keyed t key) (v : α) : Keyed (t.insertIfNew (key v) v) key := by
  intro k w hw
  rw [lookup_insertIfNew, Option.or_eq_some_iff] at hw
  rcases hw with hold | ⟨-, hnew⟩
  · exact h k w hold
  · split at hnew
    · rename_i hk
      cases hnew
      exact hk
    · cases hnew

/-- A change that leaves the key of a value alone. -/
theorem modify (h : Keyed t key) (k : κ) {f : α → α} (hf : ∀ v, key (f v) = key v) : Keyed (t.modify k f) key := by
  intro a w hw
  rw [lookup_modify] at hw
  split at hw
  · obtain ⟨v, hv, rfl⟩ := Option.map_eq_some_iff.mp hw
    rw [hf, h a v hv]
  · exact h a w hw

end Keyed

/-! ## Values -/

theorem values_eq_map_toList (t : Table κ α) : t.values = t.toList.map Prod.snd := by
  have h : t.values = t.foldr (fun _ v l => v :: l) [] := rfl
  rw [h, Std.ExtTreeMap.foldr_eq_foldr_toList]
  induction t.toList with
  | nil => rfl
  | cons p rest ih => simp [ih]

@[simp] theorem values_empty : (∅ : Table κ α).values = [] := by
  rw [values_eq_map_toList, Std.ExtTreeMap.toList_eq_nil_iff.mpr rfl, List.map_nil]

/-- Dropping entries by their values drops those values. -/
theorem values_filter (t : Table κ α) (f : α → Bool) : (t.filter fun _ v => f v).values = t.values.filter f := by
  rw [values_eq_map_toList, values_eq_map_toList, Std.ExtTreeMap.toList_filter, List.filter_map]
  rfl

variable [Std.LawfulEqOrd κ]

theorem mem_values {t : Table κ α} {v : α} : v ∈ t.values ↔ ∃ k : κ, t[k]? = some v := by
  simp only [values_eq_map_toList, List.mem_map, Prod.exists, exists_eq_right,
    Std.ExtTreeMap.mem_toList_iff_getElem?_eq_some]

theorem nodup_toList (t : Table κ α) : t.toList.Nodup :=
  (Std.ExtTreeMap.distinct_keys_toList (t := t)).imp fun hne he => hne (by rw [he, Std.ReflOrd.compare_self])

/-- Values that name their keys are distinct. -/
theorem Keyed.nodup_values {t : Table κ α} {key : α → κ} (h : Keyed t key) : t.values.Nodup := by
  rw [values_eq_map_toList, List.Nodup, List.pairwise_map]
  refine (nodup_toList t).imp_of_mem ?_
  rintro ⟨k, v⟩ ⟨k', v'⟩ hkv hkv' hne rfl
  rw [Std.ExtTreeMap.mem_toList_iff_getElem?_eq_some] at hkv hkv'
  exact hne (by rw [← h k v hkv, ← h k' v hkv'])

theorem toList_insert_perm {t : Table κ α} {k : κ} {v : α} (h : t[k]? = none) :
    (t.insert k v).toList.Perm ((k, v) :: t.toList) := by
  have hnew : (k, v) ∉ t.toList := by
    rw [Std.ExtTreeMap.mem_toList_iff_getElem?_eq_some, h]
    exact nofun
  refine (List.perm_ext_iff_of_nodup (nodup_toList _) (List.nodup_cons.mpr ⟨hnew, nodup_toList _⟩)).mpr ?_
  rintro ⟨k', v'⟩
  rw [List.mem_cons, Std.ExtTreeMap.mem_toList_iff_getElem?_eq_some, Std.ExtTreeMap.mem_toList_iff_getElem?_eq_some,
    Std.ExtTreeMap.getElem?_insert, Prod.mk.injEq]
  by_cases hk : k = k'
  · subst hk
    simp [Std.ReflOrd.compare_self, h, eq_comm]
  · have hne : ¬ compare k k' = .eq := fun he => hk (Std.LawfulEqOrd.eq_of_compare he)
    rw [if_neg hne]
    simp [Ne.symm hk]

/-- A value under a new key joins the values. -/
theorem values_insert_perm {t : Table κ α} {k : κ} {v : α} (h : t[k]? = none) :
    (t.insert k v).values.Perm (v :: t.values) := by
  rw [values_eq_map_toList, values_eq_map_toList]
  exact (toList_insert_perm h).map Prod.snd

/-- What stands under a key is a value beside those under the other keys. -/
theorem values_perm_of_lookup {t : Table κ α} {k : κ} {v : α} (h : t[k]? = some v) :
    t.values.Perm (v :: (t.erase k).values) := by
  have hback : (t.erase k).insert k v = t := by
    refine Std.ExtTreeMap.ext_getElem? ?_
    intro a
    rw [Std.ExtTreeMap.getElem?_insert, Std.ExtTreeMap.getElem?_erase]
    split
    · rename_i hk
      rw [← Std.LawfulEqOrd.eq_of_compare hk, h]
    · rfl
  have hnone : (t.erase k)[k]? = none := Std.ExtTreeMap.getElem?_erase_self
  have hperm := values_insert_perm (v := v) hnone
  rwa [hback] at hperm

end NodeQuorum.Table
