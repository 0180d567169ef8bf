/-
  NodeQuorum.Sorted — a list put in the order of a comparison.

  Sorting keeps the items (`sortBy_perm`). If the comparison is total and transitive, each item stands
  before every later one (`pairwise_sortBy`).
-/

namespace NodeQuorum

variable {α : Type}

/-- Puts an item in front of the first one that it goes before. -/
def insertBy (before : α → α → Bool) (a : α) : List α → List α
  | [] => [a]
  | b :: rest => if before a b then a :: b :: rest else b :: insertBy before a rest

/-- The items in the order of `before`. -/
def sortBy (before : α → α → Bool) (items : List α) : List α := items.foldr (insertBy before) []

theorem insertBy_perm (before : α → α → Bool) (a : α) (items : List α) :
    (insertBy before a items).Perm (a :: items) := by
  induction items with
  | nil => exact .refl _
  | cons b rest ih =>
    simp only [insertBy]
    split
    · exact .refl _
    · exact (ih.cons b).trans (.swap a b rest)

theorem sortBy_perm (before : α → α → Bool) (items : List α) : (sortBy before items).Perm items := by
  induction items with
  | nil => exact .refl _
  | cons a rest ih => exact (insertBy_perm before a _).trans (ih.cons a)

@[simp] theorem mem_sortBy {before : α → α → Bool} {a : α} {items : List α} : a ∈ sortBy before items ↔ a ∈ items :=
  (sortBy_perm before items).mem_iff

@[simp] theorem length_sortBy (before : α → α → Bool) (items : List α) :
    (sortBy before items).length = items.length :=
  (sortBy_perm before items).length_eq

theorem pairwise_insertBy {before : α → α → Bool} (total : ∀ a b, before a b = false → before b a = true)
    (trans : ∀ a b c, before a b = true → before b c = true → before a c = true) (a : α) {items : List α}
    (h : items.Pairwise fun x y => before x y = true) :
    (insertBy before a items).Pairwise fun x y => before x y = true := by
  induction items with
  | nil => simp [insertBy]
  | cons b rest ih =>
    obtain ⟨hb, hrest⟩ := List.pairwise_cons.mp h
    simp only [insertBy]
    split
    · rename_i hab
      exact List.pairwise_cons.mpr ⟨fun x hx => by
        rcases List.mem_cons.mp hx with rfl | hx
        · exact hab
        · exact trans _ _ _ hab (hb x hx), h⟩
    · rename_i hab
      have hba := total a b (by simpa using hab)
      exact List.pairwise_cons.mpr ⟨fun x hx => by
        rcases List.mem_cons.mp ((insertBy_perm before a rest).mem_iff.mp hx) with rfl | hx
        · exact hba
        · exact hb x hx, ih hrest⟩

/-- Every item stands before every later one. -/
theorem pairwise_sortBy {before : α → α → Bool} (total : ∀ a b, before a b = false → before b a = true)
    (trans : ∀ a b c, before a b = true → before b c = true → before a c = true) (items : List α) :
    (sortBy before items).Pairwise fun x y => before x y = true := by
  induction items with
  | nil => exact .nil
  | cons a rest ih => exact pairwise_insertBy total trans a ih

end NodeQuorum
