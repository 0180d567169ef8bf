/-
  NodeQuorum.Text.Split — a text cut at the first or at the last place of a separator.

  The separator itself belongs to neither half. The half away from the rest of the text holds no
  separator (`splitFirst?_eq_some`, `splitLast?_eq_some`).
-/

namespace NodeQuorum.Text

/-- Cuts at the first `sep`. -/
def splitFirst? (sep : Char) : List Char → Option (List Char × List Char)
  | [] => none
  | c :: rest =>
    if c = sep then some ([], rest)
    else (splitFirst? sep rest).map fun (before, after) => (c :: before, after)

/-- Cuts at the last `sep`. -/
def splitLast? (sep : Char) : List Char → Option (List Char × List Char)
  | [] => none
  | c :: rest =>
    match splitLast? sep rest with
    | some (before, after) => some (c :: before, after)
    | none => if c = sep then some ([], rest) else none

theorem splitLast?_eq_none {sep : Char} {text : List Char} : splitLast? sep text = none ↔ sep ∉ text := by
  induction text with
  | nil => simp [splitLast?]
  | cons c rest ih =>
    simp only [splitLast?]
    split
    · rename_i h; simp_all
    · rename_i h
      by_cases e : c = sep
      · simp [e]
      · simpa [e, Ne.symm e] using ih.mp h

/-- The cut is at a separator, and none stands behind it. -/
theorem splitLast?_eq_some {sep : Char} {text before after : List Char} :
    splitLast? sep text = some (before, after) ↔ text = before ++ sep :: after ∧ sep ∉ after := by
  induction text generalizing before after with
  | nil => simp [splitLast?]
  | cons c rest ih =>
    simp only [splitLast?]
    split
    · rename_i b a h
      have hb := ih.mp h
      constructor
      · intro e
        simp only [Option.some.injEq, Prod.mk.injEq] at e
        obtain ⟨rfl, rfl⟩ := e
        exact ⟨by rw [hb.1]; rfl, hb.2⟩
      · rintro ⟨e, hn⟩
        cases before with
        | nil =>
          simp only [List.nil_append, List.cons.injEq] at e
          rw [← e.2, hb.1] at hn
          simp at hn
        | cons x before =>
          simp only [List.cons_append, List.cons.injEq] at e
          have := ih.mpr ⟨e.2, hn⟩
          rw [h] at this
          simp only [Option.some.injEq, Prod.mk.injEq] at this
          simp [e.1, this.1, this.2]
    · rename_i h
      have hn := splitLast?_eq_none.mp h
      constructor
      · intro e
        split at e
        · rename_i hc
          simp only [Option.some.injEq, Prod.mk.injEq] at e
          obtain ⟨rfl, rfl⟩ := e
          exact ⟨by rw [hc]; rfl, hn⟩
        · cases e
      · rintro ⟨e, -⟩
        cases before with
        | nil =>
          simp only [List.nil_append, List.cons.injEq] at e
          simp [e.1, e.2]
        | cons x before =>
          simp only [List.cons_append, List.cons.injEq] at e
          rw [e.2] at hn
          simp at hn

/-- The cut is at a separator, and none stands before it. -/
theorem splitFirst?_eq_some {sep : Char} {text before after : List Char} :
    splitFirst? sep text = some (before, after) ↔ text = before ++ sep :: after ∧ sep ∉ before := by
  induction text generalizing before after with
  | nil => simp [splitFirst?]
  | cons c rest ih =>
    simp only [splitFirst?]
    split
    · rename_i hc
      constructor
      · intro e
        simp only [Option.some.injEq, Prod.mk.injEq] at e
        obtain ⟨rfl, rfl⟩ := e
        simp [hc]
      · rintro ⟨e, hn⟩
        cases before with
        | nil => simp_all
        | cons x before =>
          simp only [List.cons_append, List.cons.injEq] at e
          simp [← e.1, hc] at hn
    · rename_i hc
      cases before with
      | nil =>
        simp only [Option.map_eq_some_iff, Prod.mk.injEq, reduceCtorEq, false_and, and_false, exists_false,
          List.nil_append, List.cons.injEq, false_iff, not_and]
        exact fun e _ => hc e.1
      | cons x before =>
        simp only [Option.map_eq_some_iff, Prod.mk.injEq, List.cons.injEq, List.cons_append]
        constructor
        · rintro ⟨⟨b, a⟩, hs, ⟨rfl, rfl⟩, rfl⟩
          have := ih.mp hs
          exact ⟨⟨rfl, this.1⟩, by simpa [Ne.symm hc] using this.2⟩
        · rintro ⟨⟨rfl, e⟩, hn⟩
          exact ⟨(before, after), ih.mpr ⟨e, fun h => hn (List.mem_cons_of_mem _ h)⟩, ⟨rfl, rfl⟩, rfl⟩

end NodeQuorum.Text
