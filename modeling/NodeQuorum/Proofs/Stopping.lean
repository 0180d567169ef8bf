/-
  NodeQuorum.Proofs.Stopping — programs that stop.

  Where a number does not fit the program stops, and none of the events behind it is reached. A step that may stop
  (`step?`) does what a step with numbers of any size does (`step`), or nothing.
  - `eq_of_run`: so a program that comes through a run is where the other one is.
  - `run_eq_some_iff`: it comes through exactly if what makes it go on held at every moment of the run.
-/

import Mathlib.Data.List.Induction

namespace NodeQuorum.Stopping

variable {σ ε : Type} {step : σ → ε → σ} {step? : σ → ε → Option σ} {s s' : σ}

theorem run_concat (step? : σ → ε → Option σ) (s : σ) (es : List ε) (e : ε) :
    (es ++ [e]).foldlM step? s = (es.foldlM step? s).bind fun s' => step? s' e := by
  rw [List.foldlM_append]
  simp

theorem eq_of_run (hstep : ∀ s e s', step? s e = some s' → s' = step s e) {es : List ε}
    (h : es.foldlM step? s = some s') : s' = es.foldl step s := by
  induction es using List.reverseRecOn generalizing s' with
  | nil => exact (Option.some_inj.mp h).symm
  | append_singleton es e ih =>
    rw [run_concat, Option.bind_eq_some_iff] at h
    obtain ⟨before, hbefore, he⟩ := h
    rw [List.foldl_append, ← ih hbefore]
    exact hstep before e s' he

/-- If a program goes on exactly as long as something holds of the events so far, it comes through a run exactly if that
    held all along. -/
theorem run_eq_some_iff {P : List ε → Prop} (hstart : P [])
    (hstep : ∀ es e s', P es → (step? (es.foldl step s) e = some s' ↔
      s' = step (es.foldl step s) e ∧ P (es ++ [e]))) {es : List ε} :
    es.foldlM step? s = some s' ↔ s' = es.foldl step s ∧ ∀ before, before <+: es → P before := by
  induction es using List.reverseRecOn generalizing s' with
  | nil => simp [hstart, eq_comm]
  | append_singleton es e ih =>
    rw [run_concat, Option.bind_eq_some_iff, List.foldl_append]
    constructor
    · rintro ⟨t, hbefore, he⟩
      obtain ⟨rfl, hall⟩ := ih.mp hbefore
      obtain ⟨hs', hfits⟩ := (hstep es e s' (hall es (List.prefix_refl es))).mp he
      refine ⟨hs', ?_⟩
      intro before hstart
      rcases List.prefix_concat_iff.mp hstart with rfl | hstart
      · exact hfits
      · exact hall before hstart
    · rintro ⟨hs', hall⟩
      have hbefore : ∀ before, before <+: es → P before :=
        fun before hstart => hall before (hstart.trans (List.prefix_append es [e]))
      refine ⟨es.foldl step s, ih.mpr ⟨rfl, hbefore⟩, ?_⟩
      exact (hstep es e s' (hbefore es (List.prefix_refl es))).mpr ⟨hs', hall _ (List.prefix_refl _)⟩

end NodeQuorum.Stopping
