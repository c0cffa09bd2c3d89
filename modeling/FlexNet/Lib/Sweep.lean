import Mathlib.Data.List.Nodup
import Mathlib.Data.List.FinRange
import Mathlib.Logic.Function.Basic

/-!
# Sweeps over indexed components

A loop over indices whose body touches only the component of the index it visits computes,
component by component, what the body computes there.  The body may read a part of the state
that the loop leaves alone (`P` below says what that part must satisfy).
-/

namespace Sweep

variable {σ ι τ : Type*}

/-- The component-wise reading of a loop: components of visited indices go through `g`, the
others are unchanged. -/
theorem foldl_view [DecidableEq ι] {v : σ → ι → τ} {f : σ → ι → σ} {g : ι → τ → τ}
    {P : σ → Prop}
    (hP : ∀ s i, P s → P (f s i))
    (hself : ∀ s i, P s → v (f s i) i = g i (v s i))
    (hne : ∀ s i j, P s → j ≠ i → v (f s i) j = v s j)
    {l : List ι} (hl : l.Nodup) {s : σ} (hs : P s) (i : ι) :
    v (l.foldl f s) i = if i ∈ l then g i (v s i) else v s i := by
  induction l generalizing s with
  | nil => simp
  | cons j l ih =>
      obtain ⟨hj, hl⟩ := List.nodup_cons.mp hl
      rw [List.foldl_cons, ih hl (hP s j hs)]
      by_cases hij : i = j
      · subst hij
        simp [hj, hself s i hs]
      · simp [hij, hne s j i hs hij]

/-- A property the body keeps, the loop keeps. -/
theorem foldl_keeps {f : σ → ι → σ} {P : σ → Prop} (hP : ∀ s i, P s → P (f s i))
    (l : List ι) {s : σ} (hs : P s) : P (l.foldl f s) := by
  induction l generalizing s with
  | nil => exact hs
  | cons j l ih => exact ih (hP s j hs)

end Sweep
