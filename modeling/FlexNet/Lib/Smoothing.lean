import Mathlib.Algebra.Order.Ring.Nat
import Mathlib.Data.List.Basic
import Mathlib.Tactic.Ring

/-!
# Smoothing with truncated division

A smoothed level takes `weight` parts of what it was and one part of each new sample, rounded down.
The rounding never takes it out of the range of the samples it was fed (`Between.next`).
-/

namespace Smoothing

/-- The level after a sample. -/
def next (weight level x : ℕ) : ℕ := (level * weight + x) / (weight + 1)

variable {weight level x bound : ℕ} {xs : List ℕ}

theorem le_next (hlevel : bound ≤ level) (hx : bound ≤ x) : bound ≤ next weight level x := by
  have hsum : bound * (weight + 1) ≤ level * weight + x := by
    calc bound * (weight + 1) = bound * weight + bound := by ring
      _ ≤ level * weight + x := Nat.add_le_add (Nat.mul_le_mul_right weight hlevel) hx
  exact (Nat.le_div_iff_mul_le (Nat.succ_pos weight)).mpr hsum

theorem next_le (hlevel : level ≤ bound) (hx : x ≤ bound) : next weight level x ≤ bound := by
  have hsum : level * weight + x ≤ bound * (weight + 1) := by
    calc level * weight + x ≤ bound * weight + bound :=
          Nat.add_le_add (Nat.mul_le_mul_right weight hlevel) hx
      _ = bound * (weight + 1) := by ring
  calc next weight level x ≤ bound * (weight + 1) / (weight + 1) := Nat.div_le_div_right hsum
    _ = bound := Nat.mul_div_cancel bound (Nat.succ_pos weight)

/-- The level is between the smallest and the largest of the samples. -/
def Between (xs : List ℕ) (level : ℕ) : Prop := (∃ x ∈ xs, x ≤ level) ∧ ∃ x ∈ xs, level ≤ x

/-- The last sample itself, with which a filter is seeded. -/
theorem Between.seed (xs : List ℕ) (x : ℕ) : Between (xs ++ [x]) x :=
  ⟨⟨x, by simp, le_rfl⟩, ⟨x, by simp, le_rfl⟩⟩

theorem Between.next (h : Between xs level) (weight x : ℕ) :
    Between (xs ++ [x]) (next weight level x) := by
  obtain ⟨⟨lo, hlo, hle⟩, ⟨hi, hhi, hge⟩⟩ := h
  constructor
  · rcases le_total lo x with hx | hx
    · exact ⟨lo, by simp [hlo], le_next hle hx⟩
    · exact ⟨x, by simp, le_next (hx.trans hle) le_rfl⟩
  · rcases le_total x hi with hx | hx
    · exact ⟨hi, by simp [hhi], next_le hge hx⟩
    · exact ⟨x, by simp, next_le (hge.trans hx) le_rfl⟩

/-- Bounds of the samples are bounds of the level. -/
theorem Between.bounds (h : Between xs level) (lo : ℕ) {hi : ℕ} (hxs : ∀ x ∈ xs, lo ≤ x ∧ x ≤ hi) :
    lo ≤ level ∧ level ≤ hi := by
  obtain ⟨⟨x, hx, hle⟩, ⟨y, hy, hge⟩⟩ := h
  exact ⟨(hxs x hx).1.trans hle, hge.trans (hxs y hy).2⟩

end Smoothing
