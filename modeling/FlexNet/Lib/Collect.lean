import Mathlib.Data.List.Basic

/-!
# Bounded lists

A table of fixed size that is filled from the front holds the beginning of what came: of everything
(`take_fill`), or of the distinct values (`collect_take`).
-/

namespace Collect

variable {α : Type*} {cap : ℕ}

/-- What does not fit is the end of what came. -/
theorem take_fill (xs ys : List α) : (xs.take cap ++ ys).take cap = (xs ++ ys).take cap := by
  rw [List.take_append, List.take_append, List.take_take, List.length_take, Nat.min_self]
  congr 2
  omega

variable [DecidableEq α]

/-- A value is entered when it is new and there is room. -/
def collect (cap : ℕ) (xs : List α) (x : α) : List α :=
  if x ∉ xs ∧ xs.length < cap then xs ++ [x] else xs

/-- The table holds the first values, each once. -/
theorem collect_take (xs : List α) (x : α) :
    collect cap (xs.eraseDups.take cap) x = (xs ++ [x]).eraseDups.take cap := by
  have hremove : ([x].removeAll xs).eraseDups = if x ∈ xs then [] else [x] := by
    by_cases hx : x ∈ xs <;> simp [List.removeAll, List.eraseDups_cons, hx]
  rw [List.eraseDups_append, hremove, collect]
  by_cases hx : x ∈ xs
  · have hfull : ¬(x ∉ xs.eraseDups.take cap ∧ (xs.eraseDups.take cap).length < cap) := by
      rintro ⟨hnot, hlt⟩
      rw [List.take_of_length_le (by rw [List.length_take] at hlt; omega)] at hnot
      exact hnot (List.mem_eraseDups.mpr hx)
    rw [if_neg hfull, if_pos hx, List.append_nil]
  · have hnot : x ∉ xs.eraseDups.take cap := fun hmem =>
      hx (List.mem_eraseDups.mp (List.mem_of_mem_take hmem))
    rw [if_neg hx]
    by_cases hlt : xs.eraseDups.length < cap
    · rw [if_pos ⟨hnot, by rw [List.length_take]; omega⟩, List.take_of_length_le (by omega),
        List.take_of_length_le (by rw [List.length_append, List.length_singleton]; omega)]
    · rw [if_neg (by rw [List.length_take]; omega), List.take_append_of_le_length (by omega)]

end Collect
