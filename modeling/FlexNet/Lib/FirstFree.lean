import Mathlib.Data.List.FinRange
import Mathlib.Order.Fin.Basic

/-!
# Slots taken first free first

A table of `k` slots whose users take the first slot that is free, with a counter that goes up by
one at each taking, never comes down, and stops at `k`.  Slots are freed in any order, so the
counter is not the number of slots in use; but every slot in use is below it (`Below.take`).
-/

namespace FirstFree

variable {k : ℕ}

/-- The first index a search over a table finds. -/
theorem find?_finRange {p : Fin k → Bool} {i : Fin k} (h : (List.finRange k).find? p = some i) :
    p i = true ∧ ∀ j < i, p j = false := by
  obtain ⟨hi, before, after, hsplit, hbefore⟩ := List.find?_eq_some_iff_append.mp h
  refine ⟨hi, fun j hj => ?_⟩
  have hmem : j ∈ before ++ i :: after := hsplit ▸ List.mem_finRange j
  have hsorted : (before ++ i :: after).Pairwise (· < ·) := hsplit ▸ List.pairwise_lt_finRange k
  rcases List.mem_append.mp hmem with hj' | hj'
  · simpa using hbefore j hj'
  · -- what comes after the index found is above it
    rcases List.mem_cons.mp hj' with rfl | hj'
    · exact absurd hj (lt_irrefl j)
    · have hrest := (List.pairwise_append.mp hsorted).2.1
      exact absurd hj (not_lt.mpr ((List.pairwise_cons.mp hrest).1 j hj').le)

/-- The slots in use are below a count. -/
def Below (used : Fin k → Prop) (count : ℕ) : Prop := ∀ i, used i → i.val < count

theorem Below.mono {used used' : Fin k → Prop} {count count' : ℕ} (h : Below used count)
    (hused : ∀ i, used' i → used i) (hcount : count ≤ count') : Below used' count' :=
  fun i hi => (h i (hused i hi)).trans_le hcount

/-- Taking the first free slot keeps the slots in use below the counter. -/
theorem Below.take {used used' : Fin k → Prop} {count count' : ℕ} {i : Fin k} (h : Below used count)
    (hfirst : ∀ j < i, used j) (hused : ∀ j, used' j → used j ∨ j = i)
    (hcount : min (count + 1) k ≤ count') : Below used' count' := by
  have hle : i.val ≤ count := by
    by_contra hlt
    have hbelow : count < k := (not_le.mp hlt).trans i.isLt
    exact absurd (h ⟨count, hbelow⟩ (hfirst ⟨count, hbelow⟩ (not_le.mp hlt))) (lt_irrefl count)
  intro j hj
  refine lt_of_lt_of_le (lt_min ?_ j.isLt) hcount
  rcases hused j hj with hj | rfl
  · exact (h j hj).trans (Nat.lt_succ_self count)
  · exact Nat.lt_succ_of_le hle

end FirstFree
