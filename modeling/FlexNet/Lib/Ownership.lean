import Mathlib.Data.List.Count

/-!
# Things that are given away

Whoever is given a thing uses it and releases it.  `Trace` is what happened to it in one call, in
order; a call that takes the thing over has to leave it `Released`, one that only borrows it
`Unreleased`.
-/

namespace Ownership

/-- What is done with the thing: it is looked at or written, or released. -/
inductive Use
  | touch
  | release
deriving DecidableEq

/-- What one call does with it. -/
abbrev Trace := List Use

/-- It is released once, and not touched after that. -/
structure Released (t : Trace) : Prop where
  once : t.count .release = 1
  last : ∀ pre post, t = pre ++ .release :: post → .touch ∉ post

/-- It is not released. -/
def Unreleased (t : Trace) : Prop := .release ∉ t

instance (t : Trace) : Decidable (Unreleased t) := inferInstanceAs (Decidable (¬ _))

variable {s t : Trace}

@[simp] theorem unreleased_nil : Unreleased [] := List.not_mem_nil

@[simp] theorem unreleased_touch : Unreleased (.touch :: t) ↔ Unreleased t := by simp [Unreleased]

@[simp] theorem unreleased_append :
    Unreleased (s ++ t) ↔ Unreleased s ∧ Unreleased t := by simp [Unreleased, not_or]

/-- What is kept can still be released, as the last thing. -/
theorem Unreleased.released (h : Unreleased t) : Released (t ++ [.release]) where
  once := by
    rw [List.count_append, List.count_eq_zero_of_not_mem h]
    rfl
  last pre post heq := by
    rcases List.append_eq_append_iff.mp heq with ⟨mid, -, hmid⟩ | ⟨mid, rfl, hmid⟩
    · have hlen := congrArg List.length hmid
      obtain rfl : post = [] := by
        rw [List.length_append, List.length_cons] at hlen
        exact List.length_eq_zero_iff.mp (by simp at hlen; omega)
      exact List.not_mem_nil
    · cases mid with
      | nil => simp [(List.cons.inj hmid).2]
      | cons u mid =>
        obtain ⟨rfl, -⟩ := List.cons.inj hmid
        exact absurd (by simp) h

theorem Unreleased.not_released (h : Unreleased t) : ¬ Released t := fun hr => by
  have hcount := hr.once
  rw [List.count_eq_zero_of_not_mem h] at hcount
  cases hcount

end Ownership
