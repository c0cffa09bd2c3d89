import Mathlib.Order.Interval.Finset.Nat
import Mathlib.Logic.Function.Basic
import Mathlib.Data.List.Basic

/-!
# Slots taken by residue

A stream is numbered from zero, and `m` slots hold some of it: the element numbered `i` is kept in
slot `i % m`.  A sender keeps every element from the first that is not acknowledged up to the next
that is not yet loaded (`Covers`); a receiver keeps some of those that came early (`Within`).  Both
stay below `m` elements from where they start, so a slot stands for one number only: `mod_inj`.
-/

namespace SlotRing

variable {α : Type*} {m lo hi : ℕ} {slots : ℕ → Option α} {stream : List α} {a : α}

/-- Two numbers of one stretch of `m` share a slot only if they are the same. -/
theorem mod_inj {i j : ℕ} (hi : lo ≤ i) (hi' : i < lo + m) (hj : lo ≤ j) (hj' : j < lo + m)
    (h : i % m = j % m) : i = j :=
  Nat.mod_injOn_Ico lo m (Finset.mem_coe.mpr (Finset.mem_Ico.mpr ⟨hi, hi'⟩))
    (Finset.mem_coe.mpr (Finset.mem_Ico.mpr ⟨hj, hj'⟩)) h

/-! ## Every element of a stretch -/

/-- The slots hold the elements from `lo` up to `hi`, and nothing else. -/
structure Covers (m : ℕ) (slots : ℕ → Option α) (stream : List α) (lo hi : ℕ) : Prop where
  le : lo ≤ hi
  room : hi ≤ lo + m
  inside : hi ≤ stream.length
  full : ∀ i, lo ≤ i → i < hi → slots (i % m) = stream[i]?
  free : ∀ i, hi ≤ i → i < lo + m → slots (i % m) = none

theorem Covers.empty : Covers m (fun _ => none) stream 0 0 where
  le := le_rfl
  room := Nat.zero_le _
  inside := Nat.zero_le _
  full i _ hi := absurd hi (Nat.not_lt_zero i)
  free _ _ _ := rfl

/-- A slot of the stretch is taken exactly up to `hi`. -/
theorem Covers.eq_none_iff (h : Covers m slots stream lo hi) {i : ℕ} (hlo : lo ≤ i)
    (hlt : i < lo + m) : slots (i % m) = none ↔ hi ≤ i := by
  constructor
  · intro hnone
    by_contra hge
    have hfull := h.full i hlo (not_le.mp hge)
    rw [hnone, eq_comm, List.getElem?_eq_none_iff] at hfull
    exact hge (h.inside.trans hfull)
  · exact fun hle => h.free i hle hlt

/-- What is taken from a slot of the stretch is the element with its number. -/
theorem Covers.get (h : Covers m slots stream lo hi) {i : ℕ} (hlo : lo ≤ i) (hlt : i < lo + m)
    (ha : slots (i % m) = some a) : i < hi ∧ stream[i]? = some a := by
  have hhi : i < hi := by
    by_contra hle
    rw [h.free i (not_lt.mp hle) hlt] at ha
    cases ha
  exact ⟨hhi, (h.full i hlo hhi).symm.trans ha⟩

/-- Loading the next element. -/
theorem Covers.load (h : Covers m slots stream lo hi) (hroom : hi < lo + m)
    (ha : stream[hi]? = some a) :
    Covers m (Function.update slots (hi % m) (some a)) stream lo (hi + 1) where
  le := h.le.trans (Nat.le_succ hi)
  room := hroom
  inside := (List.getElem?_eq_some_iff.mp ha).1
  full i hlo hlt := by
    rcases Nat.lt_succ_iff_lt_or_eq.mp hlt with hlt' | rfl
    · have hne : i % m ≠ hi % m := fun heq =>
        absurd (mod_inj hlo (hlt'.trans hroom) h.le hroom heq) hlt'.ne
      rw [Function.update_of_ne hne, h.full i hlo hlt']
    · rw [Function.update_self, ha]
  free i hle hlt := by
    have hne : i % m ≠ hi % m := fun heq =>
      absurd (mod_inj (h.le.trans (Nat.le_of_succ_le hle)) hlt h.le hroom heq)
        (Nat.lt_of_succ_le hle).ne'
    rw [Function.update_of_ne hne, h.free i (Nat.le_of_succ_le hle) hlt]

/-- Letting go of the first element. -/
theorem Covers.release (h : Covers m slots stream lo hi) (hlt : lo < hi) :
    Covers m (Function.update slots (lo % m) none) stream (lo + 1) hi where
  le := hlt
  room := h.room.trans (by omega)
  inside := h.inside
  full i hlo hi' := by
    have hlt' : i < lo + m := hi'.trans_le h.room
    have hne : i % m ≠ lo % m := fun heq =>
      absurd (mod_inj (Nat.le_of_succ_le hlo) hlt' le_rfl (by omega) heq) (by omega)
    rw [Function.update_of_ne hne, h.full i (Nat.le_of_succ_le hlo) hi']
  free i hle hi' := by
    by_cases heq : i % m = lo % m
    · rw [heq, Function.update_self]
    · -- the one number that is new to the stretch has the residue of `lo`
      have hlast : i ≠ lo + m := fun hi => heq (by rw [hi, Nat.add_mod_right])
      rw [Function.update_of_ne heq, h.free i hle (by omega)]

theorem Covers.append (h : Covers m slots stream lo hi) (more : List α) :
    Covers m slots (stream ++ more) lo hi where
  le := h.le
  room := h.room
  inside := h.inside.trans (by simp)
  full i hlo hlt := by
    rw [List.getElem?_append_left (hlt.trans_le h.inside), h.full i hlo hlt]
  free := h.free

/-- The slots read from the first on are the stretch. -/
theorem Covers.elements (h : Covers m slots stream lo hi) :
    (List.range m).filterMap (fun i => slots ((lo + i) % m)) = (stream.take hi).drop lo := by
  have hroom := h.room
  have hle := h.le
  obtain ⟨n, rfl⟩ : ∃ n, hi = lo + n := ⟨hi - lo, by omega⟩
  obtain ⟨k, hk⟩ : ∃ k, m = n + k := ⟨m - n, by omega⟩
  -- the first `n` slots hold the stretch, and the others nothing
  have hfirst : ∀ j ≤ n, (List.range j).filterMap (fun i => slots ((lo + i) % m)) =
      (stream.take (lo + j)).drop lo := fun j => by
    induction j with
    | zero => simp
    | succ j ih =>
        intro hj
        have hlen := h.inside
        have hslot := h.full (lo + j) (Nat.le_add_right _ _) (by omega)
        rw [List.range_succ, List.filterMap_append, ih (Nat.le_of_succ_le hj), ← Nat.add_assoc,
          List.take_add_one, List.drop_append_of_le_length (by simp; omega)]
        congr 1
        rw [List.filterMap_cons, hslot]
        cases stream[lo + j]? <;> rfl
  have hrest : ((List.range k).map (n + ·)).filterMap (fun i => slots ((lo + i) % m)) = [] := by
    rw [List.filterMap_eq_nil_iff]
    intro i hi
    obtain ⟨j, hj, rfl⟩ := List.mem_map.mp hi
    have hjk := List.mem_range.mp hj
    exact h.free _ (by omega) (by omega)
  rw [hk, List.range_add, List.filterMap_append, ← hk, hrest, List.append_nil]
  exact hfirst n le_rfl

/-! ## Some elements of a stretch -/

/-- Every slot that is taken holds an element from `lo` up to `hi`, in the slot of its number. -/
structure Within (m : ℕ) (slots : ℕ → Option α) (stream : List α) (lo hi : ℕ) : Prop where
  room : hi ≤ lo + m
  held : ∀ n a, slots n = some a → ∃ i, lo ≤ i ∧ i < hi ∧ i % m = n ∧ stream[i]? = some a

theorem Within.empty (hroom : hi ≤ lo + m) : Within m (fun _ => none) stream lo hi where
  room := hroom
  held _ _ h := by cases h

/-- What is found in the slot of the first number is the first element. -/
theorem Within.head (h : Within m slots stream lo hi) (ha : slots (lo % m) = some a) :
    lo < hi ∧ stream[lo]? = some a := by
  obtain ⟨i, hlo, hlt, hmod, hi⟩ := h.held _ a ha
  have hroom := h.room
  obtain rfl : i = lo := mod_inj hlo (by omega) le_rfl (by omega) hmod
  exact ⟨hlt, hi⟩

theorem Within.erase (h : Within m slots stream lo hi) (n : ℕ) :
    Within m (Function.update slots n none) stream lo hi where
  room := h.room
  held k a ha := by
    by_cases hk : k = n
    · rw [hk, Function.update_self] at ha
      cases ha
    · rw [Function.update_of_ne hk] at ha
      exact h.held k a ha

theorem Within.put (h : Within m slots stream lo hi) {i : ℕ} (hlo : lo ≤ i) (hlt : i < hi)
    (ha : stream[i]? = some a) :
    Within m (Function.update slots (i % m) (some a)) stream lo hi where
  room := h.room
  held k b hb := by
    by_cases hk : k = i % m
    · rw [hk, Function.update_self, Option.some.injEq] at hb
      exact ⟨i, hlo, hlt, hk.symm, hb ▸ ha⟩
    · rw [Function.update_of_ne hk] at hb
      exact h.held k b hb

/-- Once the slot of the first number is free, the stretch starts behind it and may reach
further. -/
theorem Within.advance (h : Within m slots stream lo hi) (hfree : slots (lo % m) = none) {hi' : ℕ}
    (hle : hi ≤ hi') (hroom : hi' ≤ lo + 1 + m) : Within m slots stream (lo + 1) hi' where
  room := hroom
  held n a ha := by
    obtain ⟨i, hlo, hlt, hmod, hi⟩ := h.held n a ha
    have hne : i ≠ lo := by
      rintro rfl
      rw [hmod, ha] at hfree
      cases hfree
    exact ⟨i, by omega, by omega, hmod, hi⟩

theorem Within.append (h : Within m slots stream lo hi) (more : List α) :
    Within m slots (stream ++ more) lo hi where
  room := h.room
  held n a ha := by
    obtain ⟨i, hlo, hlt, hmod, hi⟩ := h.held n a ha
    have hlen := (List.getElem?_eq_some_iff.mp hi).1
    exact ⟨i, hlo, hlt, hmod, by rw [List.getElem?_append_left hlen, hi]⟩

end SlotRing
