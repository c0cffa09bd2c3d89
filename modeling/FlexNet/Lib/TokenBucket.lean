import Mathlib.Algebra.Order.Field.Basic
import Mathlib.Algebra.BigOperators.Group.List.Basic
import Mathlib.Algebra.Order.BigOperators.Group.List
import Mathlib.Tactic.Linarith
import Mathlib.Tactic.Ring

/-!
# Token buckets

A bucket holds at most `cap` tokens and gains `rate` of them per unit of time.  It is refilled
lazily, at the moments somebody spends from it, and a bucket nobody has used is full.  `level` is
what a refill would find; `Trace` is a sequence of uses.  Whatever the uses are, a window of
length `d` sees at most `cap + d * rate` tokens spent: `Trace.spentIn_le`.
-/

namespace TokenBucket

variable {K : Type*} [Field K] [LinearOrder K]

/-- The two numbers of a bucket. -/
structure Rate (K : Type*) [Zero K] [LE K] where
  cap : K
  rate : K
  cap_nonneg : 0 ≤ cap
  rate_nonneg : 0 ≤ rate

/-- What is left, and since when. -/
structure Credit (K : Type*) where
  tokens : K
  since : K

variable (r : Rate K)

/-- The tokens a refill at `t` finds; a bucket that was never used is full. -/
def level (b : Option (Credit K)) (t : K) : K :=
  b.elim r.cap fun c => min r.cap (c.tokens + (t - c.since) * r.rate)

/-- One use at `t`: nothing happens, or the bucket is refilled and `n` tokens are spent. -/
inductive Uses : Option (Credit K) → K → K → Option (Credit K) → Prop
  | idle (b : Option (Credit K)) (t : K) : Uses b t 0 b
  | spend (b : Option (Credit K)) (t n : K) : 0 ≤ n → n ≤ level r b t →
      Uses b t n (some ⟨level r b t - n, t⟩)

/-- A sequence of uses, each with its time and the tokens it spent. -/
inductive Trace : Option (Credit K) → List (K × K) → Option (Credit K) → Prop
  | nil (b : Option (Credit K)) : Trace b [] b
  | cons {b b' b'' : Option (Credit K)} {t n : K} {us : List (K × K)} :
      Uses r b t n b' → Trace b' us b'' → Trace b ((t, n) :: us) b''

/-- The bucket holds no debt, and time has not run back. -/
def Valid (b : Option (Credit K)) (t : K) : Prop :=
  ∀ c, b = some c → 0 ≤ c.tokens ∧ c.tokens ≤ r.cap ∧ c.since ≤ t

/-- The tokens spent in the window `[t₁, t₂]`. -/
def spentIn (t₁ t₂ : K) (us : List (K × K)) : K :=
  ((us.filter fun u => t₁ ≤ u.1 ∧ u.1 ≤ t₂).map Prod.snd).sum

variable {r} {b b' : Option (Credit K)} {t t' n t₁ t₂ : K} {us : List (K × K)}

theorem level_le_cap : level r b t ≤ r.cap := by
  cases b with
  | none => exact le_rfl
  | some c => exact min_le_left _ _

/-- What a use spends, the level loses. -/
theorem Uses.level_le (hu : Uses r b t n b') : level r b' t ≤ level r b t - n := by
  cases hu with
  | idle => simp
  | spend =>
      refine (min_le_right _ _).trans_eq ?_
      simp

theorem Valid.mono (h : Valid r b t) (hle : t ≤ t') : Valid r b t' := by
  intro c hc
  obtain ⟨htokens, hcap, hsince⟩ := h c hc
  exact ⟨htokens, hcap, hsince.trans hle⟩

/-- Where no use falls in the window, nothing is spent. -/
theorem spentIn_eq_zero (h : ∀ u ∈ us, ¬ (t₁ ≤ u.1 ∧ u.1 ≤ t₂)) : spentIn t₁ t₂ us = 0 := by
  have hempty : us.filter (fun u => t₁ ≤ u.1 ∧ u.1 ≤ t₂) = [] :=
    List.filter_eq_nil_iff.mpr fun u hu => by simpa using h u hu
  rw [spentIn, hempty, List.map_nil, List.sum_nil]

/-- A window may be taken to open with the first use. -/
theorem spentIn_from (ht : t ≤ t') (h : ∀ u ∈ us, t' ≤ u.1) :
    spentIn t t₂ us = spentIn t' t₂ us := by
  unfold spentIn
  congr 2
  refine List.filter_congr fun u hu => ?_
  simp [h u hu, ht.trans (h u hu)]

section Order

variable [IsStrictOrderedRing K]

theorem gain_nonneg (h : t ≤ t') : 0 ≤ (t' - t) * r.rate :=
  mul_nonneg (sub_nonneg.mpr h) r.rate_nonneg

theorem level_nonneg (h : Valid r b t) : 0 ≤ level r b t := by
  cases b with
  | none => exact r.cap_nonneg
  | some c =>
      obtain ⟨htokens, -, hsince⟩ := h c rfl
      exact le_min r.cap_nonneg (add_nonneg htokens (gain_nonneg hsince))

/-- The level rises at the rate of the bucket at most. -/
theorem level_mono_le (h : t ≤ t') : level r b t' ≤ level r b t + (t' - t) * r.rate := by
  have hgain := gain_nonneg (r := r) h
  cases b with
  | none =>
      change r.cap ≤ r.cap + _
      linarith
  | some c =>
      have hrise : c.tokens + (t' - c.since) * r.rate =
          c.tokens + (t - c.since) * r.rate + (t' - t) * r.rate := by ring
      change min r.cap (c.tokens + (t' - c.since) * r.rate) ≤
        min r.cap (c.tokens + (t - c.since) * r.rate) + (t' - t) * r.rate
      rw [hrise, ← min_add_add_right]
      exact min_le_min_right _ (by linarith)

/-! ## One use -/

/-- A use keeps the bucket valid. -/
theorem Uses.valid (hu : Uses r b t n b') (h : Valid r b t) : Valid r b' t := by
  cases hu with
  | idle => exact h
  | spend n hn hle =>
      intro c hc
      obtain rfl := Option.some.inj hc
      have hcap := level_le_cap (r := r) (b := b) (t := t)
      refine ⟨sub_nonneg.mpr hle, ?_, le_rfl⟩
      dsimp only
      linarith

/-! ## Many uses -/

/-- From a moment `t` on, what is spent up to `t₂` was in the bucket at `t` or came in since. -/
theorem Trace.spentIn_le_level (htr : Trace r b us b') (hv : Valid r b t)
    (hsorted : us.Pairwise fun u v => u.1 ≤ v.1) (hfrom : ∀ u ∈ us, t ≤ u.1) (ht : t ≤ t₂) :
    spentIn t t₂ us ≤ level r b t + (t₂ - t) * r.rate := by
  have hroom : ∀ {b : Option (Credit K)} {t : K}, Valid r b t → t ≤ t₂ →
      0 ≤ level r b t + (t₂ - t) * r.rate := fun hv ht =>
    add_nonneg (level_nonneg hv) (gain_nonneg ht)
  induction htr generalizing t with
  | nil b => exact hroom hv ht
  | @cons b b' b'' u n us hu htr ih =>
      obtain ⟨hfirst, hrest⟩ := List.pairwise_cons.mp hsorted
      have htu : t ≤ u := hfrom (u, n) List.mem_cons_self
      by_cases hu2 : u ≤ t₂
      · have htail := ih (hu.valid (hv.mono htu)) hrest hfirst hu2
        have hspent := hu.level_le
        have hrise := level_mono_le (r := r) (b := b) htu
        have hcons : spentIn t t₂ ((u, n) :: us) = n + spentIn u t₂ us := by
          rw [← spentIn_from htu hfirst]
          simp [spentIn, htu, hu2]
        have hsplit : (t₂ - t) * r.rate = (t₂ - u) * r.rate + (u - t) * r.rate := by ring
        rw [hcons]
        linarith
      · rw [spentIn_eq_zero]
        · exact hroom hv ht
        · rintro v hmem ⟨-, hv2⟩
          rcases List.mem_cons.mp hmem with rfl | hmem
          · exact hu2 hv2
          · exact hu2 ((hfirst v hmem).trans hv2)

/-- The window bound: between `t₁` and `t₂` no more is spent than a full bucket and what comes in
meanwhile. -/
theorem Trace.spentIn_le (htr : Trace r b us b') (hsorted : us.Pairwise fun u v => u.1 ≤ v.1)
    (hv : ∀ u ∈ us, Valid r b u.1) (ht : t₁ ≤ t₂) :
    spentIn t₁ t₂ us ≤ r.cap + (t₂ - t₁) * r.rate := by
  have hroom : 0 ≤ r.cap + (t₂ - t₁) * r.rate := add_nonneg r.cap_nonneg (gain_nonneg ht)
  induction htr with
  | nil b => exact hroom
  | @cons b b' b'' u n us hu htr ih =>
      obtain ⟨hfirst, hrest⟩ := List.pairwise_cons.mp hsorted
      have hvu : Valid r b u := hv (u, n) List.mem_cons_self
      by_cases hin : t₁ ≤ u
      · -- the first use lies in the window: nothing was spent in it before
        have hfrom : ∀ v ∈ (u, n) :: us, u ≤ v.1 := by
          intro v hmem
          rcases List.mem_cons.mp hmem with rfl | hmem
          · exact le_rfl
          · exact hfirst v hmem
        rw [spentIn_from hin hfrom]
        by_cases hu2 : u ≤ t₂
        · have hbound := (Trace.cons hu htr).spentIn_le_level hvu hsorted hfrom hu2
          have hcap := level_le_cap (r := r) (b := b) (t := u)
          have hgain := gain_nonneg (r := r) hin
          have hsplit : (t₂ - t₁) * r.rate = (t₂ - u) * r.rate + (u - t₁) * r.rate := by ring
          linarith
        · rw [spentIn_eq_zero]
          · exact hroom
          · rintro v - ⟨huv, hvt⟩
            exact hu2 (huv.trans hvt)
      · have hskip : spentIn t₁ t₂ ((u, n) :: us) = spentIn t₁ t₂ us := by
          simp [spentIn, hin]
        rw [hskip]
        exact ih hrest fun v hmem => (hu.valid hvu).mono (hfirst v hmem)

end Order

end TokenBucket
