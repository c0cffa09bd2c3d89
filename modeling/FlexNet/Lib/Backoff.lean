import Mathlib.Algebra.Order.Ring.Defs
import Mathlib.Tactic.Linarith
import Mathlib.Tactic.Ring

/-!
# Exponential back-off

Somebody tries to keep a thing up, and all he knows of it is what he sees when he looks.  A look
finds it up, finds it neither up nor gone, or finds it gone, with or without the means to try again.
He waits after each try, twice as long each time up to a cap; seeing the thing up sets the wait
back, and its loss is followed by a pause of its own.  `look` is the step, `tries` says which looks
end in a try.  Two facts hold of every history of looks: after `k` tries since it was last seen up
the next one is at least `floor k` away (`spaced`), and a loss is followed by the pause (`pause`).
-/

namespace Backoff

variable {K : Type*} [CommRing K] [LinearOrder K]

/-- The first wait, the cap of the doubling, and the pause after a loss. -/
structure Times (K : Type*) [CommRing K] [LinearOrder K] where
  retry : K
  cap : K
  reopen : K
  retry_pos : 0 < retry
  retry_le_cap : retry ≤ cap

/-- What a look finds. -/
inductive Sight
  | up
  | busy
  | gone (means : Bool)
deriving DecidableEq

/-- What is remembered from look to look; a `wait` of 0 is one that was set back. -/
structure State (K : Type*) where
  wasUp : Bool
  wait : K
  nextTry : K

variable (T : Times K)

/-- The wait after a try. -/
def Times.longer (w : K) : K := min (if w = 0 then T.retry else w * 2) T.cap

/-- The look at `t` ends in a try. -/
def State.tries (s : State K) (t : K) : Sight → Bool
  | .gone true => !s.wasUp && decide (s.nextTry ≤ t)
  | _ => false

/-- One look at `t`. -/
def State.look (s : State K) (t : K) : Sight → State K
  | .up => { s with wasUp := true, wait := 0 }
  | .busy => s
  | .gone means =>
    if s.wasUp then { s with wasUp := false, nextTry := t + T.reopen }
    else if t < s.nextTry then s
    else if means then { s with wait := T.longer s.wait, nextTry := t + T.longer s.wait }
    else { s with nextTry := t + T.retry }

/-- A history of looks, each with its time. -/
def State.after (s : State K) (looks : List (K × Sight)) : State K :=
  looks.foldl (fun s l => s.look T l.1 l.2) s

/-- The tries of a history. -/
def State.triesIn (s : State K) : List (K × Sight) → ℕ
  | [] => 0
  | l :: looks => (if s.tries l.1 l.2 then 1 else 0) + (s.look T l.1 l.2).triesIn looks

/-- The wait that `k` tries in a row have earned. -/
def Times.floor (k : ℕ) : K := if k = 0 then 0 else min (T.retry * 2 ^ (k - 1)) T.cap

/-- What a look can do; the flag says whether it ended in a try. -/
inductive State.Looks (s : State K) (t : K) : Sight → Bool → State K → Prop
  | up : Looks s t .up false { s with wasUp := true, wait := 0 }
  | waits (o : Sight) : o ≠ .up → Looks s t o false s
  | lost (means : Bool) : s.wasUp = true →
      Looks s t (.gone means) false { s with wasUp := false, nextTry := t + T.reopen }
  | tried : s.wasUp = false → s.nextTry ≤ t →
      Looks s t (.gone true) true
        { s with wait := T.longer s.wait, nextTry := t + T.longer s.wait }
  | helpless : s.wasUp = false → s.nextTry ≤ t →
      Looks s t (.gone false) false { s with nextTry := t + T.retry }

/-- A wait is set back or earned, and it is set back as long as the thing is up. -/
structure State.Valid (s : State K) : Prop where
  wait : s.wait = 0 ∨ T.retry ≤ s.wait
  up : s.wasUp = true → s.wait = 0

variable {T} {s s' : State K} {t t' : K} {o : Sight} {tried : Bool}
  {history pre mid : List (K × Sight)} {k : ℕ}

theorem State.look_lost (means : Bool) (hup : s.wasUp = true) :
    s.look T t (.gone means) = { s with wasUp := false, nextTry := t + T.reopen } := if_pos hup

theorem State.look_early (means : Bool) (hdown : s.wasUp = false) (hearly : t < s.nextTry) :
    s.look T t (.gone means) = s := (if_neg (by simp [hdown])).trans (if_pos hearly)

theorem State.look_due (means : Bool) (hdown : s.wasUp = false) (hdue : s.nextTry ≤ t) :
    s.look T t (.gone means) =
      if means then { s with wait := T.longer s.wait, nextTry := t + T.longer s.wait }
      else { s with nextTry := t + T.retry } :=
  (if_neg (by simp [hdown])).trans (if_neg (not_lt.mpr hdue))

/-- The inversion rule of a look. -/
theorem State.looks (s : State K) (t : K) (o : Sight) :
    s.Looks T t o (s.tries t o) (s.look T t o) := by
  cases o with
  | up => exact .up
  | busy => exact .waits .busy nofun
  | gone means =>
      by_cases hup : s.wasUp = true
      · have htries : s.tries t (.gone means) = false := by
          cases means <;> simp [State.tries, hup]
        rw [State.look_lost means hup, htries]
        exact .lost means hup
      have hdown : s.wasUp = false := by simpa using hup
      by_cases hearly : t < s.nextTry
      · have htries : s.tries t (.gone means) = false := by
          cases means <;> simp [State.tries, hearly]
        rw [State.look_early means hdown hearly, htries]
        exact .waits _ nofun
      have hdue : s.nextTry ≤ t := not_lt.mp hearly
      rw [State.look_due means hdown hdue]
      cases means with
      | true =>
          have htries : s.tries t (.gone true) = true := by simp [State.tries, hdown, hdue]
          rw [htries]
          exact .tried hdown hdue
      | false => exact .helpless hdown hdue

theorem State.after_append (s : State K) (pre mid : List (K × Sight)) :
    s.after T (pre ++ mid) = (s.after T pre).after T mid := List.foldl_append ..

/-- The tries of a history are those its looks end in. -/
theorem State.triesIn_eq_countP {α : Type*} (s : State K) (f : α → K × Sight) (p : α → Bool)
    (as : List α) (h : ∀ pre a post, as = pre ++ a :: post →
      (s.after T (pre.map f)).tries (f a).1 (f a).2 = p a) :
    s.triesIn T (as.map f) = as.countP p := by
  induction as generalizing s with
  | nil => rfl
  | cons a as ih =>
      have hfirst := h [] a as rfl
      have hrest := ih (s.look T (f a).1 (f a).2) fun pre b post hsplit =>
        h (a :: pre) b post (by rw [hsplit, List.cons_append])
      rw [List.map_cons, State.triesIn, hrest, List.countP_cons, ← hfirst, add_comm]
      rfl

omit [CommRing K] in
/-- A try needs the means, and a time that is due. -/
theorem State.tries_iff :
    s.tries t o = true ↔ o = .gone true ∧ s.wasUp = false ∧ s.nextTry ≤ t := by
  unfold State.tries
  split
  · simp
  · rename_i hother
    simp only [Bool.false_eq_true, false_iff, not_and]
    exact fun ho => absurd ho hother

theorem Times.floor_zero : T.floor 0 = 0 := if_pos rfl

theorem State.Valid.wait_nonneg (hs : s.Valid T) : 0 ≤ s.wait := by
  rcases hs.wait with hwait | hwait
  · exact hwait.ge
  · exact T.retry_pos.le.trans hwait

/-- There is no try before `t'`. -/
def State.Barred (s : State K) (t' : K) : Prop := s.wasUp = false ∧ t' ≤ s.nextTry

theorem State.Looks.barred_of_tried (h : s.Looks T t o tried s') (htried : tried = true) :
    s'.Barred (t + s'.wait) := by
  cases h with
  | tried hdown => exact ⟨hdown, le_rfl⟩
  | up => cases htried
  | waits => cases htried
  | lost => cases htried
  | helpless => cases htried

variable [IsStrictOrderedRing K]

theorem Times.retry_le_longer {w : K} (hw : w = 0 ∨ T.retry ≤ w) : T.retry ≤ T.longer w := by
  have hretry := T.retry_pos
  refine le_min ?_ T.retry_le_cap
  rcases hw with rfl | hw
  · rw [if_pos rfl]
  · rw [if_neg (by linarith)]
    linarith

/-- One more try earns one more doubling. -/
theorem Times.floor_succ_le {w : K} (hw : w = 0 ∨ T.retry ≤ w) (h : T.floor k ≤ w) :
    T.floor (k + 1) ≤ T.longer w := by
  have hretry := T.retry_pos
  cases k with
  | zero => simpa [Times.floor] using (min_le_left _ _).trans (Times.retry_le_longer hw)
  | succ k =>
      have hpow : (0 : K) < T.retry * 2 ^ k := by positivity
      have hfloor : min (T.retry * 2 ^ k) T.cap ≤ w := by simpa [Times.floor] using h
      have hpos : 0 < w := (lt_min hpow (hretry.trans_le T.retry_le_cap)).trans_le hfloor
      simp only [Times.floor, Times.longer, if_neg hpos.ne', Nat.add_sub_cancel,
        if_neg (Nat.succ_ne_zero _)]
      refine le_min ?_ (min_le_right _ _)
      rcases min_le_iff.mp hfloor with hle | hle
      · exact (min_le_left _ _).trans (by rw [pow_succ]; linarith)
      · exact (min_le_right _ _).trans (by linarith)

/-! ## One look -/

theorem State.Valid.look (hs : s.Valid T) (t : K) (o : Sight) : (s.look T t o).Valid T := by
  have hlook := s.looks (T := T) t o
  generalize s.look T t o = s', s.tries t o = tried at hlook
  cases hlook with
  | up => exact ⟨.inl rfl, fun _ => rfl⟩
  | waits => exact hs
  | lost means hup => exact ⟨hs.wait, fun h => absurd h nofun⟩
  | tried hdown => exact ⟨.inr (Times.retry_le_longer hs.wait), fun h => by simp [hdown] at h⟩
  | helpless hdown => exact ⟨hs.wait, fun h => by simp [hdown] at h⟩

/-- What `k` tries have earned, a look that does not find the thing up keeps, and a try adds to. -/
theorem State.Looks.floor_le (h : s.Looks T t o tried s') (hs : s.Valid T) (hup : o ≠ .up)
    (hk : T.floor k ≤ s.wait) : T.floor (k + if tried then 1 else 0) ≤ s'.wait := by
  cases h with
  | up => exact absurd rfl hup
  | waits => exact hk
  | lost => exact hk
  | tried => exact Times.floor_succ_le hs.wait hk
  | helpless => exact hk

theorem State.Looks.barred (h : s.Looks T t o tried s') (hs : s.Valid T) (hup : o ≠ .up)
    (hbar : s.Barred t') : s'.Barred t' := by
  obtain ⟨hdown, hle⟩ := hbar
  have hretry := T.retry_pos
  cases h with
  | up => exact absurd rfl hup
  | waits => exact ⟨hdown, hle⟩
  | lost means hwas => rw [hdown] at hwas; cases hwas
  | tried _ hdue =>
      have hlonger := Times.retry_le_longer hs.wait
      exact ⟨hdown, by dsimp only; linarith⟩
  | helpless _ hdue => exact ⟨hdown, by dsimp only; linarith⟩

/-- There is no try before `t'`, or the thing has been seen up again. -/
theorem State.Looks.pause (h : s.Looks T t o tried s') (hs : s.Valid T) (hle : t' ≤ t + T.reopen)
    (hbar : s.wasUp = false → t' ≤ s.nextTry) : s'.wasUp = false → t' ≤ s'.nextTry := by
  have hretry := T.retry_pos
  intro hdown
  cases h with
  | up => cases hdown
  | waits => exact hbar hdown
  | lost means hwas => exact hle
  | tried hdown hdue =>
      have hlonger := Times.retry_le_longer hs.wait
      have := hbar hdown
      dsimp only
      linarith
  | helpless hdown hdue =>
      have := hbar hdown
      dsimp only
      linarith

/-! ## Histories -/

theorem State.Valid.after (hs : s.Valid T) (history : List (K × Sight)) :
    (s.after T history).Valid T := by
  induction history generalizing s with
  | nil => exact hs
  | cons l history ih => exact ih (hs.look l.1 l.2)

omit [IsStrictOrderedRing K] in
/-- The thing counts as up until a look finds it gone. -/
theorem State.up_after (hup : s.wasUp = true) (hthere : ∀ l ∈ history, ∀ means, l.2 ≠ .gone means) :
    (s.after T history).wasUp = true := by
  induction history generalizing s with
  | nil => exact hup
  | cons l history ih =>
      refine ih (s := s.look T l.1 l.2) ?_ fun l' hl' => hthere l' (by simp [hl'])
      cases ho : l.2 with
      | up => rfl
      | busy => exact hup
      | gone means => exact absurd ho (hthere l (by simp) means)

theorem State.floor_le_after (hs : s.Valid T) (hup : ∀ l ∈ history, l.2 ≠ .up)
    (hk : T.floor k ≤ s.wait) : T.floor (k + s.triesIn T history) ≤ (s.after T history).wait := by
  induction history generalizing s k with
  | nil => exact hk
  | cons l history ih =>
      have hstep := (s.looks (T := T) l.1 l.2).floor_le hs (hup l (by simp)) hk
      have hrest := ih (hs.look l.1 l.2) (fun l' hl' => hup l' (by simp [hl'])) hstep
      rwa [add_assoc] at hrest

theorem State.Barred.after (hs : s.Valid T) (hup : ∀ l ∈ history, l.2 ≠ .up) (h : s.Barred t') :
    (s.after T history).Barred t' := by
  induction history generalizing s with
  | nil => exact h
  | cons l history ih =>
      exact ih (hs.look l.1 l.2) (fun l' hl' => hup l' (by simp [hl']))
        ((s.looks l.1 l.2).barred hs (hup l (by simp)) h)

theorem State.pause_after (hs : s.Valid T) (hle : ∀ l ∈ history, t' ≤ l.1 + T.reopen)
    (hbar : s.wasUp = false → t' ≤ s.nextTry) :
    (s.after T history).wasUp = false → t' ≤ (s.after T history).nextTry := by
  induction history generalizing s with
  | nil => exact hbar
  | cons l history ih =>
      exact ih (hs.look l.1 l.2) (fun l' hl' => hle l' (by simp [hl']))
        ((s.looks l.1 l.2).pause hs (hle l (by simp)) hbar)

/-- After `k` tries in a row the next one is `floor k` away. -/
theorem State.spaced {a b : K × Sight} (hs : s.Valid T) (hup : ∀ l ∈ pre ++ a :: mid, l.2 ≠ .up)
    (ha : (s.after T pre).tries a.1 a.2 = true)
    (hb : (s.after T (pre ++ a :: mid)).tries b.1 b.2 = true) :
    a.1 + T.floor (s.triesIn T (pre ++ [a])) ≤ b.1 := by
  have hearned : T.floor (0 + s.triesIn T (pre ++ [a])) ≤ (s.after T (pre ++ [a])).wait := by
    refine State.floor_le_after hs (fun l hl => hup l ?_) ?_
    · simp only [List.mem_append, List.mem_cons] at hl ⊢
      tauto
    · rw [Times.floor_zero]
      exact hs.wait_nonneg
  have hbarred := (State.looks (T := T) (s.after T pre) a.1 a.2).barred_of_tried ha
  have hlook : s.after T (pre ++ [a]) = (s.after T pre).look T a.1 a.2 := State.after_append ..
  have hsplit : s.after T (pre ++ a :: mid) = ((s.after T pre).look T a.1 a.2).after T mid :=
    State.after_append ..
  have hkept := hbarred.after ((hs.after pre).look a.1 a.2)
    (fun l hl => hup l (List.mem_append_right _ (List.mem_cons_of_mem _ hl)))
  rw [← hsplit, ← hlook] at hkept
  have hdue := (State.tries_iff.mp hb).2.2
  rw [zero_add] at hearned
  linarith [hkept.2]

/-- After a loss the wait is set back, and the next try is the pause away. -/
theorem State.pause {a : K × Sight} {means : Bool} (hs : s.Valid T) (hwas : s.wasUp = true)
    (ha : a.2 = .gone means) :
    (s.look T a.1 a.2).wait = 0 ∧ s.tries a.1 a.2 = false ∧
      ∀ (mid : List (K × Sight)) (b : K × Sight), (∀ l ∈ mid, a.1 ≤ l.1) →
        ((s.look T a.1 a.2).after T mid).tries b.1 b.2 = true → a.1 + T.reopen ≤ b.1 := by
  have hlook : s.look T a.1 a.2 = { s with wasUp := false, nextTry := a.1 + T.reopen } := by
    rw [ha]
    exact State.look_lost means hwas
  refine ⟨by rw [hlook]; exact hs.up hwas, ?_, fun mid b hlater hb => ?_⟩
  · by_contra htries
    have := (State.tries_iff.mp (eq_true_of_ne_false htries)).2.1
    simp [hwas] at this
  · have hdue := (State.tries_iff.mp hb).2
    refine (State.pause_after (hs.look a.1 a.2) (fun l hl => ?_) (fun _ => ?_) hdue.1).trans hdue.2
    · have := hlater l hl
      linarith
    · rw [hlook]

end Backoff
