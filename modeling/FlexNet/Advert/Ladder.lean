import FlexNet.Advert.Climb

/-!
# What the climb guard stops

A ladder is a run of costs each of which was told before the next, higher one was seen.  Once it
has `FLEXNET_CLIMB_MIN_STEPS` rungs and has reached `FLEXNET_CLIMB_RATIO` times the lowest cost ever
told, nothing finite of it is queued until the cost is back under that ratio (`ladder_stopped`).
The guard measures against the floor of the entry, which no check with a direct neighbour as its
source sets or lowers: the statement is about runs in which what such a check queues is not below
the floor, and without it a ladder climbs for ever (`ladder_not_stopped`).
-/

namespace FlexNet

open Runs AdvRoute

/-! ## Ladders -/

/-- The last `m + 1` sightings climb, each rung being told before the next is seen. -/
def Ladder : ℕ → List Sighting → Prop
  | 0, seen => seen ≠ []
  | m + 1, s :: t :: seen => s.last = t.cost ∧ t.cost < s.cost ∧ Ladder m (t :: seen)
  | _ + 1, _ => False

/-- A ladder has reached `FLEXNET_CLIMB_RATIO` times the lowest cost told, and the cost has not been
back under that bound since. -/
inductive Barred (bound : ℤ) : List Sighting → Prop
  | reached {s : Sighting} {seen : List Sighting} {m : ℕ} {low : ℤ} (hladder : Ladder m (s :: seen))
      (hrungs : climbMinSteps ≤ m) (hlow : s.low = some low) (hbound : climbRatio * low = bound)
      (hcost : bound ≤ s.cost) : Barred bound (s :: seen)
  | still {s : Sighting} {seen : List Sighting} (hbarred : Barred bound seen)
      (hcost : bound ≤ s.cost) : Barred bound (s :: seen)

/-! ## The floor -/

namespace AdvRoute

variable {a b : AdvRoute} {low : Option ℤ} {c : ℤ}

/-- The floor is set, and not above the cost. -/
def Floors (a : AdvRoute) (c : ℤ) : Prop := 0 < a.rttFloor ∧ a.rttFloor ≤ c

instance : Decidable (a.Floors c) := inferInstanceAs (Decidable (_ ∧ _))

/-- A cost is inflated when it is `FLEXNET_CLIMB_RATIO` times a floor that is set. -/
theorem climbed_iff (hc : 0 ≤ c) : a.Climbed c ↔ 0 < a.rttFloor ∧ climbRatio * a.rttFloor ≤ c := by
  refine and_congr_right fun hpos => ?_
  rw [Int.tdiv_eq_ediv_of_nonneg hc, Int.le_ediv_iff_mul_le hpos]

/-- The floor of an entry is not above what the peer was told, nor above what is queued. -/
structure Floored (low : Option ℤ) (a : AdvRoute) : Prop where
  known : a.rttFloor < 0 ∨ 0 < a.rttFloor
  told : ∀ c, a.toldCost = some c → a.Floors c
  queued : a.pending = true → a.pendingRtt < rttInfinity → a.Floors (a.pendingRtt - a.pendingPen)
  low : ∀ c, low = some c → a.Floors c

theorem floored_fresh {k : Key} : Floored none (fresh k) :=
  ⟨.inl (Int.negSucc_lt_zero 0), fun _ h => by simp [toldCost, toldFinite, fresh] at h,
    fun h => (by cases h), fun _ h => (by cases h)⟩

/-- The lowest cost told follows the entry. -/
theorem Floored.withLowest (h : Floored low a) : Floored (Watch.lowest low (some a)) a where
  known := h.known
  told := h.told
  queued := h.queued
  low := by
    intro c hc
    unfold Watch.lowest at hc
    rw [Option.bind_some] at hc
    cases htold : a.toldCost with
    | none =>
        rw [htold] at hc
        exact h.low c hc
    | some d =>
        rw [htold, Option.some.injEq] at hc
        have hd := h.told d htold
        cases hlow : low with
        | none =>
            rw [hlow] at hc
            exact hc ▸ hd
        | some l =>
            have hl := h.low l hlow
            rw [hlow, Option.elim_some] at hc
            rw [← hc]
            rcases min_choice d l with hmin | hmin <;> rw [hmin]
            · exact hd
            · exact hl

/-- An entry told the same, with the same floor. -/
theorem Floored.congr (h : Floored low a) (hfloor : b.rttFloor = a.rttFloor)
    (hlast : b.lastRtt = a.lastRtt) (hpen : b.lastPen = a.lastPen)
    (hqueued : b.pending = true → b.pendingRtt < rttInfinity →
      a.Floors (b.pendingRtt - b.pendingPen)) : Floored low b where
  known := hfloor ▸ h.known
  told := fun c hc => by
    have htold : a.toldCost = some c := by
      rw [← hc]
      rw [toldCost, toldCost, toldFinite, toldFinite, hlast, hpen]
    unfold Floors
    rw [hfloor]
    exact h.told c htold
  queued := fun hq hfin => by
    unfold Floors
    rw [hfloor]
    exact hqueued hq hfin
  low := fun c hc => by
    unfold Floors
    rw [hfloor]
    exact h.low c hc

/-- What was queued is told. -/
theorem Floored.commit {now : ℤ} (h : Floored low a) (hq : a.pending = true) :
    Floored low (a.commit now) where
  known := h.known
  told := fun c hc => by
    have hfin : (a.commit now).toldFinite = true := by
      by_contra hinf
      rw [toldCost, if_neg hinf] at hc
      cases hc
    rw [toldCost, if_pos hfin, Option.some.injEq] at hc
    rw [← hc]
    exact h.queued hq (by simpa [toldFinite, AdvRoute.commit] using (of_decide_eq_true hfin).2)
  queued := fun hq' => by cases hq'
  low := h.low

/-- A cost that is not below the floor may be queued, and the sentinel. -/
theorem Floored.settle {force : Bool} {cost penalty : ℤ} (h : Floored low a)
    (hcost : (fires force cost a = true ∨ a.pending = true) → cost < rttInfinity →
      a.Floors (cost - penalty)) : Floored low (settle force cost penalty a) := by
  rcases settle_cases force cost penalty a with ⟨hwhy, hs⟩ | ⟨-, -, hs⟩ <;> rw [hs]
  · refine h.congr rfl rfl rfl fun _ hfin => ?_
    have hfin' : cost < rttInfinity := hfin
    simp only [queue, if_neg (not_le.mpr hfin')]
    exact hcost hwhy hfin'
  · exact h

/-- A cost that climbs is above one the peer was told. -/
theorem toldCost_of_climbs (hup : Climbs (climbLast a) c) (hc : c < rttInfinity) :
    a.toldCost = some (climbLast a) := by
  obtain ⟨hzero, hlt⟩ := hup
  unfold climbLast at *
  by_cases hsentinel : a.lastRtt < 0 ∨ rttInfinity ≤ a.lastRtt
  · rw [if_pos hsentinel] at hzero hlt
    omega
  · rw [if_neg hsentinel] at *
    rw [not_or, not_lt, not_le] at hsentinel
    have htold : a.toldFinite = true := decide_eq_true hsentinel
    rw [toldCost, if_pos htold]

/-- After a sighting the floor is not above the cost, and it has not risen. -/
theorem Floored.floorAfter (h : Floored low a) (hpos : 0 < c) (hc : c < rttInfinity) :
    (0 < a.floorAfter (climbLast a) c ∧ a.floorAfter (climbLast a) c ≤ c) ∧
      (0 < a.rttFloor → a.floorAfter (climbLast a) c ≤ a.rttFloor) := by
  have hknown := h.known
  unfold AdvRoute.floorAfter
  by_cases hup : Climbs (climbLast a) c
  · obtain ⟨hfloor, hle⟩ := h.told _ (toldCost_of_climbs hup hc)
    have hlt := hup.2
    rw [if_pos hup]
    omega
  · rw [if_neg hup]
    split_ifs
    · omega
    · omega

/-- The detector keeps the floor. -/
theorem Floored.judged {force : Bool} {cost penalty : ℤ} (h : Floored low a) (hpen : 0 ≤ penalty)
    (hlt : penalty < cost) (hfin : cost < rttInfinity) :
    Floored low (decideEntry force false cost penalty a) := by
  have hsentinel : ∀ {b : AdvRoute}, (fires force rttInfinity b = true ∨ b.pending = true) →
      rttInfinity < rttInfinity → b.Floors (rttInfinity - penalty) :=
    fun _ hinf => absurd hinf (lt_irrefl _)
  rcases @decideEntry_memory force cost penalty a hpen hfin with ⟨-, -, hdecide⟩ |
    ⟨-, -, -, -, hdecide⟩ | ⟨-, -, hdecide⟩ <;> rw [hdecide]
  · split_ifs
    · exact h.settle hsentinel
    · exact h.congr rfl rfl rfl fun hq => by cases hq
  · have hlatched : Floored low { a with looping := true, climbSteps := 0 } :=
      h.congr rfl rfl rfl h.queued
    exact hlatched.settle hsentinel
  · obtain ⟨⟨hpos, hle⟩, hmono⟩ := @Floored.floorAfter _ _ (cost - penalty) h (by omega) (by omega)
    have hlower : ∀ c, a.Floors c → 0 < a.floorAfter (climbLast a) (cost - penalty) ∧
        a.floorAfter (climbLast a) (cost - penalty) ≤ c := fun c hc =>
      ⟨hpos, (hmono hc.1).trans hc.2⟩
    refine Floored.settle ⟨.inr hpos, fun c hc => hlower c (h.told c hc), fun hq hqfin =>
      hlower _ (h.queued hq hqfin), fun c hc => hlower c (h.low c hc)⟩ fun _ _ => ⟨hpos, hle⟩

/-! ## The ladder -/

/-- The memory of the detector is about the ladder: the steps are at least its rungs, a latched
entry was inflated at the last sighting, and it is latched while a ladder is barred. -/
structure Remembers (a : AdvRoute) (seen : List Sighting) : Prop where
  positive : ∀ t ∈ seen, 0 < t.cost
  steps : ∀ m, Ladder m seen → a.looping = true ∨ m ≤ a.climbSteps
  inflated : a.looping = true → ∀ t ∈ seen.head?, a.Climbed t.cost
  barred : ∀ bound, Barred bound seen → a.looping = true ∧ 0 < bound ∧ a.Climbed bound

theorem remembers_fresh {k : Key} : (fresh k).Remembers [] where
  positive := fun _ ht => absurd ht List.not_mem_nil
  steps := fun m hladder => by
    cases m with
    | zero => exact absurd rfl hladder
    | succ m => exact hladder.elim
  inflated := fun hl => by cases hl
  barred := fun _ hbarred => by cases hbarred

/-- A rung above the last: the entry is latched and the cost inflated, or the step counts. -/
theorem Remembers.rung {seen : List Sighting} {s : Sighting} {m : ℕ} (h : a.Remembers seen)
    (hlast : s.last = climbLast a) (hladder : Ladder (m + 1) (s :: seen)) :
    (a.looping = true ∧ a.Climbed s.cost) ∨
      (a.looping = false ∧ Climbs (climbLast a) s.cost ∧ m ≤ a.climbSteps) := by
  cases seen with
  | nil => exact hladder.elim
  | cons t rest =>
      obtain ⟨htold, hlt, hrest⟩ := hladder
      have hpos := h.positive t List.mem_cons_self
      cases hl : a.looping with
      | true => exact .inl ⟨rfl, (h.inflated hl t rfl).mono hlt.le⟩
      | false =>
          refine .inr ⟨rfl, ⟨?_, ?_⟩, ?_⟩
          · rw [← hlast, htold]
            exact hpos.le
          · rw [← hlast, htold]
            exact hlt
          · exact (h.steps m hrest).resolve_left (by simp [hl])

/-- A barred cost is inflated, and an entry that is not latched takes its last step. -/
theorem Remembers.trips {seen : List Sighting} {s : Sighting} {bound : ℤ} (h : a.Remembers seen)
    (hf : Floored s.low a) (hlast : s.last = climbLast a) (hbarred : Barred bound (s :: seen)) :
    0 < bound ∧ bound ≤ s.cost ∧ a.Climbed bound ∧ (a.looping = true ∨
      (Climbs (climbLast a) s.cost ∧ climbMinSteps ≤ a.climbSteps + 1)) := by
  cases hbarred with
  | still hbarred hcost =>
      obtain ⟨hl, hpos, hclimbed⟩ := h.barred bound hbarred
      exact ⟨hpos, hcost, hclimbed, .inl hl⟩
  | @reached _ _ m low hladder hrungs hlow hbound hcost =>
      obtain ⟨hfloor, hle⟩ := hf.low low hlow
      have hpos : 0 < bound := by
        rw [← hbound]
        exact Int.mul_pos (by decide) (hfloor.trans_le hle)
      have hclimbed : a.Climbed bound := by
        rw [climbed_iff hpos.le, ← hbound]
        exact ⟨hfloor, Int.mul_le_mul_of_nonneg_left hle (by decide)⟩
      refine ⟨hpos, hcost, hclimbed, ?_⟩
      obtain ⟨n, rfl⟩ : ∃ n, m = n + 1 := Nat.exists_eq_add_one.mpr (by
        unfold climbMinSteps at hrungs
        omega)
      rcases h.rung hlast hladder with ⟨hl, -⟩ | ⟨-, hup, hsteps⟩
      · exact .inl hl
      · exact .inr ⟨hup, hrungs.trans (Nat.succ_le_succ hsteps)⟩

theorem Remembers.positive_cons {seen : List Sighting} {s : Sighting} (h : a.Remembers seen)
    (hpos : 0 < s.cost) : ∀ t ∈ s :: seen, 0 < t.cost := by
  intro t ht
  rcases List.mem_cons.mp ht with rfl | ht
  · exact hpos
  · exact h.positive t ht

/-- The detector takes the cost for a loop: the entry is latched, with the floor it had. -/
theorem Remembers.latched {seen : List Sighting} {s : Sighting} (h : a.Remembers seen)
    (hf : Floored s.low a) (hlast : s.last = climbLast a) (hpos : 0 < s.cost)
    (hclimbed : a.Climbed s.cost) (hl : b.looping = true) (hfloor : b.rttFloor = a.rttFloor) :
    b.Remembers (s :: seen) where
  positive := h.positive_cons hpos
  steps := fun _ _ => .inl hl
  inflated := by
    intro _ t ht
    obtain rfl : s = t := by simpa using ht
    unfold Climbed
    rw [hfloor]
    exact hclimbed
  barred := by
    intro bound hbound
    obtain ⟨hboundPos, -, hclimbed, -⟩ := h.trips hf hlast hbound
    refine ⟨hl, hboundPos, ?_⟩
    unfold Climbed
    rw [hfloor]
    exact hclimbed

/-- The detector lets the cost pass, so nothing is barred. -/
theorem Remembers.not_barred {seen : List Sighting} {s : Sighting} {bound : ℤ}
    (h : a.Remembers seen) (hf : Floored s.low a) (hlast : s.last = climbLast a)
    (hsup : ¬ (a.looping = true ∧ a.Climbed s.cost))
    (htrip : ¬ (a.looping = false ∧ Climbs (climbLast a) s.cost ∧
      climbMinSteps ≤ a.climbSteps + 1 ∧ a.Climbed s.cost)) : ¬ Barred bound (s :: seen) := by
  intro hbound
  obtain ⟨-, hcost, hclimbed, hstep⟩ := h.trips hf hlast hbound
  have hinflated := hclimbed.mono hcost
  cases hl : a.looping with
  | true => exact hsup ⟨hl, hinflated⟩
  | false =>
      obtain ⟨hup, hsteps⟩ := hstep.resolve_left (by simp [hl])
      exact htrip ⟨hl, hup, hsteps, hinflated⟩

/-- An entry settled on a withdrawal has nothing else queued. -/
theorem settle_withdraws {force : Bool} {penalty : ℤ}
    (hq : (settle force rttInfinity penalty a).pending = true) :
    (settle force rttInfinity penalty a).pendingRtt = rttInfinity := by
  rcases settle_cases force rttInfinity penalty a with ⟨-, hsettle⟩ | ⟨-, hidle, hsettle⟩ <;>
    rw [hsettle] at hq ⊢
  · rfl
  · rw [hidle] at hq
    cases hq

/-- The last sighting of a ladder, with what the detector makes of it. -/
theorem Remembers.judged {force : Bool} {cost penalty : ℤ} {seen : List Sighting}
    (h : a.Remembers seen) (hf : Floored low a) (hpen : 0 ≤ penalty) (hlt : penalty < cost)
    (hfin : cost < rttInfinity) :
    (decideEntry force false cost penalty a).Remembers
        (⟨climbLast a, cost - penalty, low⟩ :: seen) ∧
      ∀ bound, Barred bound (⟨climbLast a, cost - penalty, low⟩ :: seen) →
        (decideEntry force false cost penalty a).pending = true →
        (decideEntry force false cost penalty a).pendingRtt = rttInfinity := by
  set s : Sighting := ⟨climbLast a, cost - penalty, low⟩ with hs
  have hpos : 0 < s.cost := by
    have hraw : 0 < cost - penalty := by omega
    exact hraw
  rcases @decideEntry_memory force cost penalty a hpen hfin with ⟨hl, hclimbed, hdecide⟩ |
    ⟨-, -, -, hclimbed, hdecide⟩ | ⟨hsup, htrip, hdecide⟩ <;> rw [hdecide]
  · cases force with
    | true =>
        exact ⟨h.latched hf rfl hpos hclimbed (settle_looping.trans hl)
          (settle_memory true rttInfinity penalty a).2, fun _ _ => settle_withdraws⟩
    | false =>
        refine ⟨h.latched hf rfl hpos hclimbed hl rfl, ?_⟩
        intro _ _ hq
        cases hq
  · set b : AdvRoute := { a with looping := true, climbSteps := 0 }
    exact ⟨h.latched hf rfl hpos hclimbed settle_looping
      (settle_memory force rttInfinity penalty b).2, fun _ _ => settle_withdraws⟩
  · have hfree : ∀ bound, ¬ Barred bound (s :: seen) := fun bound =>
      h.not_barred hf rfl hsup htrip
    refine ⟨⟨h.positive_cons hpos, ?_, ?_, fun bound hbound => absurd hbound (hfree bound)⟩,
      fun bound hbound => absurd hbound (hfree bound)⟩
    · intro m hm
      right
      rw [(settle_memory _ _ _ _).1]
      cases m with
      | zero => exact Nat.zero_le _
      | succ m =>
          rcases h.rung rfl hm with hlatched | ⟨hl, hup, hsteps⟩
          · exact absurd hlatched hsup
          · dsimp only
            rw [stepsAfter, if_pos hup, hl]
            exact Nat.succ_le_succ hsteps
    · intro hl
      rw [settle_looping] at hl
      cases hl

/-- What the detector remembers does not depend on the queue. -/
theorem Remembers.congr {seen : List Sighting} (h : a.Remembers seen)
    (hfloor : b.rttFloor = a.rttFloor) (hsteps : b.climbSteps = a.climbSteps)
    (hloop : b.looping = a.looping) : b.Remembers seen where
  positive := h.positive
  steps := by
    rw [hsteps, hloop]
    exact h.steps
  inflated := by
    unfold Climbed
    rw [hloop, hfloor]
    exact h.inflated
  barred := by
    unfold Climbed
    rw [hloop, hfloor]
    exact h.barred

end AdvRoute

/-! ## Runs -/

/-- A finite cost that a check goes on with is more than its penalty. -/
theorem View.input_bounds {p : Slot} {k : Key} {v : View}
    (hfin : (v.input p k).cost < rttInfinity) :
    0 ≤ (v.input p k).penalty ∧ (v.input p k).penalty < (v.input p k).cost := by
  have hbounds := Env.expectedRtt_bounds (e := v.env) (p := p) (k := k)
  have hopen : (v.input p k).gated = false := by
    by_contra hgated
    rw [CheckInput.cost_of_gated (by simpa using hgated)] at hfin
    exact absurd hfin (lt_irrefl _)
  have hown : (v.input p k).ownOnly = false := by
    cases hown : (v.input p k).ownOnly with
    | false => rfl
    | true =>
        rw [CheckInput.gated, hown] at hopen
        cases hopen
  unfold CheckInput.penalty CheckInput.cost
  rw [hopen, hown, if_neg Bool.false_ne_true, if_neg Bool.false_ne_true]
  exact ⟨hbounds.1, hbounds.2.1⟩

namespace Watch

variable {p : Slot} {k : Key} {w : Watch} {act : PeerAct}

/-- A check with a direct neighbour as its source queues no finite cost below the floor of the
entry, which is set. -/
def FloorsDirect (p : Slot) (k : Key) (w : Watch) : PeerAct → Prop
  | .check k' force => ∀ c ∈ w.view.decided p k (.check k' force),
    (w.view.input p k).expected.direct = true → c.1 < rttInfinity →
      fires force c.1 (w.view.entry k) = true ∨ (w.view.entry k).pending = true →
      (w.view.entry k).Floors (c.1 - c.2)
  | _ => True

/-- The floor of the entry is not above anything the peer was told or is about to be told, and the
detector remembers the ladder. -/
structure Guards (k : Key) (w : Watch) : Prop where
  sound : w.view.peer.adv.Sound
  floored : Floored w.low (w.view.entry k)
  remembers : (w.view.entry k).Remembers w.seen

theorem guards_start (e : Env) : (start e).Guards k := ⟨.empty, floored_fresh, remembers_fresh⟩

theorem step_low (hclear : act ≠ .clear) :
    (w.step p k act).low = lowest w.low ((w.view.apply p act).peer.adv.find k) := by
  cases act with
  | clear => exact absurd rfl hclear
  | _ => rfl

/-- One act keeps the guard, and queues nothing finite of a barred ladder. -/
theorem guards_step (h : w.Guards k) (hdirect : w.FloorsDirect p k act) :
    (w.step p k act).Guards k ∧
      ∀ last cost bound a, w.view.shown p k act = some (last, cost) →
        Barred bound (w.step p k act).seen → (w.view.apply p act).peer.adv.find k = some a →
        a.pending = true → a.pendingRtt = rttInfinity := by
  have hsound : (w.step p k act).view.peer.adv.Sound := by
    rw [step_view]
    exact View.sound_apply h.sound act
  by_cases hclear : act = .clear
  · subst hclear
    exact ⟨⟨hsound, floored_fresh, remembers_fresh⟩, fun _ _ _ _ hshown => by cases hshown⟩
  have hwritten : ∀ a : AdvRoute, (w.view.apply p act).peer.adv.find k = some a →
      Floored w.low a → a.Remembers (w.step p k act).seen → (w.step p k act).Guards k := by
    intro a hfind hfloored hremembers
    have hentry : (w.step p k act).view.entry k = a := by
      rw [step_view]
      exact entry_of_find hfind
    refine ⟨hsound, ?_, ?_⟩
    · rw [hentry, step_low hclear, hfind]
      exact hfloored.withLowest
    · rw [hentry]
      exact hremembers
  have hunseen : w.view.shown p k act = none → ∀ last cost bound a,
      w.view.shown p k act = some (last, cost) → Barred bound (w.step p k act).seen →
      (w.view.apply p act).peer.adv.find k = some a → a.pending = true →
      a.pendingRtt = rttInfinity := by
    intro hshown _ _ _ _ hshown'
    rw [hshown] at hshown'
    cases hshown'
  cases w.view.turn (p := p) (k := k) h.sound act with
  | same hshown hfind =>
      refine ⟨?_, hunseen hshown⟩
      cases ha : w.view.peer.adv.find k with
      | none =>
          have hentry : (w.step p k act).view.entry k = w.view.entry k := by
            rw [step_view, View.entry, View.entry, hfind]
          refine ⟨hsound, ?_, ?_⟩
          · rw [hentry, step_low hclear, hfind, ha]
            exact h.floored
          · rw [hentry, step_seen_of_none hshown hclear]
            exact h.remembers
      | some a =>
          have hfloored := h.floored
          have hremembers := h.remembers
          rw [entry_of_find ha] at hfloored hremembers
          rw [← step_seen_of_none hshown hclear] at hremembers
          exact hwritten a (hfind.trans ha) hfloored hremembers
  | dropped a hshown ha hfind =>
      have hfloored := h.floored
      have hremembers := h.remembers
      rw [entry_of_find ha] at hfloored hremembers
      rw [← step_seen_of_none hshown hclear] at hremembers
      refine ⟨hwritten _ hfind ?_ (hremembers.congr rfl rfl rfl), hunseen hshown⟩
      exact hfloored.congr rfl rfl rfl fun hq => by cases hq
  | exempt force hshown hact hdecided hwhy hfind =>
      have hremembers := h.remembers
      rw [← step_seen_of_none hshown hclear] at hremembers
      obtain ⟨hsteps, hfloor⟩ := settle_memory force (w.view.input p k).cost
        (w.view.input p k).penalty (w.view.entry k)
      refine ⟨hwritten _ hfind ?_ (hremembers.congr hfloor hsteps settle_looping), hunseen hshown⟩
      refine h.floored.settle fun hqueues hfin => ?_
      subst hact
      exact hdirect _ hdecided (hwhy.resolve_right (not_le.mpr hfin)) hfin hqueues
  | sent a hshown ha hq hfind =>
      have hfloored := h.floored
      have hremembers := h.remembers
      rw [entry_of_find ha] at hfloored hremembers
      rw [← step_seen_of_none hshown hclear] at hremembers
      exact ⟨hwritten _ hfind (hfloored.commit hq) (hremembers.congr rfl rfl rfl), hunseen hshown⟩
  | cleared hact => exact absurd hact hclear
  | judged force hfin hshown hfind =>
      obtain ⟨hpen, hlt⟩ := View.input_bounds hfin
      obtain ⟨hremembers, hquiet⟩ := @Remembers.judged _ _ force _ _ _ h.remembers h.floored hpen
        hlt hfin
      rw [← step_seen hshown] at hremembers hquiet
      refine ⟨hwritten _ hfind (h.floored.judged hpen hlt hfin) hremembers, ?_⟩
      intro _ _ bound a _ hbarred ha
      obtain rfl := Option.some.inj (hfind.symm.trans ha)
      exact hquiet bound hbarred

/-- In every run in which no check with a direct neighbour as its source queues a finite cost below
the floor of the entry, nothing finite of a ladder is queued from where it has
`FLEXNET_CLIMB_MIN_STEPS` rungs and reaches `FLEXNET_CLIMB_RATIO` times the lowest cost told, until
the cost is back under that bound. -/
theorem ladder_stopped {e : Env} {acts : List PeerAct} {last cost bound : ℤ} {a : AdvRoute}
    (hrun : GuardedRun (step p k) (fun w act => w.view.Legal p act ∧ w.FloorsDirect p k act)
      (start e) acts w)
    (hshown : w.view.shown p k act = some (last, cost))
    (hbarred : Barred bound (w.step p k act).seen)
    (hfind : (w.step p k act).view.peer.adv.find k = some a) (hqueued : a.pending = true) :
    a.pendingRtt = rttInfinity := by
  have hguards : w.Guards k := hrun.invariant (I := Guards k)
    (fun _ _ h hok => (guards_step h hok.2).1) (guards_start e)
  have hdirect : w.FloorsDirect p k act := by
    cases act with
    | check k' force =>
        intro c hc hdirect
        rw [View.shown, Option.mem_def.mp hc] at hshown
        dsimp only at hshown
        rw [if_neg fun h => by rw [hdirect] at h; cases h.1] at hshown
        cases hshown
    | _ => trivial
  rw [step_view] at hfind
  exact (guards_step hguards hdirect).2 last cost bound a hshown hbarred hfind hqueued

/-! ### Two ladders of `K` -/

open Bench

instance : Decidable (w.FloorsDirect p k act) :=
  match act with
  | .check k' force => inferInstanceAs (Decidable (∀ c ∈ w.view.decided p k (.check k' force),
      (w.view.input p k).expected.direct = true → c.1 < rttInfinity →
        fires force c.1 (w.view.entry k) = true ∨ (w.view.entry k).pending = true →
        (w.view.entry k).Floors (c.1 - c.2)))
  | .tables _ _ | .rename _ | .refill | .emit | .close _ | .owe | .clear | .release
  | .send _ _ => instDecidableTrue

/-- After `K` at 10, 20 and 40 was sent to `B`. -/
def atForty : Watch := rungs.foldl (step slotB (dest 0x4B)) (start (View.climb 10))

set_option maxRecDepth 10000 in
theorem barred_atForty :
    Barred 48 (atForty.step slotB (dest 0x4B) (.check (dest 0x4B) false)).seen := by
  have hseen : (atForty.step slotB (dest 0x4B) (.check (dest 0x4B) false)).seen =
      [⟨42, 82, some 12⟩, ⟨22, 42, some 12⟩, ⟨12, 22, some 12⟩, ⟨-1, 12, none⟩] := by
    decide +kernel
  rw [hseen]
  refine .reached (m := 3) ?_ le_rfl rfl rfl (by decide)
  exact ⟨rfl, by decide, rfl, by decide, rfl, by decide, List.cons_ne_nil _ _⟩

set_option maxRecDepth 10000 in
/-- At 80 the withdrawal of `K` is queued. -/
theorem ladder_stopped_atForty :
    ((atForty.step slotB (dest 0x4B) (.check (dest 0x4B) false)).view.peer.adv.find
      (dest 0x4B)).map AdvRoute.pendingRtt = some rttInfinity := by
  have hqueued : ((atForty.step slotB (dest 0x4B) (.check (dest 0x4B) false)).view.peer.adv.find
      (dest 0x4B)).any (fun a => a.pending) = true := by decide +kernel
  obtain ⟨a, hfind, hpending⟩ := (Option.any_eq_true _ _).mp hqueued
  rw [hfind, Option.map_some, Option.some.injEq]
  refine @ladder_stopped slotB (dest 0x4B) atForty (.check (dest 0x4B) false) (View.climb 10) rungs
    42 82 48 a (.of_chain ?_) (by decide +kernel) barred_atForty hfind hpending
  exact ⟨⟨View.legal_climb 10 rfl, trivial⟩, ⟨trivial, by decide +kernel⟩, ⟨rfl, trivial⟩,
    ⟨View.legal_climb 10 rfl, trivial⟩, ⟨trivial, by decide +kernel⟩, ⟨rfl, trivial⟩,
    ⟨View.legal_climb 20 rfl, trivial⟩, ⟨trivial, by decide +kernel⟩, ⟨rfl, trivial⟩,
    ⟨View.legal_climb 40 rfl, trivial⟩, trivial⟩

/-- The tables of the small node while `K` is its neighbour `A`'s own entry, at 10. -/
def neighbourK : Env :=
  { View.climb 10 with
    learned := fun s => if s = slotA then { routes := [⟨dest 0x4B, 10, 1000, true⟩] } else {} }

/-- `K` is sent to `B` as a neighbour's, then at 20, 40 and 80 from elsewhere, and is taught at
160. -/
def neighbourRungs : List PeerAct :=
  [.check (dest 0x4B) false, .emit] ++ [20, 40, 80].flatMap View.climbActs ++
    [.tables (View.climb 160) [dest 0x4B]]

theorem legal_neighbourK {v : View} (hv : v.env = neighbourK) :
    v.Legal slotB (.tables (View.climb 20) [dest 0x4B]) := by
  have hup : ((node false).sessions slotB).active = true ∧
      ((node false).sessions slotB).link.isSome = true := by decide +kernel
  refine ⟨?_, ?_, fun _ => hup.2, fun _ _ => .inr ⟨?_, View.keepsSources_of_keys ?_⟩⟩ <;> rw [hv]
  · rfl
  · exact le_rfl
  · exact hup.1
  · intro s lr hlr
    unfold neighbourK at hlr
    dsimp only at hlr
    split_ifs at hlr
    · obtain rfl := List.mem_singleton.mp hlr
      exact List.mem_singleton_self _
    · cases hlr

/-- `B` comes up when `A` is a neighbour and is told so; then `A` is down and `C` teaches it, at
costs that double. -/
def neighbourEvents : List Event :=
  let rung := fun cost => [.clock 20 0, record 2 0x41 cost]
  [.initSession 0 1, View.initFromA, .initSession 1 1, .processCE 1 [0x30, 0x30, 0x25, 0x21, 0x0D],
    .initSession 2 1, record 2 0x41 10, .closeSession 0] ++ [20, 40, 80, 160, 320].flatMap rung

/-- The small node, with `C` in row 2, before its sessions. -/
def threeRows : Node :=
  Node.boot (config false) [] [] (fun l => if l = 2 then row (addr 0x43) else links l) 1000

set_option maxRecDepth 10000 in
/-- `K` at 160 is queued; and the node tells `B` of `A` at 3, 12, 22, 42, 82, 162 and 322. -/
theorem ladder_not_stopped :
    (¬ ∀ (p : Slot) (k : Key) (e : Env) (acts : List PeerAct) (w : Watch) (act : PeerAct)
      (last cost bound : ℤ) (a : AdvRoute),
      GuardedRun (step p k) (fun w act => w.view.Legal p act) (start e) acts w →
      w.view.shown p k act = some (last, cost) → Barred bound (w.step p k act).seen →
      (w.step p k act).view.peer.adv.find k = some a → a.pending = true →
      a.pendingRtt = rttInfinity) ∧
    (((threeRows.after neighbourEvents).peers slotB).adv.find (dest 0x41)).any
      (fun a => a.lastRtt == 322 && !a.looping) = true := by
  refine ⟨fun hall => ?_, by decide +kernel⟩
  let w : Watch := neighbourRungs.foldl (step slotB (dest 0x4B)) (start neighbourK)
  have hrun : GuardedRun (step slotB (dest 0x4B)) (fun w act => w.view.Legal slotB act)
      (start neighbourK) neighbourRungs w := .of_chain
    ⟨trivial, rfl, legal_neighbourK rfl, trivial, rfl, View.legal_climb 20 rfl, trivial, rfl,
      View.legal_climb 40 rfl, trivial, rfl, View.legal_climb 80 rfl, trivial⟩
  have hbarred : Barred 48 (w.step slotB (dest 0x4B) (.check (dest 0x4B) false)).seen := by
    have hseen : (w.step slotB (dest 0x4B) (.check (dest 0x4B) false)).seen =
        [⟨82, 162, some 12⟩, ⟨42, 82, some 12⟩, ⟨22, 42, some 12⟩, ⟨12, 22, some 12⟩] := by
      decide +kernel
    rw [hseen]
    refine .reached (m := 3) ?_ le_rfl rfl rfl (by decide)
    exact ⟨rfl, by decide, rfl, by decide, rfl, by decide, List.cons_ne_nil _ _⟩
  have hqueued : ((w.step slotB (dest 0x4B) (.check (dest 0x4B) false)).view.peer.adv.find
      (dest 0x4B)).any (fun a => a.pending && decide (a.pendingRtt ≠ rttInfinity)) = true := by
    decide +kernel
  obtain ⟨a, hfind, ha⟩ := (Option.any_eq_true _ _).mp hqueued
  rw [Bool.and_eq_true, decide_eq_true_eq] at ha
  exact ha.2 (hall slotB (dest 0x4B) _ _ w (.check (dest 0x4B) false) 82 162 48 a hrun
    (by decide +kernel) hbarred hfind ha.1)

end Watch

end FlexNet
