import FlexNet.Advert.HoldDown
import FlexNet.Advert.Loops

/-!
# What the climb guard sees

`flex_climb_is_loop` is shown a finite cost at every check of a destination that goes on with one
from elsewhere than a direct neighbour.  It counts the checks that see more than the peer was last
told, not the rises of the cost: one rise that is checked three times before it is sent is taken
for a loop (`one_rise_declared`).  Where every check that counts sees more than the check before
it, a loop is declared only after `FLEXNET_CLIMB_MIN_STEPS` rises (`declared_after_rises`).
-/

namespace FlexNet

open Runs AdvRoute

/-! ## The detector in full -/

/-- The cost is above the last one told. -/
def Climbs (last cost : ℤ) : Prop := 0 ≤ last ∧ last < cost

instance (last cost : ℤ) : Decidable (Climbs last cost) := inferInstanceAs (Decidable (_ ∧ _))

/-- The consecutive climbs after a sighting; a latch that is lifted starts again. -/
def AdvRoute.stepsAfter (a : AdvRoute) (last cost : ℤ) : ℕ :=
  if Climbs last cost then (if a.looping then 0 else a.climbSteps) + 1 else 0

/-- The floor after a sighting. -/
def AdvRoute.floorAfter (a : AdvRoute) (last cost : ℤ) : ℤ :=
  if Climbs last cost then a.rttFloor
  else if a.rttFloor < 0 ∨ cost < a.rttFloor then cost else a.rttFloor

/-- What the detector makes of a finite cost: a latched entry stays silent while the cost is
inflated, the last climb latches it, and otherwise its memory follows the cost. -/
theorem flexClimbIsLoop_memory {a : AdvRoute} {last cost : ℤ} (hfin : cost < rttInfinity) :
    (a.looping = true ∧ a.Climbed cost ∧ flexClimbIsLoop a last cost = (.suppress, a)) ∨
    (a.looping = false ∧ Climbs last cost ∧ climbMinSteps ≤ a.climbSteps + 1 ∧ a.Climbed cost ∧
      flexClimbIsLoop a last cost = (.withdraw, { a with looping := true, climbSteps := 0 })) ∨
    (¬ (a.looping = true ∧ a.Climbed cost) ∧
      ¬ (a.looping = false ∧ Climbs last cost ∧ climbMinSteps ≤ a.climbSteps + 1 ∧ a.Climbed cost) ∧
      flexClimbIsLoop a last cost = (.ok, { a with
        looping := false
        climbSteps := a.stepsAfter last cost
        rttFloor := a.floorAfter last cost })) := by
  by_cases hsup : a.looping = true ∧ a.Climbed cost
  · refine .inl ⟨hsup.1, hsup.2, ?_⟩
    unfold flexClimbIsLoop
    rw [if_neg (not_le.mpr hfin), if_pos ⟨hsup.1, hsup.2⟩]
  right
  have hsup' : ¬ (a.looping = true ∧ 0 < a.rttFloor ∧ climbRatio ≤ cost.tdiv a.rttFloor) := hsup
  have hlift : (if a.looping = true then { a with looping := false, climbSteps := 0 } else a) =
      { a with looping := false, climbSteps := if a.looping then 0 else a.climbSteps } := by
    cases hl : a.looping with
    | true => rfl
    | false =>
        obtain ⟨⟩ := a
        cases hl
        rfl
  unfold flexClimbIsLoop stepsAfter floorAfter
  rw [if_neg (not_le.mpr hfin), if_neg hsup', hlift]
  dsimp only
  by_cases hclimbs : Climbs last cost
  swap
  · -- a fall, or a first sighting
    have hclimbs' : ¬ (0 ≤ last ∧ last < cost) := hclimbs
    refine .inr ⟨hsup, fun h => hclimbs h.2.1, ?_⟩
    rw [if_neg hclimbs, if_neg hclimbs, if_neg hclimbs', if_neg]
    rintro ⟨-, hsteps, -⟩
    have hzero : climbMinSteps ≤ 0 := hsteps
    exact absurd hzero (by decide)
  have hclimbs' : 0 ≤ last ∧ last < cost := hclimbs
  rw [if_pos hclimbs, if_pos hclimbs, if_pos hclimbs']
  by_cases htrip : a.looping = false ∧ climbMinSteps ≤ a.climbSteps + 1 ∧ a.Climbed cost
  · obtain ⟨hl, hsteps, hclimbed⟩ := htrip
    refine .inl ⟨hl, hclimbs, hsteps, hclimbed, ?_⟩
    rw [hl, if_neg Bool.false_ne_true, if_pos ⟨hclimbed.1, hsteps, hclimbed.2⟩]
  · refine .inr ⟨hsup, fun h => htrip ⟨h.1, h.2.2⟩, ?_⟩
    rw [if_neg]
    rintro ⟨hfloor, hsteps, hratio⟩
    dsimp only at hfloor hsteps hratio
    cases hl : a.looping with
    | true =>
        -- one step never latches an entry again
        rw [hl, if_pos rfl] at hsteps
        exact absurd hsteps (by decide)
    | false =>
        rw [hl, if_neg Bool.false_ne_true] at hsteps
        exact htrip ⟨hl, hsteps, hfloor, hratio⟩

/-! ## What a check shows it -/

namespace View

variable {p : Slot} {v : View} {k : Key} {act : PeerAct}

/-- The peer's entry of `k`, or the one a check makes. -/
def entry (v : View) (k : Key) : AdvRoute := (v.peer.adv.find k).getD (.fresh k)

/-- The cost a check of `k` goes on with, and its penalty, once it is past the early exits and has
an entry. -/
def decided (p : Slot) (k : Key) (v : View) : PeerAct → Option (ℤ × ℤ)
  | .check k' _ =>
    if k' = k ∧ v.env.checkGate p k v.peer = true ∧
        ((v.peer.adv.find k).isSome = true ∨ v.peer.adv.advs.length < maxAdvertised) then
      match (v.input p k).screen (v.peer.adv.find k) with
      | .go cost penalty => some (cost, penalty)
      | _ => none
    else none
  | _ => none

/-- The costs a check of `k` shows the detector, both without the penalty: the last one told, and
the one the check goes on with. -/
def shown (p : Slot) (k : Key) (v : View) (act : PeerAct) : Option (ℤ × ℤ) :=
  match v.decided p k act with
  | none => none
  | some (cost, penalty) =>
    if (v.input p k).expected.direct = false ∧ cost < rttInfinity then
      some (climbLast (v.entry k), cost - penalty)
    else none

theorem shown_of_not_decided (h : v.decided p k act = none) : v.shown p k act = none := by
  rw [shown, h]

/-- What an act makes of the entry of `k`. -/
inductive Turn (p : Slot) (k : Key) (v : View) (act : PeerAct) : Prop
  | same (hshown : v.shown p k act = none)
      (hfind : (v.apply p act).peer.adv.find k = v.peer.adv.find k)
  | dropped (a : AdvRoute) (hshown : v.shown p k act = none) (ha : v.peer.adv.find k = some a)
      (hfind : (v.apply p act).peer.adv.find k = some { a with pending := false })
  | exempt (force : Bool) (hshown : v.shown p k act = none) (hact : act = .check k force)
      (hdecided : v.decided p k act = some ((v.input p k).cost, (v.input p k).penalty))
      (hwhy : (v.input p k).expected.direct = true ∨ rttInfinity ≤ (v.input p k).cost)
      (hfind : (v.apply p act).peer.adv.find k =
        some (settle force (v.input p k).cost (v.input p k).penalty (v.entry k)))
  | judged (force : Bool) (hfin : (v.input p k).cost < rttInfinity)
      (hshown : v.shown p k act =
        some (climbLast (v.entry k), (v.input p k).cost - (v.input p k).penalty))
      (hfind : (v.apply p act).peer.adv.find k =
        some (decideEntry force false (v.input p k).cost (v.input p k).penalty (v.entry k)))
  | sent (a : AdvRoute) (hshown : v.shown p k act = none) (ha : v.peer.adv.find k = some a)
      (hq : a.pending = true)
      (hfind : (v.apply p act).peer.adv.find k = some (a.commit v.env.now))
  | cleared (hact : act = .clear)

/-- The check of another destination. -/
theorem turn_other {k' : Key} (force : Bool) (hk : k' ≠ k) : v.Turn p k (.check k' force) := by
  refine .same (shown_of_not_decided (if_neg fun h => hk h.1)) ?_
  rcases v.env.flexAdvertiseCheck_cases p k' force v.peer with h | ⟨b, h, hb, -⟩ <;>
    rw [apply, h]
  exact AdvertisedState.find_put_of_ne fun hkb => hk (hkb.trans hb).symm

/-- A check that comes to the decision on an entry, or on a fresh one. -/
theorem turn_decided {force : Bool} (hgate : v.env.checkGate p k v.peer = true)
    (hroom : (v.peer.adv.find k).isSome = true ∨ v.peer.adv.advs.length < maxAdvertised)
    (hscreen : (v.input p k).screen (v.peer.adv.find k) =
      .go (v.input p k).cost (v.input p k).penalty) : v.Turn p k (.check k force) := by
  have hentry : (v.apply p (.check k force)).peer.adv.find k =
      some (decideEntry force (v.input p k).expected.direct (v.input p k).cost
        (v.input p k).penalty (v.entry k)) := by
    rw [apply, Env.find_check_self hgate, checkEntry, hscreen]
    unfold entry
    cases ha : v.peer.adv.find k with
    | none =>
        rw [ha, Option.isSome_none] at hroom
        dsimp only
        rw [if_pos (by simpa using hroom)]
        rfl
    | some a => rfl
  have hdecided : v.decided p k (.check k force) =
      some ((v.input p k).cost, (v.input p k).penalty) := by
    unfold decided
    dsimp only
    rw [if_pos ⟨rfl, hgate, hroom⟩, hscreen]
  have hshow : v.shown p k (.check k force) =
      if (v.input p k).expected.direct = false ∧ (v.input p k).cost < rttInfinity then
        some (climbLast (v.entry k), (v.input p k).cost - (v.input p k).penalty)
      else none := by
    rw [shown, hdecided]
  by_cases hjudged : (v.input p k).expected.direct = false ∧ (v.input p k).cost < rttInfinity
  · rw [if_pos hjudged] at hshow
    rw [hjudged.1] at hentry
    exact .judged force hjudged.2 hshow hentry
  · rw [if_neg hjudged] at hshow
    have hwhy : (v.input p k).expected.direct = true ∨ rttInfinity ≤ (v.input p k).cost := by
      by_contra hno
      rw [not_or, Bool.not_eq_true, not_le] at hno
      exact hjudged hno
    refine .exempt force hshow rfl hdecided hwhy (hentry.trans ?_)
    rcases decideEntry_cases force (v.input p k).expected.direct (v.input p k).cost
      (v.input p k).penalty (v.entry k) Env.checkInput_penalty with
      ⟨-, h⟩ | ⟨hd, hc, -⟩ | ⟨hd, hc, -⟩ | ⟨hd, hc, -⟩
    · rw [h]
    all_goals exact absurd ⟨hd, hc⟩ hjudged

theorem turn_check (force : Bool) : v.Turn p k (.check k force) := by
  cases hgate : v.env.checkGate p k v.peer with
  | false =>
      refine .same (shown_of_not_decided (if_neg fun h => ?_)) ?_
      · rw [hgate] at h
        exact absurd h.2.1 Bool.false_ne_true
      · rw [apply, Env.flexAdvertiseCheck, hgate]
        rfl
  | true =>
      have hfind : (v.apply p (.check k force)).peer.adv.find k = checkEntry (v.input p k)
          force (decide (v.peer.adv.advs.length < maxAdvertised)) k (v.peer.adv.find k) :=
        Env.find_check_self hgate
      have hscreened : (∀ cost penalty, (v.input p k).screen (v.peer.adv.find k) ≠
          .go cost penalty) → v.shown p k (.check k force) = none := by
        intro hstop
        refine shown_of_not_decided ?_
        unfold decided
        dsimp only
        cases hscreen : (v.input p k).screen (v.peer.adv.find k) with
        | leave | unqueue => rw [ite_self]
        | go cost penalty => exact absurd hscreen (hstop cost penalty)
      unfold checkEntry at hfind
      cases hscreen : (v.input p k).screen (v.peer.adv.find k) with
      | leave =>
          rw [hscreen] at hfind
          exact .same (hscreened fun _ _ h => by rw [hscreen] at h; cases h) hfind
      | unqueue =>
          have hshown := hscreened fun _ _ h => by rw [hscreen] at h; cases h
          rw [hscreen] at hfind
          cases ha : v.peer.adv.find k with
          | none => exact .same hshown (hfind.trans (by rw [ha]; rfl))
          | some a => exact .dropped a hshown ha (hfind.trans (by rw [ha]; rfl))
      | go cost penalty =>
          obtain ⟨rfl, rfl, -⟩ := CheckInput.screen_go hscreen
          by_cases hroom : (v.peer.adv.find k).isSome = true ∨
              v.peer.adv.advs.length < maxAdvertised
          · exact turn_decided hgate hroom hscreen
          · have hnone : v.peer.adv.find k = none := by
              cases h : v.peer.adv.find k with
              | none => rfl
              | some a => exact absurd (.inl (by rw [h]; rfl)) hroom
            refine .same (shown_of_not_decided (if_neg fun h => hroom h.2.2)) ?_
            rw [hfind, hscreen, hnone]
            dsimp only
            rw [if_neg (by simpa using fun h => hroom (.inr h))]

theorem turn_emit (hs : v.peer.adv.Sound) : v.Turn p k .emit := by
  rcases v.env.emitFrame_cases p (v.isPcf p) hs with
    ⟨-, heq⟩ | ⟨picks, st, -, -, hpacked, heq⟩
  · exact .same rfl (by rw [apply, heq])
  · have hfind : (v.apply p .emit).peer.adv.find k =
        (v.peer.adv.find k).map fun a => if a ∈ picks then a.commit v.env.now else a := by
      rw [apply, heq]
      exact hpacked.find k
    cases ha : v.peer.adv.find k with
    | none => exact .same rfl (hfind.trans (by rw [ha]; rfl))
    | some a =>
        rw [ha, Option.map_some] at hfind
        by_cases hpick : a ∈ picks
        · rw [if_pos hpick] at hfind
          exact .sent a rfl ha (hpacked.picked a hpick).2 hfind
        · rw [if_neg hpick] at hfind
          exact .same rfl (hfind.trans ha.symm)

/-- Every act is one of these. -/
theorem turn (hs : v.peer.adv.Sound) (act : PeerAct) : v.Turn p k act := by
  cases act with
  | check k' force =>
      by_cases hk : k' = k
      · exact hk ▸ turn_check force
      · exact turn_other force hk
  | emit => exact turn_emit hs
  | clear => exact .cleared rfl
  | refill => exact .same rfl (by rw [apply, AdvertisedState.find_refill])
  | close frames =>
      refine .same rfl ?_
      rw [apply, AdvertisedState.find, drainEob_advs]
      rfl
  | tables | rename | owe | release | send => exact .same rfl rfl

end View

/-! ## What the detector makes of the entry -/

/-- The verdict and the memory of the detector, on the entry of a check that showed it a cost. -/
theorem decideEntry_memory {force : Bool} {cost penalty : ℤ} {a : AdvRoute} (hpen : 0 ≤ penalty)
    (hfin : cost < rttInfinity) :
    (a.looping = true ∧ a.Climbed (cost - penalty) ∧
      decideEntry force false cost penalty a =
        if force then settle force rttInfinity penalty a else { a with pending := false }) ∨
    (a.looping = false ∧ Climbs (climbLast a) (cost - penalty) ∧
      climbMinSteps ≤ a.climbSteps + 1 ∧ a.Climbed (cost - penalty) ∧
      decideEntry force false cost penalty a =
        settle force rttInfinity penalty { a with looping := true, climbSteps := 0 }) ∨
    (¬ (a.looping = true ∧ a.Climbed (cost - penalty)) ∧
      ¬ (a.looping = false ∧ Climbs (climbLast a) (cost - penalty) ∧
        climbMinSteps ≤ a.climbSteps + 1 ∧ a.Climbed (cost - penalty)) ∧
      decideEntry force false cost penalty a = settle force cost penalty { a with
        looping := false
        climbSteps := a.stepsAfter (climbLast a) (cost - penalty)
        rttFloor := a.floorAfter (climbLast a) (cost - penalty) }) := by
  have hraw : cost - penalty < rttInfinity := by omega
  unfold decideEntry contain
  rw [if_neg Bool.false_ne_true, if_neg (not_le.mpr hfin)]
  rcases @flexClimbIsLoop_memory a (climbLast a) _ hraw with
    ⟨hl, hc, h⟩ | ⟨hl, hup, hsteps, hc, h⟩ |
    ⟨hsup, htrip, h⟩
  · refine .inl ⟨hl, hc, ?_⟩
    rw [h]
    cases force <;> rfl
  · exact .inr (.inl ⟨hl, hup, hsteps, hc, by rw [h]⟩)
  · exact .inr (.inr ⟨hsup, htrip, by rw [h]⟩)

/-- The threshold leaves the memory of the detector alone. -/
theorem settle_memory (force : Bool) (cost penalty : ℤ) (a : AdvRoute) :
    (settle force cost penalty a).climbSteps = a.climbSteps ∧
      (settle force cost penalty a).rttFloor = a.rttFloor := by
  rcases settle_cases force cost penalty a with ⟨-, h⟩ | ⟨-, -, h⟩ <;> rw [h] <;> exact ⟨rfl, rfl⟩

/-! ## Watching a run -/

/-- A sighting of the detector: the last cost told, the cost it was shown, and the lowest finite
cost told up to then, all without the penalty. -/
structure Sighting where
  last : ℤ
  cost : ℤ
  low : Option ℤ
deriving DecidableEq

/-- A machine, what the detector has been shown of `k` since its entry was made, newest first, and
the lowest finite cost told. -/
structure Watch where
  view : View
  seen : List Sighting := []
  low : Option ℤ := none

/-- The finite cost an entry was told, without the penalty. -/
def AdvRoute.toldCost (a : AdvRoute) : Option ℤ :=
  if a.toldFinite then some (a.lastRtt - a.lastPen) else none

namespace Watch

variable {p : Slot} {k : Key} {w : Watch} {act : PeerAct}

/-- The lowest cost told, with the one an entry was told last. -/
def lowest (low : Option ℤ) (entry : Option AdvRoute) : Option ℤ :=
  match entry.bind AdvRoute.toldCost with
  | none => low
  | some c => some (low.elim c (min c))

/-- The machine takes a step; a table that is cleared starts over. -/
def step (p : Slot) (k : Key) (w : Watch) (act : PeerAct) : Watch :=
  let v := w.view.apply p act
  match act with
  | .clear => { view := v }
  | _ =>
    { view := v
      seen := (w.view.shown p k act).elim w.seen fun c => ⟨c.1, c.2, w.low⟩ :: w.seen
      low := lowest w.low (v.peer.adv.find k) }

/-- Nothing has been told yet. -/
def start (e : Env) : Watch := { view := View.start e }

theorem step_view : (w.step p k act).view = w.view.apply p act := by
  cases act <;> rfl

/-- A check that shows the detector a cost is noted. -/
theorem step_seen {last cost : ℤ} (hshown : w.view.shown p k act = some (last, cost)) :
    (w.step p k act).seen = ⟨last, cost, w.low⟩ :: w.seen := by
  cases act with
  | check k' force =>
      unfold step
      dsimp only
      rw [hshown]
      rfl
  | _ => exact absurd hshown (by simp [View.shown, View.decided])

theorem step_seen_of_none (hshown : w.view.shown p k act = none) (hclear : act ≠ .clear) :
    (w.step p k act).seen = w.seen := by
  cases act with
  | clear => exact absurd rfl hclear
  | _ =>
      unfold step
      dsimp only
      rw [hshown]
      rfl

end Watch

/-! ## Rises -/

/-- The cost is above the one of the sighting before. -/
def Rises (cost : ℤ) (seen : List Sighting) : Prop := ∀ t ∈ seen.head?, t.cost < cost

instance (cost : ℤ) (seen : List Sighting) : Decidable (Rises cost seen) :=
  inferInstanceAs (Decidable (∀ t ∈ seen.head?, _))

/-- How often the cost has risen since the last sighting that was not above the last cost told. -/
def rises : List Sighting → ℕ
  | [] => 0
  | s :: seen =>
    if Climbs s.last s.cost then rises seen + if Rises s.cost seen then 1 else 0 else 0

namespace Watch

variable {p : Slot} {k : Key} {w : Watch} {act : PeerAct}

/-- The check declares `k` looping. -/
def Declares (p : Slot) (k : Key) (w : Watch) (act : PeerAct) : Prop :=
  ∃ last cost, w.view.shown p k act = some (last, cost) ∧
    (flexClimbIsLoop (w.view.entry k) last cost).1 = .withdraw

/-- A check that sees more than the peer was last told sees more than the check before it. -/
def Rising (p : Slot) (k : Key) (w : Watch) (act : PeerAct) : Prop :=
  ∀ last cost, w.view.shown p k act = some (last, cost) → Climbs last cost → Rises cost w.seen

/-- The detector's count is one of rises; a latched entry counts from zero. -/
structure Counted (k : Key) (w : Watch) : Prop where
  sound : w.view.peer.adv.Sound
  steps : (w.view.entry k).climbSteps ≤ rises w.seen
  latched : (w.view.entry k).looping = true → (w.view.entry k).climbSteps = 0

theorem entry_of_find {v : View} {a : AdvRoute} (h : v.peer.adv.find k = some a) :
    v.entry k = a := by
  rw [View.entry, h]
  rfl

theorem counted_start (e : Env) : (start e).Counted k := ⟨.empty, le_rfl, fun _ => rfl⟩

theorem counted_step (h : w.Counted k) (hrising : w.Rising p k act) :
    (w.step p k act).Counted k := by
  have hsound : (w.step p k act).view.peer.adv.Sound := by
    rw [step_view]
    exact View.sound_apply h.sound act
  by_cases hclear : act = .clear
  · subst hclear
    exact ⟨hsound, le_rfl, fun _ => rfl⟩
  have hentry : ∀ {a : AdvRoute}, (w.view.apply p act).peer.adv.find k = some a →
      (w.step p k act).view.entry k = a := fun hfind => by
    rw [step_view]
    exact entry_of_find hfind
  have hkeep : ∀ a : AdvRoute, w.view.shown p k act = none → (w.step p k act).view.entry k = a →
      a.climbSteps = (w.view.entry k).climbSteps → a.looping = (w.view.entry k).looping →
      (w.step p k act).Counted k := by
    rintro _ hshown rfl hsteps hloop
    refine ⟨hsound, ?_, ?_⟩
    · rw [hsteps, step_seen_of_none hshown hclear]
      exact h.steps
    · rw [hsteps, hloop]
      exact h.latched
  cases w.view.turn (p := p) (k := k) h.sound act with
  | same hshown hfind =>
      refine hkeep _ hshown ?_ rfl rfl
      rw [step_view, View.entry, hfind]
      rfl
  | dropped a hshown ha hfind =>
      exact hkeep _ hshown (hentry hfind) (by rw [entry_of_find ha]) (by rw [entry_of_find ha])
  | exempt force hshown hact hdecided hwhy hfind =>
      exact hkeep _ hshown (hentry hfind) (settle_memory _ _ _ _).1 settle_looping
  | sent a hshown ha hq hfind =>
      exact hkeep _ hshown (hentry hfind) (by rw [entry_of_find ha]; rfl)
        (by rw [entry_of_find ha]; rfl)
  | cleared hact => exact absurd hact hclear
  | judged force hfin hshown hfind =>
      set a := w.view.entry k with ha
      set cost := (w.view.input p k).cost
      set penalty := (w.view.input p k).penalty
      have hseen := step_seen hshown
      have hpen : 0 ≤ penalty := Env.checkInput_penalty
      -- a climb is one more rise, anything else starts the count again
      have hmore : Climbs (climbLast a) (cost - penalty) →
          rises (w.step p k act).seen = rises w.seen + 1 := fun hup => by
        rw [hseen, rises, if_pos hup, if_pos (hrising _ _ hshown hup)]
      rcases @decideEntry_memory force cost penalty a hpen hfin with ⟨hl, -, hdecide⟩ |
        ⟨-, -, -, -, hdecide⟩ | ⟨-, -, hdecide⟩
      · have hsame : ((w.step p k act).view.entry k).climbSteps = a.climbSteps ∧
            ((w.step p k act).view.entry k).looping = a.looping := by
          rw [hentry hfind, hdecide]
          cases force
          · exact ⟨rfl, rfl⟩
          · exact ⟨(settle_memory _ _ _ _).1, settle_looping⟩
        have hzero := h.latched hl
        refine ⟨hsound, ?_, fun _ => hsame.1.trans hzero⟩
        rw [hsame.1, hzero]
        exact Nat.zero_le _
      · have hsteps : ((w.step p k act).view.entry k).climbSteps = 0 := by
          rw [hentry hfind, hdecide]
          exact (settle_memory _ _ _ _).1
        refine ⟨hsound, ?_, fun _ => hsteps⟩
        rw [hsteps]
        exact Nat.zero_le _
      · have hafter : ((w.step p k act).view.entry k).climbSteps =
              a.stepsAfter (climbLast a) (cost - penalty) ∧
            ((w.step p k act).view.entry k).looping = false := by
          rw [hentry hfind, hdecide]
          exact ⟨(settle_memory _ _ _ _).1, settle_looping⟩
        refine ⟨hsound, ?_, fun hl => ?_⟩
        · rw [hafter.1]
          unfold AdvRoute.stepsAfter
          split_ifs with hup hl
          · rw [hmore hup]
            omega
          · rw [hmore hup]
            exact Nat.succ_le_succ h.steps
          · exact Nat.zero_le _
        · rw [hafter.2] at hl
          cases hl

/-- A loop is declared only after `FLEXNET_CLIMB_MIN_STEPS` rises of the cost since the last check
that saw one not above the last cost told, in every run whose checks see a cost above the last one
told only where it has risen since the check before. -/
theorem declared_after_rises {e : Env} {acts : List PeerAct}
    (hrun : GuardedRun (step p k) (fun w act => w.view.Legal p act ∧ w.Rising p k act) (start e)
      acts w) (hrising : w.Rising p k act) (hdeclares : w.Declares p k act) :
    climbMinSteps ≤ rises (w.step p k act).seen := by
  have hcounted : w.Counted k := hrun.invariant (I := Counted k)
    (fun _ _ h hok => counted_step h hok.2) (counted_start e)
  obtain ⟨last, cost, hshown, hverdict⟩ := hdeclares
  rcases lt_or_ge cost rttInfinity with hfin | hinf
  · rcases @flexClimbIsLoop_memory (w.view.entry k) last cost hfin with ⟨-, -, h⟩ |
      ⟨-, hup, hsteps, -, -⟩ | ⟨-, -, h⟩
    · rw [h] at hverdict
      cases hverdict
    · rw [step_seen hshown, rises, if_pos hup, if_pos (hrising last cost hshown hup)]
      have hcount := hcounted.steps
      omega
    · rw [h] at hverdict
      cases hverdict
  · rw [flexClimbIsLoop, if_pos hinf] at hverdict
    cases hverdict

/-! ### Two ladders of `K` -/

open Bench

instance : Decidable (w.Rising p k act) :=
  match h : w.view.shown p k act with
  | none => .isTrue fun _ _ hshown => by rw [h] at hshown; cases hshown
  | some (last, cost) => decidable_of_iff (Climbs last cost → Rises cost w.seen) <| by
      constructor
      · intro hrises last' cost' hshown
        rw [h, Option.some.injEq, Prod.mk.injEq] at hshown
        obtain ⟨rfl, rfl⟩ := hshown
        exact hrises
      · exact fun hrising => hrising last cost h

instance : Decidable (w.Declares p k act) :=
  match h : w.view.shown p k act with
  | none => .isFalse fun ⟨_, _, hshown, _⟩ => by rw [h] at hshown; cases hshown
  | some (last, cost) => decidable_of_iff
      ((flexClimbIsLoop (w.view.entry k) last cost).1 = .withdraw) <| by
      constructor
      · exact fun hverdict => ⟨last, cost, h, hverdict⟩
      · rintro ⟨last', cost', hshown, hverdict⟩
        rw [h, Option.some.injEq, Prod.mk.injEq] at hshown
        obtain ⟨rfl, rfl⟩ := hshown
        exact hverdict

/-- `K` at 10, 20 and 40 is sent to `B`, and then it is taught at 80. -/
def rungs : List PeerAct :=
  [10, 20, 40].flatMap View.climbActs ++ [.tables (View.climb 80) [dest 0x4B]]

set_option maxRecDepth 10000 in
/-- The check at 80 declares `K` looping, after three rises. -/
theorem declared_after_rises_rungs :
    climbMinSteps ≤ rises ((rungs.foldl (step slotB (dest 0x4B)) (start (View.climb 10))).step slotB
      (dest 0x4B) (.check (dest 0x4B) false)).seen := by
  refine @declared_after_rises slotB (dest 0x4B) _ _ (View.climb 10) rungs (.of_chain ?_)
    (by decide +kernel) (by decide +kernel)
  exact ⟨⟨View.legal_climb 10 rfl, by decide +kernel⟩, ⟨trivial, by decide +kernel⟩,
    ⟨rfl, by decide +kernel⟩, ⟨View.legal_climb 10 rfl, by decide +kernel⟩,
    ⟨trivial, by decide +kernel⟩, ⟨rfl, by decide +kernel⟩,
    ⟨View.legal_climb 20 rfl, by decide +kernel⟩, ⟨trivial, by decide +kernel⟩,
    ⟨rfl, by decide +kernel⟩, ⟨View.legal_climb 40 rfl, by decide +kernel⟩, trivial⟩

/-- `K` at 5 is sent to `B`; it rises to 40, and is checked twice. -/
def oneRise : List PeerAct :=
  [.check (dest 0x4B) false, .emit, .tables (View.climb 40) [dest 0x4B],
    .check (dest 0x4B) false, .check (dest 0x4B) false]

/-- `A` teaches `K` at 5 and `L`, which spends `B`'s tokens, and `K` at 40; `C` teaches `K` at 100
and then at 101. -/
def oneRiseEvents : List Event :=
  [record 0 0x4B 5, record 0 0x4C 5, record 0 0x4B 40, record 2 0x4B 100, record 2 0x4B 101]

set_option maxRecDepth 10000 in
/-- The next check declares `K` looping, after one rise; and it happens to the node. -/
theorem one_rise_declared :
    (¬ ∀ (p : Slot) (k : Key) (e : Env) (acts : List PeerAct) (w : Watch) (act : PeerAct),
      GuardedRun (step p k) (fun w act => w.view.Legal p act) (start e) acts w →
      w.Declares p k act → climbMinSteps ≤ rises (w.step p k act).seen) ∧
    (((View.threeNode.after oneRiseEvents).peers slotB).adv.find (dest 0x4B)).any
      (fun a => a.looping) = true := by
  refine ⟨fun hall => ?_, by decide +kernel⟩
  have hrun : GuardedRun (step slotB (dest 0x4B)) (fun w act => w.view.Legal slotB act)
      (start (View.climb 5)) oneRise _ := .of_chain
    ⟨trivial, rfl, View.legal_climb 5 rfl, trivial, trivial, trivial⟩
  have hrises := hall slotB (dest 0x4B) _ _ _ (.check (dest 0x4B) false) hrun (by decide +kernel)
  revert hrises
  decide +kernel

end Watch

end FlexNet
