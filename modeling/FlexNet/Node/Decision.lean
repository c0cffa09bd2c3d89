import FlexNet.Node.Expected

/-!
# The decision rule

`flex_advertise_check`: recompute what a peer would be told about one destination, and queue a
record when that moved far enough from what it was last told.  The function reads the tables
in `Env` and rewrites at most one entry of the peer's advertised table.  Its early exits come
first (`CheckInput.screen`), then the count-to-infinity detector (`flexClimbIsLoop`), then the
threshold (`settle`); `checkEntry` is their composition on one entry.
-/

namespace FlexNet

/-! ## The count-to-infinity detector -/

/-- `FLEX_CLIMB_OK`, `FLEX_CLIMB_WITHDRAW`, `FLEX_CLIMB_SUPPRESS`. -/
inductive ClimbVerdict
  | ok | withdraw | suppress
deriving DecidableEq

/-- `FLEXNET_CLIMB_RATIO`. -/
def climbRatio : ℤ := 4

/-- `FLEXNET_CLIMB_MIN_STEPS`. -/
def climbMinSteps : ℕ := 3

/-- `flex_climb_is_loop` on the detector fields of an entry. -/
def flexClimbIsLoop (a : AdvRoute) (last expected : ℤ) : ClimbVerdict × AdvRoute :=
  if rttInfinity ≤ expected then (.ok, a)
  else if a.looping ∧ 0 < a.rttFloor ∧ climbRatio ≤ expected.tdiv a.rttFloor then (.suppress, a)
  else
    -- a latched entry that gets here is credible again
    let a := if a.looping then { a with looping := false, climbSteps := 0 } else a
    let a :=
      if 0 ≤ last ∧ last < expected then { a with climbSteps := a.climbSteps + 1 }
      else { a with
        climbSteps := 0
        rttFloor := if a.rttFloor < 0 ∨ expected < a.rttFloor then expected else a.rttFloor }
    if 0 < a.rttFloor ∧ climbMinSteps ≤ a.climbSteps ∧
        climbRatio ≤ expected.tdiv a.rttFloor then
      (.withdraw, { a with looping := true, climbSteps := 0 })
    else (.ok, a)

/-! ## What the rule reads -/

namespace AdvRoute

/-- The peer was last told a finite cost: `told_before` of the source. -/
def toldFinite (a : AdvRoute) : Bool :=
  decide (0 ≤ a.lastRtt ∧ a.lastRtt < rttInfinity)

/-- The entry a new destination gets. -/
def fresh (k : Key) : AdvRoute := { key := k }

end AdvRoute

/-- The values `flex_advertise_check` computes before it looks at the peer's entry. -/
structure CheckInput where
  expected : Env.Expected
  ownOnly : Bool
  splitHorizon : Bool
  directOnly : Bool
  now : ℤ

/-- `FLEXNET_POISON_HOLDDOWN`. -/
def poisonHolddown : ℤ := 90

/-- The verdict of the early exits: leave the entry alone, drop what it has queued, or go on
with a cost and its penalty. -/
inductive Screen
  | leave
  | unqueue
  | go (expected penalty : ℤ)
deriving DecidableEq

namespace CheckInput

variable (i : CheckInput)

/-- The three gates that force a withdrawal of what the peer was told and stop everything else:
`'='` links, split horizon, and the advertisement scope. -/
def scopeGates (told : Bool) : Screen :=
  if i.ownOnly && !told then .unqueue
  else
    let (expected, penalty) :=
      if i.ownOnly then (rttInfinity, 0) else (i.expected.rtt, i.expected.penalty)
    if i.splitHorizon && !told then .leave
    else
      let expected := if i.splitHorizon then rttInfinity else expected
      if i.directOnly && !i.expected.direct && !told then .leave
      else
        .go (if i.directOnly && !i.expected.direct then rttInfinity else expected) penalty

/-- Poison hold-down: a withdrawal sent less than `FLEXNET_POISON_HOLDDOWN` ago stands. -/
def heldDown (a : AdvRoute) (expected : ℤ) : Bool :=
  !i.expected.direct &&
    decide (rttInfinity ≤ a.lastRtt ∧ expected < rttInfinity ∧ i.now - a.lastAt < poisonHolddown)

/-- The early exits of `flex_advertise_check`, in the order of the source. -/
def screen (adv : Option AdvRoute) : Screen :=
  match i.scopeGates (adv.elim false AdvRoute.toldFinite) with
  | .leave => .leave
  | .unqueue => .unqueue
  | .go expected penalty =>
    if adv.elim false (fun a => i.heldDown a expected) then .unqueue
    -- poison only what this peer was told about
    else if i.expected.src.isNone && !adv.elim false AdvRoute.toldFinite then .leave
    else .go expected penalty

end CheckInput

/-! ## The decision on one entry -/

/-- `FLEXNET_REFRESH_THRESHOLD_PCT` and `FLEXNET_REFRESH_THRESHOLD_ABS`: the smallest change
from `last` that is worth a frame. -/
def refreshThreshold (last : ℤ) : ℤ :=
  max ((last * 10).tdiv 100) 1

/-- The change of cost the threshold is applied to. -/
def costDelta (last expected : ℤ) : ℤ :=
  if last < 0 then expected else if last < expected then expected - last else last - expected

/-- The change is worth a frame: the peer was never told, the walk is forced, or the threshold
is met. -/
def fires (force : Bool) (expected : ℤ) (a : AdvRoute) : Bool :=
  !(decide (0 ≤ a.lastRtt) && !force &&
    decide (costDelta a.lastRtt expected < refreshThreshold a.lastRtt))

/-- Put a cost in the queue slot; a withdrawal carries no penalty. -/
def AdvRoute.queue (expected penalty : ℤ) (a : AdvRoute) : AdvRoute :=
  { a with
    pending := true
    pendingRtt := expected
    pendingPen := if rttInfinity ≤ expected then 0 else penalty }

/-- The end of `flex_advertise_check`: queue the cost, refresh what is queued already, or stay
silent. -/
def settle (force : Bool) (expected penalty : ℤ) (a : AdvRoute) : AdvRoute :=
  if fires force expected a || a.pending then a.queue expected penalty else a

/-- The last cost the detector compares with: without the `'+'` penalty. -/
def climbLast (a : AdvRoute) : ℤ :=
  if a.lastRtt < 0 ∨ rttInfinity ≤ a.lastRtt then a.lastRtt else a.lastRtt - a.lastPen

/-- Count-to-infinity containment: the cost to go on with, none to stay silent, and the entry
with its detector fields updated.  A direct neighbour is exempt. -/
def contain (force direct : Bool) (expected penalty : ℤ) (a : AdvRoute) : Option ℤ × AdvRoute :=
  if direct then (some expected, a)
  else
    match flexClimbIsLoop a (climbLast a)
        (if rttInfinity ≤ expected then expected else expected - penalty) with
    | (.ok, a') => (some expected, a')
    | (.withdraw, a') => (some rttInfinity, a')
    -- a forced walk says "withdrawn" instead of nothing
    | (.suppress, a') => (if force then some rttInfinity else none, a')

/-- The detector and the threshold, on the peer's entry. -/
def decideEntry (force direct : Bool) (expected penalty : ℤ) (a : AdvRoute) : AdvRoute :=
  match contain force direct expected penalty a with
  | (none, a') => { a' with pending := false }
  | (some expected, a') => settle force expected penalty a'

/-- `FLEXNET_MAX_ADVERTISED_PER_PEER` entries are never exceeded: `room` says a new one fits. -/
def checkEntry (i : CheckInput) (force room : Bool) (k : Key) (adv : Option AdvRoute) :
    Option AdvRoute :=
  match i.screen adv with
  | .leave => adv
  | .unqueue => adv.map fun a => { a with pending := false }
  | .go expected penalty =>
    match adv with
    | some a => some (decideEntry force i.expected.direct expected penalty a)
    | none =>
      if room then some (decideEntry force i.expected.direct expected penalty (.fresh k)) else none

/-! ## `flex_advertise_check` -/

/-- `flex_records_allowed`. -/
def Config.recordsAllowed (cfg : Config) (x : Peer) : Bool :=
  !(cfg.pcfQuiesce && x.pcfQuiesced)

namespace Env

variable (e : Env)

/-- What the rule reads for a peer and a destination. -/
def checkInput (p : Slot) (k : Key) : CheckInput where
  expected := e.expectedRtt p k
  ownOnly := (e.linkOpts p).ownOnly
  splitHorizon := e.learnedHas p k && !e.destIsOurPeer k
  directOnly := e.cfg.advertiseDirectOnly
  now := e.now

/-- The first exits: records may go to this peer, transit is on, the session is up, and the
destination is neither empty nor covered by the node's own record. -/
def checkGate (p : Slot) (k : Key) (x : Peer) : Bool :=
  e.cfg.recordsAllowed x && e.cfg.transit && (e.sessions p).active &&
    (e.sessions p).link.isSome && !k.call.isEmpty && !e.cfg.recordIsOurs k

/-- `flex_advertise_check` on the peer it is about. -/
def flexAdvertiseCheck (p : Slot) (k : Key) (force : Bool) (x : Peer) : Peer :=
  if !e.checkGate p k x then x
  else
    match checkEntry (e.checkInput p k) force (decide (x.adv.advs.length < maxAdvertised)) k
        (x.adv.find k) with
    | none => x
    | some a => { x with adv := x.adv.put a }

end Env

/-! ## What a check changes -/

/-- Two entries agree on everything but the detector's fields. -/
structure AdvRoute.SameRecord (a b : AdvRoute) : Prop where
  key : a.key = b.key
  lastRtt : a.lastRtt = b.lastRtt
  lastAt : a.lastAt = b.lastAt
  lastPen : a.lastPen = b.lastPen
  pending : a.pending = b.pending
  pendingRtt : a.pendingRtt = b.pendingRtt
  pendingPen : a.pendingPen = b.pendingPen

theorem AdvRoute.SameRecord.refl (a : AdvRoute) : a.SameRecord a :=
  ⟨rfl, rfl, rfl, rfl, rfl, rfl, rfl⟩

/-- The detector leaves the queue and the told values alone. -/
theorem flexClimbIsLoop_sameRecord (a : AdvRoute) (last expected : ℤ) :
    (flexClimbIsLoop a last expected).2.SameRecord a := by
  unfold flexClimbIsLoop
  dsimp only
  split_ifs <;> exact ⟨rfl, rfl, rfl, rfl, rfl, rfl, rfl⟩

theorem contain_sameRecord (force direct : Bool) (expected penalty : ℤ) (a : AdvRoute) :
    (contain force direct expected penalty a).2.SameRecord a := by
  unfold contain
  cases direct with
  | true => exact .refl a
  | false =>
      have h := flexClimbIsLoop_sameRecord a (climbLast a)
        (if rttInfinity ≤ expected then expected else expected - penalty)
      generalize flexClimbIsLoop a (climbLast a) _ = r at h ⊢
      obtain ⟨verdict, a'⟩ := r
      cases verdict <;> exact h

@[simp] theorem settle_key {force : Bool} {expected penalty : ℤ} {a : AdvRoute} :
    (settle force expected penalty a).key = a.key := by
  unfold settle; split_ifs <;> rfl

theorem decideEntry_key {force direct : Bool} {expected penalty : ℤ} {a : AdvRoute} :
    (decideEntry force direct expected penalty a).key = a.key := by
  have h := contain_sameRecord force direct expected penalty a
  unfold decideEntry
  split <;> rename_i a' heq <;> rw [heq] at h
  · exact h.key
  · exact settle_key.trans h.key

theorem checkEntry_key {i : CheckInput} {force room : Bool} {k : Key} {adv : Option AdvRoute}
    {a : AdvRoute} (hadv : ∀ b, adv = some b → b.key = k)
    (h : checkEntry i force room k adv = some a) : a.key = k := by
  unfold checkEntry at h
  split at h
  · exact hadv a h
  · obtain ⟨b, hb, rfl⟩ := Option.map_eq_some_iff.mp h
    exact hadv b hb
  · split at h
    · cases h
      exact decideEntry_key.trans (hadv _ rfl)
    · split_ifs at h
      cases h
      exact decideEntry_key

namespace Env

/-- What a check does to a peer: nothing, or one write of the checked key's entry. -/
theorem flexAdvertiseCheck_cases (e : Env) (p : Slot) (k : Key) (force : Bool) (x : Peer) :
    e.flexAdvertiseCheck p k force x = x ∨
      ∃ a, e.flexAdvertiseCheck p k force x = { x with adv := x.adv.put a } ∧ a.key = k ∧
        e.checkGate p k x = true ∧
        checkEntry (e.checkInput p k) force (decide (x.adv.advs.length < maxAdvertised)) k
          (x.adv.find k) = some a := by
  unfold flexAdvertiseCheck
  cases hgate : e.checkGate p k x
  · exact .inl rfl
  · rw [if_neg (by simp)]
    cases hent : checkEntry (e.checkInput p k) force
        (decide (x.adv.advs.length < maxAdvertised)) k (x.adv.find k) with
    | none => exact .inl rfl
    | some a =>
        exact .inr ⟨a, rfl, checkEntry_key (fun b hb => KeyedTable.lookup_key hb) hent, rfl, rfl⟩

end Env

end FlexNet
