import FlexNet.Node.Drain
import Mathlib.Tactic.Push

/-!
# What checks and drains do to entries

The advertised table of a peer read entry by entry: a check rewrites the entry of one
destination, a drain commits queued entries, and neither touches anything else in the table.
`decideEntry_cases` and `checkEntry_cases` say once what a check can make of an entry.
`AdvertisedState.Sound` collects what every table keeps: one entry a destination, and costs
the rule can have computed.
-/

namespace FlexNet

namespace AdvRoute

/-- The cost the peer has been told or is about to be told. -/
def told (a : AdvRoute) : ℤ := if a.pending then a.pendingRtt else a.lastRtt

/-- The peer holds, or is about to hold, a finite cost. -/
def FiniteTold (a : AdvRoute) : Prop := 0 ≤ a.told ∧ a.told < rttInfinity

instance (a : AdvRoute) : Decidable a.FiniteTold := inferInstanceAs (Decidable (_ ∧ _))

@[simp] theorem commit_key (now : ℤ) (a : AdvRoute) : (a.commit now).key = a.key := rfl

/-- Emission changes nothing about what the peer is told in the end. -/
theorem told_commit {now : ℤ} {a : AdvRoute} (h : a.pending = true) :
    (a.commit now).told = a.told := by
  simp [told, commit, h]

theorem toldFinite_iff {a : AdvRoute} :
    a.toldFinite = true ↔ 0 ≤ a.lastRtt ∧ a.lastRtt < rttInfinity := by
  simp [toldFinite]

theorem finiteTold_of_pending {a : AdvRoute} (h : a.pending = true) :
    a.FiniteTold ↔ 0 ≤ a.pendingRtt ∧ a.pendingRtt < rttInfinity := by
  simp [FiniteTold, told, h]

theorem finiteTold_of_not_pending {a : AdvRoute} (h : a.pending = false) :
    a.FiniteTold ↔ a.toldFinite = true := by
  simp [FiniteTold, told, h, toldFinite]

/-- A cost the rule can have computed: positive, at most the sentinel. -/
def IsCost (c : ℤ) : Prop := 0 < c ∧ c ≤ rttInfinity

/-- The queued cost is a cost, and so is the last one sent, if any was. -/
structure Sound (a : AdvRoute) : Prop where
  queued : a.pending = true → IsCost a.pendingRtt
  sent : a.lastRtt = -1 ∨ IsCost a.lastRtt

theorem Sound.fresh {k : Key} : (fresh k).Sound := ⟨fun h => (by cases h), .inl rfl⟩

theorem Sound.unqueue {a : AdvRoute} (h : a.Sound) : { a with pending := false }.Sound :=
  ⟨fun hq => (by cases hq), h.sent⟩

theorem Sound.commit {a : AdvRoute} {now : ℤ} (h : a.Sound) (hq : a.pending = true) :
    (a.commit now).Sound :=
  ⟨fun hq' => (by cases hq'), .inr (h.queued hq)⟩

theorem Sound.congr {a b : AdvRoute} (h : a.Sound) (hs : b.SameRecord a) : b.Sound where
  queued := fun hq => hs.pendingRtt ▸ h.queued (hs.pending ▸ hq)
  sent := hs.lastRtt ▸ h.sent

theorem Sound.settle {a : AdvRoute} {force : Bool} {expected penalty : ℤ} (h : a.Sound)
    (hexp : IsCost expected) : (settle force expected penalty a).Sound := by
  unfold FlexNet.settle
  split_ifs
  · exact ⟨fun _ => hexp, h.sent⟩
  · exact h

end AdvRoute

open AdvRoute

/-! ## Tables -/

namespace AdvertisedState

variable {st : AdvertisedState} {a b : AdvRoute} {k : Key}

theorem find_key (h : st.find k = some a) : a.key = k := KeyedTable.lookup_key h

theorem mem_of_find (h : st.find k = some a) : a ∈ st.advs := KeyedTable.mem_of_lookup h

theorem find_put_self : (st.put a).find a.key = some a := KeyedTable.lookup_store_self

theorem find_put_of_ne (h : k ≠ a.key) : (st.put a).find k = st.find k :=
  KeyedTable.lookup_store_of_ne h

@[simp] theorem put_tokens : (st.put a).tokens = st.tokens := rfl
@[simp] theorem put_eobPending : (st.put a).eobPending = st.eobPending := rfl

@[simp] theorem find_refill {isPcf : Bool} {now : ℤ} :
    (st.refill isPcf now).find k = st.find k := by
  unfold refill; split_ifs <;> rfl

@[simp] theorem advs_refill {isPcf : Bool} {now : ℤ} : (st.refill isPcf now).advs = st.advs := by
  unfold refill; split_ifs <;> rfl

/-- What every advertised table keeps. -/
structure Sound (st : AdvertisedState) : Prop where
  distinct : KeyedTable.Distinct AdvRoute.key st.advs
  entries : ∀ a ∈ st.advs, a.Sound

theorem Sound.empty : Sound {} := ⟨List.nodup_nil, fun _ ha => absurd ha List.not_mem_nil⟩

theorem Sound.find_of_mem (h : st.Sound) (ha : a ∈ st.advs) : st.find a.key = some a :=
  KeyedTable.lookup_of_mem h.distinct ha

theorem Sound.put (h : st.Sound) (ha : a.Sound) : (st.put a).Sound where
  distinct := KeyedTable.distinct_store h.distinct
  entries := fun b hb => by
    rcases KeyedTable.mem_store hb with rfl | hb
    · exact ha
    · exact h.entries b hb

theorem Sound.congr {st' : AdvertisedState} (h : st.Sound) (he : st'.advs = st.advs) :
    st'.Sound :=
  ⟨he ▸ h.distinct, fun a ha => h.entries a (he ▸ ha)⟩

end AdvertisedState

/-! ## Checks -/

namespace CheckInput

variable (i : CheckInput)

/-- One of the three scope gates is shut for the destination. -/
def gated : Bool := i.ownOnly || i.splitHorizon || (i.directOnly && !i.expected.direct)

/-- The cost after the scope gates. -/
def cost : ℤ := if i.gated then rttInfinity else i.expected.rtt

/-- The penalty after the scope gates. -/
def penalty : ℤ := if i.ownOnly then 0 else i.expected.penalty

theorem scopeGates_eq (told : Bool) :
    i.scopeGates told =
      if i.gated && !told then (if i.ownOnly then .unqueue else .leave)
      else .go i.cost i.penalty := by
  unfold scopeGates cost penalty gated
  cases i.ownOnly <;> cases i.splitHorizon <;> cases i.directOnly <;>
    cases i.expected.direct <;> cases told <;> rfl

/-- The early exits, one condition after the other. -/
theorem screen_eq (adv : Option AdvRoute) :
    i.screen adv =
      if i.gated && !adv.elim false AdvRoute.toldFinite then
        (if i.ownOnly then .unqueue else .leave)
      else if adv.elim false (fun a => i.heldDown a i.cost) then .unqueue
      else if i.expected.src.isNone && !adv.elim false AdvRoute.toldFinite then .leave
      else .go i.cost i.penalty := by
  unfold screen
  rw [scopeGates_eq]
  cases i.gated && !adv.elim false AdvRoute.toldFinite
  · rfl
  · cases i.ownOnly <;> rfl

variable {i}

/-- The costs the rule can queue. -/
theorem isCost_cost (hi : IsCost i.expected.rtt) : IsCost i.cost := by
  unfold cost
  split_ifs
  · exact ⟨by decide, le_rfl⟩
  · exact hi

theorem screen_go {adv : Option AdvRoute} {expected penalty : ℤ}
    (h : i.screen adv = .go expected penalty) :
    expected = i.cost ∧ penalty = i.penalty ∧
      (i.gated = true → adv.elim false AdvRoute.toldFinite = true) ∧
      (i.expected.src = none → adv.elim false AdvRoute.toldFinite = true) ∧
      adv.elim false (fun a => i.heldDown a i.cost) = false := by
  rw [screen_eq] at h
  generalize adv.elim false AdvRoute.toldFinite = told at h ⊢
  generalize adv.elim false (fun a => i.heldDown a i.cost) = held at h ⊢
  cases hgated : i.gated <;> cases hsrc : i.expected.src <;> cases told <;> cases held <;>
    simp_all
  all_goals split_ifs at h

theorem screen_leave {adv : Option AdvRoute} (h : i.screen adv = .leave) :
    adv.elim false AdvRoute.toldFinite = false ∧ i.ownOnly = false ∧
      (i.gated = true ∨ i.expected.src = none) := by
  have hgate : i.ownOnly = true → i.gated = true := fun hown => by simp [gated, hown]
  rw [screen_eq] at h
  generalize adv.elim false AdvRoute.toldFinite = told at h ⊢
  generalize adv.elim false (fun a => i.heldDown a i.cost) = held at h
  cases hgated : i.gated <;> cases hown : i.ownOnly <;> cases hsrc : i.expected.src <;>
    cases told <;> cases held <;> simp_all

theorem screen_unqueue {adv : Option AdvRoute} (h : i.screen adv = .unqueue) :
    (i.ownOnly = true ∧ adv.elim false AdvRoute.toldFinite = false) ∨
      adv.elim false (fun a => i.heldDown a i.cost) = true := by
  rw [screen_eq] at h
  generalize adv.elim false AdvRoute.toldFinite = told at h ⊢
  generalize adv.elim false (fun a => i.heldDown a i.cost) = held at h ⊢
  cases hgated : i.gated <;> cases hown : i.ownOnly <;> cases hsrc : i.expected.src <;>
    cases told <;> cases held <;> simp_all

theorem cost_of_gated (h : i.gated = true) : i.cost = rttInfinity := if_pos h

/-- Without a source the cost is the sentinel. -/
theorem cost_of_noSource (h : i.expected = Env.noSource) : i.cost = rttInfinity := by
  unfold cost
  split_ifs
  · rfl
  · rw [h, Env.noSource]

end CheckInput

/-! ## What the detector and the threshold make of an entry -/

theorem fires_eq_false {force : Bool} {expected : ℤ} {a : AdvRoute} :
    fires force expected a = false ↔
      0 ≤ a.lastRtt ∧ force = false ∧
        costDelta a.lastRtt expected < refreshThreshold a.lastRtt := by
  simp [fires, and_assoc]

/-- The threshold queues the cost, or leaves an entry with nothing queued alone. -/
theorem settle_cases (force : Bool) (expected penalty : ℤ) (a : AdvRoute) :
    ((fires force expected a = true ∨ a.pending = true) ∧
      settle force expected penalty a = a.queue expected penalty) ∨
    (fires force expected a = false ∧ a.pending = false ∧ settle force expected penalty a = a) := by
  unfold settle
  cases fires force expected a <;> cases a.pending <;> simp

@[simp] theorem settle_looping {force : Bool} {expected penalty : ℤ} {a : AdvRoute} :
    (settle force expected penalty a).looping = a.looping := by
  rcases settle_cases force expected penalty a with ⟨-, h⟩ | ⟨-, -, h⟩ <;> rw [h]
  rfl

namespace AdvRoute

/-- The cost is at least `FLEXNET_CLIMB_RATIO` times the floor. -/
def Climbed (a : AdvRoute) (cost : ℤ) : Prop :=
  0 < a.rttFloor ∧ climbRatio ≤ cost.tdiv a.rttFloor

instance (a : AdvRoute) (cost : ℤ) : Decidable (a.Climbed cost) :=
  inferInstanceAs (Decidable (_ ∧ _))

/-- A higher cost is inflated too. -/
theorem Climbed.mono {a : AdvRoute} {cost cost' : ℤ} (h : a.Climbed cost) (hle : cost ≤ cost') :
    a.Climbed cost' :=
  ⟨h.1, h.2.trans (Int.tdiv_le_tdiv h.1 hle)⟩

/-- One more climb latches the entry. -/
def LastClimb (a : AdvRoute) (cost : ℤ) : Prop :=
  0 ≤ climbLast a ∧ climbLast a < cost ∧ climbMinSteps ≤ a.climbSteps + 1 ∧ a.Climbed cost

instance (a : AdvRoute) (cost : ℤ) : Decidable (a.LastClimb cost) :=
  inferInstanceAs (Decidable (_ ∧ _ ∧ _ ∧ _))

end AdvRoute

/-- The four verdicts of the detector on a finite cost. -/
theorem flexClimbIsLoop_cases {a : AdvRoute} {cost : ℤ} (hc : cost < rttInfinity) :
    (a.looping = true ∧ a.Climbed cost ∧ flexClimbIsLoop a (climbLast a) cost = (.suppress, a)) ∨
    (a.looping = false ∧ a.LastClimb cost ∧
      ∃ a', a'.SameRecord a ∧ a'.looping = true ∧
        flexClimbIsLoop a (climbLast a) cost = (.withdraw, a')) ∨
    (¬ (a.looping = true ∧ a.Climbed cost) ∧
      ∃ a', a'.SameRecord a ∧ a'.looping = false ∧
        flexClimbIsLoop a (climbLast a) cost = (.ok, a')) := by
  have hsame := flexClimbIsLoop_sameRecord a (climbLast a) cost
  by_cases hsup : a.looping = true ∧ 0 < a.rttFloor ∧ climbRatio ≤ cost.tdiv a.rttFloor
  · left
    exact ⟨hsup.1, hsup.2, by simp [flexClimbIsLoop, not_le.mpr hc, hsup]⟩
  · right
    unfold flexClimbIsLoop at hsame ⊢
    rw [if_neg (not_le.mpr hc), if_neg hsup] at hsame ⊢
    dsimp only at hsame ⊢
    by_cases hl : a.looping = true
    · -- a latched entry is unlatched first, and one step never latches it again
      right
      refine ⟨hsup, ?_⟩
      simp only [hl, if_true, climbMinSteps] at hsame ⊢
      split_ifs at hsame ⊢ <;> first | exact ⟨_, hsame, rfl, rfl⟩ | simp_all
    · rw [Bool.not_eq_true] at hl
      simp only [hl, Bool.false_eq_true, if_false] at hsame ⊢
      by_cases hup : 0 ≤ climbLast a ∧ climbLast a < cost
      · rw [if_pos hup] at hsame ⊢
        dsimp only at hsame ⊢
        split_ifs at hsame ⊢ with htrip
        · exact .inl ⟨trivial, ⟨hup.1, hup.2, htrip.2.1, htrip.1, htrip.2.2⟩, _, hsame, rfl, rfl⟩
        · exact .inr ⟨by simp, _, hsame, rfl, rfl⟩
      · right
        rw [if_neg hup] at hsame ⊢
        refine ⟨by simp, ?_⟩
        simp only [climbMinSteps, nonpos_iff_eq_zero, OfNat.ofNat_ne_zero, false_and, and_false,
          if_false] at hsame ⊢
        exact ⟨_, hsame, rfl, rfl⟩

/-- What the detector and the threshold make of an entry, case by case. -/
theorem decideEntry_cases (force direct : Bool) (cost penalty : ℤ) (a : AdvRoute)
    (hpen : 0 ≤ penalty) :
    ((direct = true ∨ rttInfinity ≤ cost) ∧
      decideEntry force direct cost penalty a = settle force cost penalty a) ∨
    (direct = false ∧ cost < rttInfinity ∧ a.looping = true ∧ a.Climbed (cost - penalty) ∧
      decideEntry force direct cost penalty a =
        if force then settle force rttInfinity penalty a else { a with pending := false }) ∨
    (direct = false ∧ cost < rttInfinity ∧ a.looping = false ∧ a.LastClimb (cost - penalty) ∧
      ∃ a', a'.SameRecord a ∧ a'.looping = true ∧
        decideEntry force direct cost penalty a = settle force rttInfinity penalty a') ∨
    (direct = false ∧ cost < rttInfinity ∧ ¬ (a.looping = true ∧ a.Climbed (cost - penalty)) ∧
      ∃ a', a'.SameRecord a ∧ a'.looping = false ∧
        decideEntry force direct cost penalty a = settle force cost penalty a') := by
  cases direct with
  | true => exact .inl ⟨.inl rfl, by simp [decideEntry, contain]⟩
  | false =>
      rcases le_or_gt rttInfinity cost with hinf | hfin
      · exact .inl ⟨.inr hinf, by simp [decideEntry, contain, flexClimbIsLoop, hinf]⟩
      · right
        have hraw : cost - penalty < rttInfinity := by omega
        simp only [decideEntry, contain, if_neg (not_le.mpr hfin), Bool.false_eq_true, if_false,
          true_and, hfin]
        rcases flexClimbIsLoop_cases (a := a) hraw with ⟨hl, hc, heq⟩ |
            ⟨hl, hc, a', hs, hl', heq⟩ | ⟨hn, a', hs, hl', heq⟩
        · refine .inl ⟨hl, hc, ?_⟩
          rw [heq]
          cases force <;> rfl
        · refine .inr (.inl ⟨hl, hc, a', hs, hl', ?_⟩)
          rw [heq]
        · refine .inr (.inr ⟨hn, a', hs, hl', ?_⟩)
          rw [heq]

@[simp] theorem settle_lastRtt {force : Bool} {expected penalty : ℤ} {a : AdvRoute} :
    (settle force expected penalty a).lastRtt = a.lastRtt := by
  rcases settle_cases force expected penalty a with ⟨-, h⟩ | ⟨-, -, h⟩ <;> rw [h]
  rfl

/-- A decision changes nothing about what was sent. -/
theorem decideEntry_lastRtt {force direct : Bool} {cost penalty : ℤ} {a : AdvRoute}
    (hpen : 0 ≤ penalty) : (decideEntry force direct cost penalty a).lastRtt = a.lastRtt := by
  rcases decideEntry_cases force direct cost penalty a hpen with ⟨-, h⟩ | ⟨-, -, -, -, h⟩ |
      ⟨-, -, -, -, a', hs, -, h⟩ | ⟨-, -, -, a', hs, -, h⟩ <;> rw [h]
  · exact settle_lastRtt
  · split_ifs
    · exact settle_lastRtt
    · rfl
  · exact settle_lastRtt.trans hs.lastRtt
  · exact settle_lastRtt.trans hs.lastRtt

theorem settle_lastAt {force : Bool} {expected penalty : ℤ} {a : AdvRoute} :
    (settle force expected penalty a).lastAt = a.lastAt := by
  rcases settle_cases force expected penalty a with ⟨-, h⟩ | ⟨-, -, h⟩ <;> rw [h]
  rfl

theorem decideEntry_lastAt {force direct : Bool} {cost penalty : ℤ} {a : AdvRoute}
    (hpen : 0 ≤ penalty) : (decideEntry force direct cost penalty a).lastAt = a.lastAt := by
  rcases decideEntry_cases force direct cost penalty a hpen with ⟨-, h⟩ | ⟨-, -, -, -, h⟩ |
      ⟨-, -, -, -, a', hs, -, h⟩ | ⟨-, -, -, a', hs, -, h⟩ <;> rw [h]
  · exact settle_lastAt
  · split_ifs
    · exact settle_lastAt
    · rfl
  · exact settle_lastAt.trans hs.lastAt
  · exact settle_lastAt.trans hs.lastAt

theorem decideEntry_sound {force direct : Bool} {cost penalty : ℤ} {a : AdvRoute}
    (hcost : IsCost cost) (hpen : 0 ≤ penalty) (ha : a.Sound) :
    (decideEntry force direct cost penalty a).Sound := by
  have hinf : IsCost rttInfinity := ⟨by decide, le_rfl⟩
  rcases decideEntry_cases force direct cost penalty a hpen with ⟨-, h⟩ | ⟨-, -, -, -, h⟩ |
      ⟨-, -, -, -, a', hs, -, h⟩ | ⟨-, -, -, a', hs, -, h⟩ <;> rw [h]
  · exact ha.settle hcost
  · split_ifs
    · exact ha.settle hinf
    · exact ha.unqueue
  · exact (ha.congr hs).settle hinf
  · exact (ha.congr hs).settle hcost

/-- What a check makes of the peer's entry: it stays, what it has queued is dropped, or the
detector and the threshold decide. -/
theorem checkEntry_cases {i : CheckInput} {force room : Bool} {k : Key} {adv : Option AdvRoute}
    {b : AdvRoute} (h : checkEntry i force room k adv = some b) :
    (adv = some b ∧ b.toldFinite = false ∧ i.ownOnly = false ∧
      (i.gated = true ∨ i.expected.src = none)) ∨
    (∃ a, adv = some a ∧ b = { a with pending := false } ∧
      ((i.ownOnly = true ∧ a.toldFinite = false) ∨ i.heldDown a i.cost = true)) ∨
    (b = decideEntry force i.expected.direct i.cost i.penalty (adv.getD (.fresh k)) ∧
      (i.gated = true → (adv.getD (.fresh k)).toldFinite = true) ∧
      (i.expected.src = none → (adv.getD (.fresh k)).toldFinite = true) ∧
      i.heldDown (adv.getD (.fresh k)) i.cost = false) := by
  have hfresh : (AdvRoute.fresh k).toldFinite = false := by simp [toldFinite, fresh]
  have hdown : ∀ c, i.heldDown (.fresh k) c = false := fun c => by
    simp [CheckInput.heldDown, fresh, rttInfinity]
  rcases hscreen : i.screen adv with _ | _ | ⟨cost, penalty⟩
  · simp only [checkEntry, hscreen] at h
    subst h
    exact .inl ⟨rfl, CheckInput.screen_leave hscreen⟩
  · simp only [checkEntry, hscreen] at h
    obtain ⟨a, rfl, rfl⟩ := Option.map_eq_some_iff.mp h
    exact .inr (.inl ⟨a, rfl, rfl, CheckInput.screen_unqueue hscreen⟩)
  · obtain ⟨rfl, rfl, hgated, hsrc, hheld⟩ := CheckInput.screen_go hscreen
    simp only [checkEntry, hscreen] at h
    right; right
    cases adv with
    | none =>
        dsimp only at h
        split_ifs at h
        cases h
        rw [Option.getD_none, hfresh]
        exact ⟨rfl, hgated, hsrc, hdown _⟩
    | some a =>
        cases h
        exact ⟨rfl, hgated, hsrc, hheld⟩

/-- What a check that goes on with the sentinel makes of the peer's entry, when a gate is shut or
there is no source. -/
theorem checkEntry_sentinel {i : CheckInput} {force room : Bool} {k : Key} {adv : Option AdvRoute}
    {b : AdvRoute} (hcost : i.cost = rttInfinity) (hpen : 0 ≤ i.penalty)
    (hwhy : i.gated = true ∨ i.expected.src = none)
    (h : checkEntry i force room k adv = some b) :
    ∃ a, adv = some a ∧
      ((a.toldFinite = false ∧ ((b = a ∧ i.ownOnly = false) ∨ b = { a with pending := false })) ∨
        (a.toldFinite = true ∧ b = settle force rttInfinity i.penalty a)) := by
  rcases checkEntry_cases h with ⟨heq, htold, hown, -⟩ | ⟨a, heq, rfl, hown⟩ |
      ⟨rfl, hgated, hsrc, -⟩
  · exact ⟨b, heq, .inl ⟨htold, .inl ⟨rfl, hown⟩⟩⟩
  · refine ⟨a, heq, .inl ⟨?_, .inr rfl⟩⟩
    rcases hown with ⟨-, htold⟩ | hheld
    · exact htold
    · simp only [CheckInput.heldDown, hcost, Bool.and_eq_true, decide_eq_true_eq] at hheld
      omega
  · have htold : (adv.getD (.fresh k)).toldFinite = true := hwhy.elim hgated hsrc
    cases adv with
    | none => simp [toldFinite, fresh] at htold
    | some a =>
        refine ⟨a, rfl, .inr ⟨htold, ?_⟩⟩
        rw [Option.getD_some, hcost]
        rcases decideEntry_cases force i.expected.direct rttInfinity i.penalty a hpen with
          ⟨-, h⟩ | ⟨-, hfin, -⟩ | ⟨-, hfin, -⟩ | ⟨-, hfin, -⟩
        · exact h
        all_goals omega

/-- The entries that such a check leaves told finite: one that was never told and has a finite cost
queued, and one whose last cost is too close to the sentinel. -/
def CheckInput.Stuck (i : CheckInput) (force : Bool) (a : AdvRoute) : Prop :=
  (i.ownOnly = false ∧ a.pending = true ∧ a.toldFinite = false) ∨
    (a.pending = false ∧ a.toldFinite = true ∧ fires force rttInfinity a = false)

instance (i : CheckInput) (force : Bool) (a : AdvRoute) : Decidable (i.Stuck force a) :=
  inferInstanceAs (Decidable (_ ∨ _))

theorem stuck_of_checkEntry {i : CheckInput} {force room : Bool} {k : Key} {adv : Option AdvRoute}
    {b : AdvRoute} (hcost : i.cost = rttInfinity) (hpen : 0 ≤ i.penalty)
    (hwhy : i.gated = true ∨ i.expected.src = none)
    (h : checkEntry i force room k adv = some b) (hb : b.FiniteTold) :
    adv = some b ∧ i.Stuck force b := by
  obtain ⟨a, heq, ⟨htold, ⟨rfl, hown⟩ | rfl⟩ | ⟨htold, rfl⟩⟩ :=
    checkEntry_sentinel hcost hpen hwhy h
  · refine ⟨heq, .inl ⟨hown, ?_, htold⟩⟩
    by_contra hq
    rw [finiteTold_of_not_pending (by simpa using hq), htold] at hb
    cases hb
  · rw [finiteTold_of_not_pending rfl] at hb
    exact absurd hb (by simpa [toldFinite] using htold)
  · rcases settle_cases force rttInfinity i.penalty a with ⟨-, hs⟩ | ⟨hfire, hq, hs⟩ <;>
      rw [hs] at hb ⊢
    · rw [finiteTold_of_pending rfl] at hb
      exact absurd hb.2 (lt_irrefl _)
    · exact ⟨heq, .inr ⟨hq, htold, hfire⟩⟩

theorem checkEntry_sound {i : CheckInput} {force room : Bool} {k : Key} {adv : Option AdvRoute}
    {b : AdvRoute} (hcost : IsCost i.cost) (hpen : 0 ≤ i.penalty)
    (hadv : ∀ a, adv = some a → a.Sound) (h : checkEntry i force room k adv = some b) :
    b.Sound := by
  rcases checkEntry_cases h with ⟨heq, -, -⟩ | ⟨a, heq, rfl, -⟩ | ⟨rfl, -, -, -⟩
  · exact hadv b heq
  · exact (hadv a heq).unqueue
  · refine decideEntry_sound hcost hpen ?_
    cases adv with
    | none => exact .fresh
    | some a => exact hadv a rfl

namespace Env

variable {e : Env} {p : Slot} {k : Key} {force : Bool} {x : Peer} {b : AdvRoute}

theorem isCost_checkInput : IsCost (e.checkInput p k).cost := by
  have h := expectedRtt_bounds (e := e) (p := p) (k := k)
  exact CheckInput.isCost_cost ⟨by simp only [checkInput]; omega, h.2.2⟩

theorem checkInput_penalty : 0 ≤ (e.checkInput p k).penalty := by
  unfold CheckInput.penalty
  split_ifs
  · exact le_rfl
  · exact expectedRtt_bounds.1

/-- A check goes on with the sentinel exactly when a gate is shut or there is no source. -/
theorem checkInput_cost_eq : (e.checkInput p k).cost = rttInfinity ↔
    (e.checkInput p k).gated = true ∨ (e.checkInput p k).expected.src = none := by
  have hlt : (e.checkInput p k).expected.rtt < rttInfinity ↔
      (e.checkInput p k).expected.src.isSome = true :=
    expectedRtt_lt_iff.trans expectedRtt_src_isSome.symm
  have hle : (e.checkInput p k).expected.rtt ≤ rttInfinity := expectedRtt_bounds.2.2
  unfold CheckInput.cost
  split_ifs with hg
  · simp [hg]
  · cases hsrc : (e.checkInput p k).expected.src with
    | none => simp [hsrc] at hlt; simp [hg]; omega
    | some s => simp [hsrc] at hlt; simp [hg]; omega

/-- Without an offer the check goes on with the sentinel. -/
theorem checkInput_of_not_offers (h : ¬ e.Offers p k) :
    (e.checkInput p k).expected = noSource ∧ (e.checkInput p k).cost = rttInfinity :=
  ⟨expectedRtt_of_not_offers h, CheckInput.cost_of_noSource (expectedRtt_of_not_offers h)⟩

/-- A check leaves everything outside the table alone. -/
theorem flexAdvertiseCheck_frame (e : Env) (p : Slot) (k : Key) (force : Bool) (x : Peer) :
    e.flexAdvertiseCheck p k force x =
      { x with adv := { x.adv with advs := (e.flexAdvertiseCheck p k force x).adv.advs } } := by
  rcases e.flexAdvertiseCheck_cases p k force x with h | ⟨a, h, -⟩ <;> rw [h]
  rfl

/-- The entry of the checked destination: as it was when the gate stops the check, else the
decision on it. -/
theorem find_check_self (hgate : e.checkGate p k x = true) :
    (e.flexAdvertiseCheck p k force x).adv.find k =
      checkEntry (e.checkInput p k) force (decide (x.adv.advs.length < maxAdvertised)) k
        (x.adv.find k) := by
  unfold flexAdvertiseCheck
  rw [if_neg (by simp [hgate])]
  cases hent : checkEntry (e.checkInput p k) force
      (decide (x.adv.advs.length < maxAdvertised)) k (x.adv.find k) with
  | some a =>
      have hk : a.key = k := checkEntry_key (fun b hb => KeyedTable.lookup_key hb) hent
      subst hk
      exact AdvertisedState.find_put_self
  | none =>
      cases hfind : x.adv.find k with
      | none => rfl
      | some a =>
          rw [hfind] at hent
          unfold checkEntry at hent
          split at hent <;> simp at hent

theorem sound_check (h : x.adv.Sound) : (e.flexAdvertiseCheck p k force x).adv.Sound := by
  rcases e.flexAdvertiseCheck_cases p k force x with h' | ⟨a, h', -, -, hent⟩ <;> rw [h']
  · exact h
  · exact h.put (checkEntry_sound isCost_checkInput checkInput_penalty
      (fun b hb => h.entries b (AdvertisedState.mem_of_find hb)) hent)

/-- The entries of a checked table: those of other destinations, and the decision on the
checked one unless the gate stopped the check. -/
theorem mem_check (h : x.adv.Sound) (hb : b ∈ (e.flexAdvertiseCheck p k force x).adv.advs) :
    (b ∈ x.adv.advs ∧ (b.key ≠ k ∨ e.checkGate p k x = false)) ∨
      (e.checkGate p k x = true ∧ b.key = k ∧
        ∃ room, checkEntry (e.checkInput p k) force room k (x.adv.find k) = some b) := by
  have hsound : (e.flexAdvertiseCheck p k force x).adv.Sound := sound_check h
  have hfind := hsound.find_of_mem hb
  cases hgate : e.checkGate p k x with
  | false =>
      have hx : e.flexAdvertiseCheck p k force x = x := by simp [flexAdvertiseCheck, hgate]
      rw [hx] at hb
      exact .inl ⟨hb, .inr rfl⟩
  | true =>
      by_cases hk : b.key = k
      · subst hk
        rw [find_check_self hgate] at hfind
        exact .inr ⟨rfl, rfl, _, hfind⟩
      · refine .inl ⟨?_, .inl hk⟩
        rcases e.flexAdvertiseCheck_cases p k force x with h' | ⟨a, h', hak, -⟩
        · exact h' ▸ hb
        · rw [h'] at hb
          rcases KeyedTable.mem_store hb with rfl | hb
          · exact absurd hak hk
          · exact hb

end Env

end FlexNet
