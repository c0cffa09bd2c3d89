import FlexNet.Advert.Entries
import FlexNet.Node.Events

/-!
# What the link options keep back

Options take sources away and make others dearer, so without them the cheapest source is cheaper,
but it may be another one.  A direct neighbour's entry passes the scope gate, the hold-down and the
detector, another station's need not: `Env.options_narrow` says when the cost that options let
through goes out without them too.
-/

namespace FlexNet

/-! ## The cheapest source -/

namespace Env

variable {e : Env} {p si : Slot} {k : Key}

/-- No offer is cheaper than the end of the loop. -/
theorem foldl_cheaper_le (l : List Slot) (best : Expected) :
    (l.foldl (e.cheaper p k) best).rtt ≤ best.rtt ∧
      ∀ si ∈ l, e.maySource p si = true → ∀ o, e.offer si k = some o →
        (l.foldl (e.cheaper p k) best).rtt ≤ o.cost := by
  induction l generalizing best with
  | nil => exact ⟨le_rfl, fun si hsi => absurd hsi List.not_mem_nil⟩
  | cons i l ih =>
      have hstep : (e.cheaper p k best i).rtt ≤ best.rtt ∧
          (e.maySource p i = true → ∀ o, e.offer i k = some o →
            (e.cheaper p k best i).rtt ≤ o.cost) := by
        unfold cheaper
        split_ifs with hmay
        · exact ⟨le_rfl, fun h => absurd h (by simpa using hmay)⟩
        · cases hoffer : e.offer i k with
          | none => exact ⟨le_rfl, fun _ o ho => absurd ho (by simp)⟩
          | some o =>
              dsimp only
              split_ifs with hlt
              · refine ⟨hlt.le, fun _ o' ho' => ?_⟩
                rw [Option.some.injEq] at ho'
                rw [ho']
              · refine ⟨le_rfl, fun _ o' ho' => ?_⟩
                rw [Option.some.injEq] at ho'
                rw [← ho']
                omega
      obtain ⟨hbest, hrest⟩ := ih (e.cheaper p k best i)
      rw [List.foldl_cons]
      refine ⟨hbest.trans hstep.1, fun si hsi hmay o ho => ?_⟩
      rcases List.mem_cons.mp hsi with rfl | hsi
      · exact hbest.trans (hstep.2 hmay o ho)
      · exact hrest si hsi hmay o ho

/-- The loop ends where it began, or with somebody's offer. -/
theorem foldl_cheaper_source (l : List Slot) (best : Expected) :
    l.foldl (e.cheaper p k) best = best ∨
      ∃ si o, e.maySource p si = true ∧ e.offer si k = some o ∧
        l.foldl (e.cheaper p k) best = ⟨o.cost, some si, o.direct, o.penalty⟩ := by
  induction l generalizing best with
  | nil => exact .inl rfl
  | cons i l ih =>
      have hstep : e.cheaper p k best i = best ∨
          ∃ o, e.maySource p i = true ∧ e.offer i k = some o ∧
            e.cheaper p k best i = ⟨o.cost, some i, o.direct, o.penalty⟩ := by
        unfold cheaper
        split_ifs with hmay
        · exact .inl rfl
        · cases hoffer : e.offer i k with
          | none => exact .inl rfl
          | some o =>
              dsimp only
              split_ifs
              · exact .inr ⟨o, by simpa using hmay, rfl, rfl⟩
              · exact .inl rfl
      rw [List.foldl_cons]
      rcases ih (e.cheaper p k best i) with hend | hsource
      · rw [hend]
        rcases hstep with hsame | ⟨o, hmay, ho, hnew⟩
        · exact .inl hsame
        · exact .inr ⟨i, o, hmay, ho, hnew⟩
      · exact .inr hsource

/-- A peer that is not the destination is told no more than any offer. -/
theorem expectedRtt_le (hpeer : e.destIsSessionPeer p k = false) (hmay : e.maySource p si = true)
    {o : Offer} (ho : e.offer si k = some o) : (e.expectedRtt p k).rtt ≤ o.cost := by
  unfold expectedRtt
  rw [if_neg (by simp [hpeer])]
  exact (foldl_cheaper_le slots noSource).2 si (List.mem_finRange si) hmay o ho

/-- A finite cost is somebody's offer. -/
theorem expectedRtt_source (hlt : (e.expectedRtt p k).rtt < rttInfinity) :
    e.destIsSessionPeer p k = false ∧ ∃ si o, e.maySource p si = true ∧ e.offer si k = some o ∧
      e.expectedRtt p k = ⟨o.cost, some si, o.direct, o.penalty⟩ := by
  unfold expectedRtt at hlt ⊢
  split_ifs at hlt ⊢ with hpeer
  · exact absurd hlt (lt_irrefl rttInfinity)
  · refine ⟨by simpa using hpeer, (foldl_cheaper_source slots noSource).resolve_left ?_⟩
    intro hnone
    rw [hnone] at hlt
    exact lt_irrefl rttInfinity hlt

/-! ## Without options -/

/-- The same tables, with no options on any link. -/
def unrestricted (e : Env) : Env := { e with linkOpts := fun _ => {} }

/-- An offer without its penalty. -/
theorem offer_unrestricted {o : Offer} (h : e.offer si k = some o) :
    e.unrestricted.offer si k = some ⟨o.cost - o.penalty, 0, o.direct⟩ := by
  have hcost : ∀ rtt, flexLinkOptsCost {} rtt = rtt := fun rtt => rfl
  have hallows : ∀ b, flexLinkOptsSourceAllows {} b = true := by decide
  have hlearned : e.unrestricted.learned si = e.learned si := rfl
  unfold offer at h ⊢
  rw [hlearned]
  cases hfind : (e.learned si).find k with
  | none =>
      rw [hfind] at h
      cases h
  | some lr =>
      rw [hfind] at h
      dsimp only at h ⊢
      split_ifs at h with hrtt hopts
      rw [Option.some.injEq] at h
      rw [if_neg hrtt]
      change (if !flexLinkOptsSourceAllows {} _ then _ else _) = _
      rw [hallows, if_neg (by simp)]
      subst h
      change some (⟨flexLinkOptsCost {} _, flexLinkOptsCost {} _ - _, _⟩ : Offer) = _
      rw [hcost]
      simp [unrestricted]

/-- Without options the peer would be told at most the cost without its penalty. -/
theorem expectedRtt_unrestricted_le (hlt : (e.expectedRtt p k).rtt < rttInfinity) :
    (e.unrestricted.expectedRtt p k).rtt ≤
      (e.expectedRtt p k).rtt - (e.expectedRtt p k).penalty := by
  obtain ⟨hpeer, si, o, hmay, ho, heq⟩ := expectedRtt_source hlt
  have hle := expectedRtt_le (e := e.unrestricted) (p := p) hpeer hmay (offer_unrestricted ho)
  rw [heq]
  exact hle

/-- And nothing of it is a penalty. -/
theorem expectedRtt_unrestricted_penalty : (e.unrestricted.expectedRtt p k).penalty = 0 := by
  have hbounds := expectedRtt_bounds (e := e.unrestricted) (p := p) (k := k)
  rcases hbounds.2.2.lt_or_eq with hlt | hinf
  · obtain ⟨-, si, o, -, ho, heq⟩ := expectedRtt_source hlt
    have hsame := offer_unrestricted ho
    rw [show e.unrestricted.unrestricted.offer si k = _ from ho, Option.some.injEq] at hsame
    rw [heq]
    exact congrArg Offer.penalty hsame
  · rcases wellFormed_expectedRtt (e := e.unrestricted) (p := p) (k := k) with
      hnone | ⟨-, -, -, hlt⟩
    · rw [hnone]
      rfl
    · omega

end Env

/-! ## The detector -/

namespace AdvRoute

variable {a : AdvRoute}

/-- The detector withdraws the entry at this cost, or keeps it withdrawn. -/
def Detains (a : AdvRoute) (cost : ℤ) : Prop :=
  (a.looping = true ∧ a.Climbed cost) ∨ (a.looping = false ∧ a.LastClimb cost)

instance (a : AdvRoute) (cost : ℤ) : Decidable (a.Detains cost) :=
  inferInstanceAs (Decidable (_ ∨ _))

/-- A dearer route is no less suspect. -/
theorem Detains.mono {cost cost' : ℤ} (h : a.Detains cost) (hle : cost ≤ cost') :
    a.Detains cost' := by
  rcases h with ⟨hloop, hclimbed⟩ | ⟨hloop, htold, hup, hsteps, hclimbed⟩
  · exact .inl ⟨hloop, hclimbed.mono hle⟩
  · exact .inr ⟨hloop, htold, hup.trans_le hle, hsteps, hclimbed.mono hle⟩

end AdvRoute

/-- The detector lets a finite cost of a direct neighbour pass, and what it does not detain. -/
theorem contain_fst {force direct : Bool} {cost penalty : ℤ} {a : AdvRoute} (hpen : 0 ≤ penalty)
    (hfin : cost < rttInfinity) :
    ((contain force direct cost penalty a).1 = some cost ∧
      (direct = true ∨ ¬ a.Detains (cost - penalty))) ∨
    (((contain force direct cost penalty a).1 = none ∨
      (contain force direct cost penalty a).1 = some rttInfinity) ∧
      direct = false ∧ a.Detains (cost - penalty)) := by
  cases direct with
  | true => exact .inl ⟨rfl, .inl rfl⟩
  | false =>
      have hraw : cost - penalty < rttInfinity := by omega
      unfold contain
      rw [if_neg (by simp), if_neg (not_le.mpr hfin)]
      rcases flexClimbIsLoop_cases (a := a) hraw with ⟨hloop, hclimbed, heq⟩ |
          ⟨hloop, hlast, a', -, -, heq⟩ | ⟨hnot, a', -, -, heq⟩
      · rw [heq]
        refine .inr ⟨?_, rfl, .inl ⟨hloop, hclimbed⟩⟩
        cases force
        · exact .inl rfl
        · exact .inr rfl
      · rw [heq]
        exact .inr ⟨.inr rfl, rfl, .inr ⟨hloop, hlast⟩⟩
      · refine .inl ⟨by rw [heq], .inr ?_⟩
        rintro (hdetained | ⟨hloop, htold, hup, hsteps, hclimbed⟩)
        · exact hnot hdetained
        · -- one more climb would have withdrawn it
          have hverdict : (flexClimbIsLoop a (climbLast a) (cost - penalty)).1 = .withdraw := by
            unfold flexClimbIsLoop
            simp [not_le.mpr hraw, hloop, htold, hup, hsteps, hclimbed.1, hclimbed.2]
          rw [heq] at hverdict
          cases hverdict

/-- A finite cost is queued when the detector lets it pass and it is worth a frame, or an older one
waits already. -/
theorem decideEntry_queued {force direct : Bool} {cost penalty c : ℤ} {a : AdvRoute}
    (hpen : 0 ≤ penalty) (hfin : cost < rttInfinity) (hc : c < rttInfinity) :
    ((decideEntry force direct cost penalty a).pending = true ∧
      (decideEntry force direct cost penalty a).pendingRtt = c) ↔
    c = cost ∧ (direct = true ∨ ¬ a.Detains (cost - penalty)) ∧
      (fires force cost a = true ∨ a.pending = true) := by
  have hsame := contain_sameRecord force direct cost penalty a
  have hfst := @contain_fst force direct cost penalty a hpen hfin
  unfold decideEntry
  generalize contain force direct cost penalty a = r at hsame hfst ⊢
  obtain ⟨o, a'⟩ := r
  dsimp only at hsame hfst ⊢
  have hfires : ∀ c, fires force c a' = fires force c a := by
    intro c
    unfold fires
    rw [hsame.lastRtt]
  rcases hfst with ⟨rfl, hpass⟩ | ⟨rfl | rfl, hdirect, hdetained⟩
  · dsimp only
    rcases settle_cases force cost penalty a' with ⟨hqueued, heq⟩ | ⟨hfires', hidle, heq⟩
    · rw [heq]
      rw [hfires, hsame.pending] at hqueued
      exact ⟨fun h => ⟨h.2.symm, hpass, hqueued⟩, fun h => ⟨rfl, h.1.symm⟩⟩
    · rw [heq]
      rw [hfires] at hfires'
      constructor
      · intro h
        exact absurd (hidle.symm.trans h.1) (by simp)
      · rintro ⟨-, -, hyes | hyes⟩
        · exact absurd (hfires'.symm.trans hyes) (by simp)
        · exact absurd (hidle.symm.trans (hsame.pending.trans hyes)) (by simp)
  · have hstopped : ¬ (direct = true ∨ ¬ a.Detains (cost - penalty)) := by simp [hdirect, hdetained]
    simp [hstopped]
  · have hstopped : ¬ (direct = true ∨ ¬ a.Detains (cost - penalty)) := by simp [hdirect, hdetained]
    simp only [hstopped, false_and, and_false, iff_false, not_and]
    rcases settle_cases force rttInfinity penalty a' with ⟨-, heq⟩ | ⟨-, hidle, heq⟩
    · rw [heq]
      intro _ hrtt
      have hinf : rttInfinity = c := hrtt
      omega
    · rw [heq, hidle]
      simp

/-! ## What a check queues -/

namespace CheckInput

variable {i : CheckInput} {adv : Option AdvRoute}

theorem heldDown_iff {a : AdvRoute} {cost : ℤ} :
    i.heldDown a cost = true ↔ i.expected.direct = false ∧ cost < rttInfinity ∧
      rttInfinity ≤ a.lastRtt ∧ i.now - a.lastAt < poisonHolddown := by
  unfold heldDown
  rw [Bool.and_eq_true, Bool.not_eq_true', decide_eq_true_eq]
  tauto

/-- The early exits let a check pass. -/
theorem screen_go_iff : (∃ cost penalty, i.screen adv = .go cost penalty) ↔
    i.screen adv = .go i.cost i.penalty := by
  constructor
  · rintro ⟨cost, penalty, hscreen⟩
    obtain ⟨rfl, rfl, -⟩ := screen_go hscreen
    exact hscreen
  · intro hscreen
    exact ⟨_, _, hscreen⟩

/-- They let a finite cost pass. -/
theorem screen_finite (hsrc : i.expected.src.isSome = true) (hgated : i.gated = false) :
    i.screen adv = .go i.cost i.penalty ↔
      adv.elim false (fun a => i.heldDown a i.cost) = false := by
  rw [screen_eq, hgated, Option.isNone_eq_false_iff.mpr hsrc]
  cases adv.elim false (fun a => i.heldDown a i.cost) <;> simp

end CheckInput

/-- A check that goes on decides on the entry, if there is room for one. -/
theorem checkEntry_go {i : CheckInput} {force room : Bool} {k : Key} {adv : Option AdvRoute}
    (hscreen : i.screen adv = .go i.cost i.penalty) :
    checkEntry i force room k adv =
      if adv = none ∧ room = false then none
      else some (decideEntry force i.expected.direct i.cost i.penalty (adv.getD (.fresh k))) := by
  unfold checkEntry
  rw [hscreen]
  cases adv with
  | none => cases room <;> rfl
  | some a => rfl

namespace Env

variable {e : Env} {p : Slot} {k : Key} {force : Bool} {x : Peer} {c : ℤ}

/-- The check goes past its early exits, and the cost waits in the peer's entry. -/
def Queues (e : Env) (p : Slot) (k : Key) (force : Bool) (x : Peer) (c : ℤ) : Prop :=
  e.checkGate p k x = true ∧
    (∃ cost penalty, (e.checkInput p k).screen (x.adv.find k) = .go cost penalty) ∧
    ∃ a, (e.flexAdvertiseCheck p k force x).adv.find k = some a ∧ a.pending = true ∧
      a.pendingRtt = c

/-- The entry of the destination, or the one it would get. -/
def entry (x : Peer) (k : Key) : AdvRoute := (x.adv.find k).getD (.fresh k)

/-- The peer was told that the destination is gone, less than `FLEXNET_POISON_HOLDDOWN` ago. -/
def Withdrawn (e : Env) (x : Peer) (k : Key) : Prop :=
  rttInfinity ≤ (entry x k).lastRtt ∧ e.now - (entry x k).lastAt < poisonHolddown

instance (x : Peer) (k : Key) : Decidable (e.Withdrawn x k) := inferInstanceAs (Decidable (_ ∧ _))

/-- A finite cost goes into the queue. -/
structure QueuesFinite (e : Env) (p : Slot) (k : Key) (force : Bool) (x : Peer) : Prop where
  gate : e.checkGate p k x = true
  room : x.adv.find k = none → x.adv.advs.length < maxAdvertised
  finite : (e.expectedRtt p k).rtt < rttInfinity
  ownOnly : (e.linkOpts p).ownOnly = false
  splitHorizon : (e.learnedHas p k && !e.destIsOurPeer k) = false
  scope : e.cfg.advertiseDirectOnly = true → (e.expectedRtt p k).direct = true
  held : (e.expectedRtt p k).direct = true ∨ ¬ e.Withdrawn x k
  contained : (e.expectedRtt p k).direct = true ∨
    ¬ (entry x k).Detains ((e.expectedRtt p k).rtt - (e.expectedRtt p k).penalty)
  fired : fires force (e.expectedRtt p k).rtt (entry x k) = true ∨ (entry x k).pending = true

/-- The scope gates are open. -/
theorem gated_iff : (e.checkInput p k).gated = false ↔ (e.linkOpts p).ownOnly = false ∧
    (e.learnedHas p k && !e.destIsOurPeer k) = false ∧
      (e.cfg.advertiseDirectOnly = true → (e.expectedRtt p k).direct = true) := by
  unfold CheckInput.gated checkInput
  dsimp only
  rw [Bool.or_eq_false_iff, Bool.or_eq_false_iff, and_assoc]
  cases e.cfg.advertiseDirectOnly <;> cases (e.expectedRtt p k).direct <;> simp

/-- Past open gates the check goes on with the cheapest source. -/
theorem checkInput_open (hgated : (e.checkInput p k).gated = false) :
    (e.checkInput p k).cost = (e.expectedRtt p k).rtt ∧
      (e.checkInput p k).penalty = (e.expectedRtt p k).penalty := by
  have hown := (gated_iff.mp hgated).1
  refine ⟨?_, ?_⟩
  · rw [CheckInput.cost, if_neg (by simp [hgated])]
    rfl
  · rw [CheckInput.penalty, if_neg (by simp [checkInput, hown])]
    rfl

/-- Only another station's offer is held down. -/
theorem held_iff (hfin : (e.expectedRtt p k).rtt < rttInfinity)
    (hgated : (e.checkInput p k).gated = false) :
    (x.adv.find k).elim false (fun a => (e.checkInput p k).heldDown a (e.checkInput p k).cost) =
        false ↔ (e.expectedRtt p k).direct = true ∨ ¬ e.Withdrawn x k := by
  rw [(checkInput_open hgated).1, ← Bool.not_eq_true, ← not_iff_not, not_not]
  unfold Withdrawn entry
  cases hadv : x.adv.find k with
  | none => simp [AdvRoute.fresh, rttInfinity]
  | some a =>
      rw [Option.elim_some, Option.getD_some, CheckInput.heldDown_iff]
      change ((e.expectedRtt p k).direct = false ∧ _ ∧ _ ∧ e.now - _ < _) ↔ _
      simp [hfin]

/-- The entry of a check that goes on. -/
theorem find_check_go {a : AdvRoute} (hgate : e.checkGate p k x = true)
    (hscreen : (e.checkInput p k).screen (x.adv.find k) =
      .go (e.checkInput p k).cost (e.checkInput p k).penalty) :
    (e.flexAdvertiseCheck p k force x).adv.find k = some a ↔
      (x.adv.find k = none → x.adv.advs.length < maxAdvertised) ∧
        decideEntry force (e.expectedRtt p k).direct (e.checkInput p k).cost
          (e.checkInput p k).penalty (entry x k) = a := by
  rw [find_check_self hgate, checkEntry_go hscreen]
  by_cases hfull : x.adv.find k = none ∧ decide (x.adv.advs.length < maxAdvertised) = false
  · rw [if_pos hfull]
    have hnot : ¬ (x.adv.find k = none → x.adv.advs.length < maxAdvertised) := by
      intro hroom
      simp [hroom hfull.1] at hfull
    simp [hnot]
  · have hroom : x.adv.find k = none → x.adv.advs.length < maxAdvertised := by
      intro hnone
      by_contra hlt
      exact hfull ⟨hnone, by simpa using hlt⟩
    rw [if_neg hfull, Option.some.injEq]
    exact ⟨fun h => ⟨hroom, h⟩, fun h => h.2⟩

/-- The sentinel is not a finite cost. -/
theorem not_queues_sentinel (hcost : (e.checkInput p k).cost = rttInfinity) (hc : c < rttInfinity) :
    ¬ e.Queues p k force x c := by
  rintro ⟨hgate, hscreen, a, hfind, hpending, hrtt⟩
  obtain ⟨-, rfl⟩ := (find_check_go hgate (CheckInput.screen_go_iff.mp hscreen)).mp hfind
  rw [hcost] at hpending hrtt
  rcases decideEntry_cases force (e.expectedRtt p k).direct rttInfinity (e.checkInput p k).penalty
    (entry x k) checkInput_penalty with ⟨-, heq⟩ | ⟨-, hfin, -⟩ | ⟨-, hfin, -⟩ | ⟨-, hfin, -⟩
  · rw [heq] at hpending hrtt
    rcases settle_cases force rttInfinity (e.checkInput p k).penalty (entry x k) with
      ⟨-, hsettle⟩ | ⟨-, hidle, hsettle⟩
    · rw [hsettle] at hrtt
      have hinf : rttInfinity = c := hrtt
      omega
    · rw [hsettle, hidle] at hpending
      cases hpending
  all_goals omega

/-- A finite cost that is queued is that of the cheapest source. -/
theorem queues_iff (hc : c < rttInfinity) :
    e.Queues p k force x c ↔ c = (e.expectedRtt p k).rtt ∧ e.QueuesFinite p k force x := by
  by_cases hopen : (e.checkInput p k).cost = rttInfinity
  · refine ⟨fun h => absurd h (not_queues_sentinel hopen hc), fun ⟨_, h⟩ => ?_⟩
    have hgated := gated_iff.mpr ⟨h.ownOnly, h.splitHorizon, h.scope⟩
    have hfin := h.finite
    rw [(checkInput_open hgated).1] at hopen
    omega
  · obtain ⟨hgated, hsrc⟩ := not_or.mp (checkInput_cost_eq.not.mp hopen)
    rw [Bool.not_eq_true] at hgated
    have hsome : (e.checkInput p k).expected.src.isSome = true := Option.isSome_iff_ne_none.mpr hsrc
    have hfin : (e.expectedRtt p k).rtt < rttInfinity :=
      expectedRtt_lt_iff.mpr (expectedRtt_src_isSome.mp hsome)
    obtain ⟨hcost, hpen⟩ := checkInput_open hgated
    obtain ⟨hown, hsplit, hscope⟩ := gated_iff.mp hgated
    have hscreen : (e.checkInput p k).screen (x.adv.find k) =
        .go (e.checkInput p k).cost (e.checkInput p k).penalty ↔
        (e.expectedRtt p k).direct = true ∨ ¬ e.Withdrawn x k :=
      (CheckInput.screen_finite hsome hgated).trans (held_iff hfin hgated)
    have hqueued := @decideEntry_queued force (e.expectedRtt p k).direct _ _ c (entry x k)
      (expectedRtt_bounds (e := e) (p := p) (k := k)).1 hfin hc
    unfold Queues
    rw [CheckInput.screen_go_iff]
    constructor
    · rintro ⟨hgate, hgo, a, hfind, hwaits⟩
      obtain ⟨hroom, rfl⟩ := (find_check_go hgate hgo).mp hfind
      rw [hcost, hpen] at hwaits
      obtain ⟨hsame, hcontained, hfired⟩ := hqueued.mp hwaits
      exact ⟨hsame, hgate, hroom, hfin, hown, hsplit, hscope, hscreen.mp hgo, hcontained, hfired⟩
    · rintro ⟨hsame, h⟩
      have hgo := hscreen.mpr h.held
      refine ⟨h.gate, hgo, _, (find_check_go h.gate hgo).mpr ⟨h.room, rfl⟩, ?_⟩
      rw [hcost, hpen]
      exact hqueued.mpr ⟨hsame, h.contained, h.fired⟩

/-! ## With and without options -/

/-- Nothing waits for the peer, and what it was last told is below the cost and close enough to the
one without options. -/
def AlreadyTold (e : Env) (p : Slot) (k : Key) (force : Bool) (x : Peer) (c : ℤ) : Prop :=
  force = false ∧ (entry x k).pending = false ∧ 0 ≤ (entry x k).lastRtt ∧ (entry x k).lastRtt < c ∧
    costDelta (entry x k).lastRtt (e.unrestricted.expectedRtt p k).rtt <
      refreshThreshold (entry x k).lastRtt

/-- The options leave a direct neighbour's entry as the cheapest source, and the cheaper one of
another station is stopped: by the scope gate, by the hold-down or by the detector. -/
def Hearsay (e : Env) (p : Slot) (k : Key) (x : Peer) : Prop :=
  (e.expectedRtt p k).direct = true ∧ (e.unrestricted.expectedRtt p k).direct = false ∧
    (e.cfg.advertiseDirectOnly = true ∨ e.Withdrawn x k ∨
      (entry x k).Detains (e.unrestricted.expectedRtt p k).rtt)

/-- A cost that is worth a frame, and below the last one or too far above what the peer needs to
hear again. -/
theorem alreadyTold_of_quiet (hle : (e.unrestricted.expectedRtt p k).rtt ≤ c)
    (hfired : fires force c (entry x k) = true)
    (hquiet : fires force (e.unrestricted.expectedRtt p k).rtt (entry x k) = false)
    (hidle : (entry x k).pending = false) : e.AlreadyTold p k force x c := by
  obtain ⟨htold, hforce, hdelta⟩ := fires_eq_false.mp hquiet
  have hfar : ¬ costDelta (entry x k).lastRtt c < refreshThreshold (entry x k).lastRtt := by
    intro hnear
    rw [fires_eq_false.mpr ⟨htold, hforce, hnear⟩] at hfired
    cases hfired
  refine ⟨hforce, hidle, htold, ?_, hdelta⟩
  by_contra hnot
  unfold costDelta at hdelta hfar
  split_ifs at hdelta hfar <;> omega

/-- Where the node queues a finite cost, it would know one that is no higher without options on any
link, and would queue it, unless the peer has been told as much or the cheaper source is one that
may not be passed on. -/
theorem options_narrow (hq : e.Queues p k force x c) (hc : c < rttInfinity) :
    (e.unrestricted.expectedRtt p k).rtt ≤ c ∧
      ((∃ c' ≤ c, e.unrestricted.Queues p k force x c') ↔
        ¬ e.AlreadyTold p k force x c ∧ ¬ e.Hearsay p k x) := by
  obtain ⟨rfl, h⟩ := (queues_iff hc).mp hq
  have hraw := expectedRtt_unrestricted_le h.finite
  have hpen : 0 ≤ (e.expectedRtt p k).penalty := expectedRtt_bounds.1
  have hle : (e.unrestricted.expectedRtt p k).rtt ≤ (e.expectedRtt p k).rtt := by omega
  have hfin := hle.trans_lt h.finite
  have hnopen := expectedRtt_unrestricted_penalty (e := e) (p := p) (k := k)
  refine ⟨hle, ⟨?_, ?_⟩⟩
  · rintro ⟨c', hle', hq'⟩
    obtain ⟨-, h'⟩ := (queues_iff (hle'.trans_lt hc)).mp hq'
    constructor
    · rintro ⟨hforce, hidle, htold, -, hdelta⟩
      rcases h'.fired with hfired | hpending
      · rw [fires_eq_false.mpr ⟨htold, hforce, hdelta⟩] at hfired
        cases hfired
      · rw [hidle] at hpending
        cases hpending
    · rintro ⟨-, hother, hstopped⟩
      have hindirect : ¬ (e.unrestricted.expectedRtt p k).direct = true := by simp [hother]
      rcases hstopped with hscope | hheld | hdetained
      · exact hindirect (h'.scope hscope)
      · exact h'.held.resolve_left hindirect hheld
      · have hcontained := h'.contained.resolve_left hindirect
        rw [hnopen, sub_zero] at hcontained
        exact hcontained hdetained
  · rintro ⟨htold, hhearsay⟩
    -- an entry of another station that is stopped without options was stopped with them
    have hstopped : (e.unrestricted.expectedRtt p k).direct = false →
        (e.expectedRtt p k).direct = true →
        ¬ (e.cfg.advertiseDirectOnly = true ∨ e.Withdrawn x k ∨
          (entry x k).Detains (e.unrestricted.expectedRtt p k).rtt) := by
      intro hother hdirect hstop
      exact hhearsay ⟨hdirect, hother, hstop⟩
    refine ⟨_, hle, (queues_iff hfin).mpr ⟨rfl, ?_⟩⟩
    constructor
    · exact h.gate
    · exact h.room
    · exact hfin
    · rfl
    · exact h.splitHorizon
    · intro hscope
      by_contra hother
      rw [Bool.not_eq_true] at hother
      exact hstopped hother (h.scope hscope) (.inl hscope)
    · by_contra hboth
      obtain ⟨hother, hheld⟩ := not_or.mp hboth
      rw [Bool.not_eq_true] at hother
      rw [not_not] at hheld
      have hdirect := h.held.resolve_right (not_not.mpr hheld)
      exact hstopped hother hdirect (.inr (.inl hheld))
    · rw [hnopen, sub_zero]
      by_contra hboth
      obtain ⟨hother, hdetained⟩ := not_or.mp hboth
      rw [Bool.not_eq_true] at hother
      rw [not_not] at hdetained
      have hdirect := h.contained.resolve_right (not_not.mpr (hdetained.mono hraw))
      exact hstopped hother hdirect (.inr (.inr hdetained))
    · by_contra hboth
      obtain ⟨hquiet, hidle⟩ := not_or.mp hboth
      rw [Bool.not_eq_true] at hquiet hidle
      have hfired := h.fired.resolve_right (by simp [hidle])
      exact htold (alreadyTold_of_quiet hle hfired hquiet hidle)

end Env

namespace Bench

/-- With forwarding off, `C` in row 2 is our neighbour, and `A` teaches it as well. -/
def unforwarded : Env :=
  ((Node.boot { config false with l2Transit := false } [] []
    (fun l => if l = 2 then row (addr 0x43) else links l) 1000).after
      [.initSession 0 1, .initSession 1 1, .initSession 2 1,
        .processCE 2 [0x30, 0x30, 0x25, 0x21, 0x0D], record 0 0x43 1]).toEnv

/-- What is behind `A` is not offered. -/
def behindA : Env :=
  { unforwarded with linkOpts := Function.update (fun _ => {}) slotA { noBehind := true } }

/-- `A` teaches `K`, at a penalty. -/
def penaltyA : Env :=
  { ((node false).after [record 0 0x4B 10]).toEnv with
    linkOpts := Function.update (fun _ => {}) slotA { penalty := true } }

/-- `B` has been told `K` at 12. -/
def toldTwelve : Peer := { adv := { advs := [{ key := dest 0x4B, lastRtt := 12 }] } }

/-- `C` is offered to `B` from its own entry. -/
theorem behindA_queues : behindA.Queues slotB (dest 0x43) false {} 3 := by
  refine (Env.queues_iff (by decide)).mpr ⟨by decide +kernel, ?_⟩
  constructor <;> decide +kernel

/-- `K` is offered to `B` again, 2000 dearer. -/
theorem penaltyA_queues : penaltyA.Queues slotB (dest 0x4B) false toldTwelve 2012 := by
  refine (Env.queues_iff (by decide)).mpr ⟨by decide +kernel, ?_⟩
  constructor <;> decide +kernel

theorem options_narrow_penaltyA :
    (penaltyA.unrestricted.expectedRtt slotB (dest 0x4B)).rtt ≤ 2012 ∧
      ((∃ c' ≤ 2012, penaltyA.unrestricted.Queues slotB (dest 0x4B) false toldTwelve c') ↔
        ¬ penaltyA.AlreadyTold slotB (dest 0x4B) false toldTwelve 2012 ∧
          ¬ penaltyA.Hearsay slotB (dest 0x4B) toldTwelve) :=
  Env.options_narrow penaltyA_queues (by decide)

/-- Without options `A` is the cheapest source of `C`, and is out of scope; and `B` is not told
again what it knows of `K`. -/
theorem options_not_narrow :
    (behindA.Queues slotB (dest 0x43) false {} 3 ∧
      ¬ ∃ c < rttInfinity, behindA.unrestricted.Queues slotB (dest 0x43) false {} c) ∧
    penaltyA.Queues slotB (dest 0x4B) false toldTwelve 2012 ∧
      ¬ ∃ c < rttInfinity, penaltyA.unrestricted.Queues slotB (dest 0x4B) false toldTwelve c := by
  refine ⟨⟨behindA_queues, ?_⟩, penaltyA_queues, ?_⟩
  · rintro ⟨c, hc, hq⟩
    have hscope := ((Env.queues_iff hc).mp hq).2.scope (by decide +kernel)
    exact absurd hscope (by decide +kernel)
  · rintro ⟨c, hc, hq⟩
    have hfired := ((Env.queues_iff hc).mp hq).2.fired
    exact absurd hfired (by decide +kernel)

end Bench

end FlexNet
