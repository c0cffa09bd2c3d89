import FlexNet.Advert.Steps
import FlexNet.Node.Events

/-!
# The poison hold-down

For `FLEXNET_POISON_HOLDDOWN` seconds after a withdrawal was sent, a finite cost for its
destination can be queued only by a check that found a direct neighbour as its cheapest source.
Once such a cost is sent, the withdrawal is not the last word any more and the hold-down is over:
a cost from another source may follow within the same seconds.
-/

namespace FlexNet

open Runs AdvRoute

/-- A check that goes on with the sentinel queues no other cost. -/
theorem decideEntry_sentinel {force direct : Bool} {cost penalty : ℤ} {a : AdvRoute}
    (hpen : 0 ≤ penalty) (hcost : rttInfinity ≤ cost)
    (hq : (decideEntry force direct cost penalty a).pending = true) :
    (decideEntry force direct cost penalty a).pendingRtt = cost := by
  rcases decideEntry_cases force direct cost penalty a hpen with ⟨-, h⟩ | ⟨-, hfin, -⟩ |
      ⟨-, hfin, -⟩ | ⟨-, hfin, -⟩
  · rw [h] at hq ⊢
    rcases settle_cases force cost penalty a with ⟨-, hs⟩ | ⟨-, hidle, hs⟩ <;> rw [hs] at hq ⊢
    · rfl
    · rw [hidle] at hq
      cases hq
  all_goals omega

namespace View

variable {p : Slot} {v w : View} {k : Key}

/-! ## Who queued a cost -/

/-- The act is a check of `k` that gets past the exits which leave the entry alone.  When the
entry is queued, the last such check queued it. -/
def Decides (p : Slot) (v : View) (k : Key) : PeerAct → Prop
  | .check k' _ => k' = k ∧ v.env.checkGate p k v.peer = true ∧
    (v.input p k).screen (v.peer.adv.find k) ≠ .leave
  | _ => False

instance (act : PeerAct) : Decidable (v.Decides p k act) :=
  match act with
  | .check _ _ => inferInstanceAs (Decidable (_ ∧ _ ∧ _))
  | .tables _ _ | .rename _ | .refill | .emit | .close _ | .owe | .clear | .release
  | .send _ _ => instDecidableFalse

/-- A step of the machine that keeps what the last check to decide on `k` read. -/
def witnessed (p : Slot) (k : Key) (s : View × Option CheckInput) (act : PeerAct) :
    View × Option CheckInput :=
  (s.1.apply p act, if s.1.Decides p k act then some (s.1.input p k) else s.2)

/-- What the check read that queued the cost for `k`, in a run from `v`. -/
def queuer (p : Slot) (k : Key) (v : View) (acts : List PeerAct) : Option CheckInput :=
  (acts.foldl (witnessed p k) (v, none)).2

theorem foldl_witnessed (p : Slot) (k : Key) (s : View × Option CheckInput) (acts : List PeerAct) :
    (acts.foldl (witnessed p k) s).1 = acts.foldl (View.apply p) s.1 := by
  induction acts generalizing s with
  | nil => rfl
  | cons act acts ih => exact ih (witnessed p k s act)

theorem queuer_concat {acts : List PeerAct} {act : PeerAct} :
    queuer p k v (acts ++ [act]) =
      if (acts.foldl (View.apply p) v).Decides p k act then
        some ((acts.foldl (View.apply p) v).input p k)
      else queuer p k v acts := by
  rw [queuer, List.foldl_append, List.foldl_cons, List.foldl_nil, witnessed, foldl_witnessed]
  rfl

/-- The queued cost for `k` is the decision of a check that found a direct neighbour as the
cheapest source. -/
def QueuedDirect (p : Slot) (k : Key) (v : View) (acts : List PeerAct) : Prop :=
  ∃ i, queuer p k v acts = some i ∧ i.expected.direct = true

/-- The next frame turn sends `k` at the cost `c`. -/
def Sends (p : Slot) (v : View) (k : Key) (c : ℤ) : Prop :=
  ∃ a, v.peer.adv.find k = some a ∧ a.pending = true ∧ a.pendingRtt = c ∧
    (v.apply p .emit).peer.adv.find k = some (a.commit v.env.now)

/-- A finite cost for `k` from a direct neighbour was sent on the way. -/
def DirectSent (p : Slot) (k : Key) (v : View) (acts : List PeerAct) : Prop :=
  ∃ done rest c, acts = done ++ .emit :: rest ∧ c < rttInfinity ∧
    (done.foldl (View.apply p) v).Sends p k c ∧ QueuedDirect p k v done

theorem DirectSent.concat {acts : List PeerAct} {act : PeerAct} (h : DirectSent p k v acts) :
    DirectSent p k v (acts ++ [act]) := by
  obtain ⟨done, rest, c, rfl, hc, hsends, hdirect⟩ := h
  exact ⟨done, rest ++ [act], c, by simp, hc, hsends, hdirect⟩

/-! ## One act -/

/-- What one act makes of the entry of `k`. -/
theorem find_apply {a : AdvRoute} {act : PeerAct} (hs : v.peer.adv.Sound)
    (ha : v.peer.adv.find k = some a) (hclear : act ≠ .clear) :
    ((v.apply p act).peer.adv.find k = some a ∧ ¬ v.Decides p k act) ∨
    (∃ force room b, act = .check k force ∧ v.Decides p k act ∧
      checkEntry (v.input p k) force room k (some a) = some b ∧
      (v.apply p act).peer.adv.find k = some b) ∨
    (act = .emit ∧ a.pending = true ∧
      (v.apply p act).peer.adv.find k = some (a.commit v.env.now)) := by
  cases act with
  | check k' force =>
      by_cases hk : k' = k
      · subst hk
        cases hgate : v.env.checkGate p k' v.peer with
        | false =>
            refine .inl ⟨?_, fun h => ?_⟩
            · simpa [apply, Env.flexAdvertiseCheck, hgate] using ha
            · rw [Decides, hgate] at h
              cases h.2.1
        | true =>
            have hfind := @Env.find_check_self _ _ _ force _ hgate
            rw [ha] at hfind
            by_cases hleave : (v.input p k').screen (some a) = .leave
            · refine .inl ⟨?_, fun h => h.2.2 (ha ▸ hleave)⟩
              rw [apply, hfind]
              unfold checkEntry
              rw [hleave]
            · obtain ⟨b, hb⟩ : ∃ b, checkEntry (v.input p k') force
                  (decide (v.peer.adv.advs.length < maxAdvertised)) k' (some a) = some b := by
                unfold checkEntry
                cases (v.input p k').screen (some a) with
                | leave => exact ⟨a, rfl⟩
                | unqueue => exact ⟨_, rfl⟩
                | go cost penalty => exact ⟨_, rfl⟩
              exact .inr (.inl ⟨force, _, b, rfl, ⟨rfl, hgate, ha ▸ hleave⟩, hb, hfind.trans hb⟩)
      · refine .inl ⟨?_, fun h => hk h.1⟩
        rcases v.env.flexAdvertiseCheck_cases p k' force v.peer with h | ⟨b, h, hb, -⟩ <;>
          rw [apply, h]
        · exact ha
        · exact (AdvertisedState.find_put_of_ne fun hkb => hk (hkb.trans hb).symm).trans ha
  | emit =>
      rcases v.env.emitFrame_cases p (v.isPcf p) hs with
        ⟨-, heq⟩ | ⟨picks, st, -, -, hpacked, heq⟩
      · refine .inl ⟨?_, id⟩
        rw [apply, heq]
        exact ha
      · have hfind : (v.apply p .emit).peer.adv.find k =
            some (if a ∈ picks then a.commit v.env.now else a) := by
          rw [apply, heq]
          exact (hpacked.find k).trans (by rw [ha]; rfl)
        by_cases hpick : a ∈ picks
        · rw [if_pos hpick] at hfind
          exact .inr (.inr ⟨rfl, (hpacked.picked a hpick).2, hfind⟩)
        · rw [if_neg hpick] at hfind
          exact .inl ⟨hfind, id⟩
  | clear => exact absurd rfl hclear
  | refill => exact .inl ⟨by rw [apply, AdvertisedState.find_refill]; exact ha, id⟩
  | close frames =>
      refine .inl ⟨?_, id⟩
      rw [apply, AdvertisedState.find, drainEob_advs]
      exact ha
  | tables | rename | owe | release | send => exact .inl ⟨ha, id⟩

/-! ## Runs -/

/-- The withdrawal of `k` sent at `t` stands: nothing else was sent since, and what is queued is a
withdrawal or the decision of a check with a direct source. -/
structure Held (t : ℤ) (a : AdvRoute) (o : Option CheckInput) : Prop where
  sent : rttInfinity ≤ a.lastRtt
  since : t ≤ a.lastAt
  queued : a.pending = true → a.pendingRtt < rttInfinity →
    ∃ i, o = some i ∧ i.expected.direct = true

/-- Within the hold-down a check leaves the withdrawal standing. -/
theorem Held.check {t : ℤ} {a b : AdvRoute} {o : Option CheckInput} {i : CheckInput}
    {force room : Bool} (ha : Held t a o) (hpen : 0 ≤ i.penalty) (hnow : i.now < t + poisonHolddown)
    (hleave : i.screen (some a) ≠ .leave) (hb : checkEntry i force room k (some a) = some b) :
    Held t b (some i) := by
  unfold checkEntry at hb
  rcases hscreen : i.screen (some a) with _ | _ | ⟨cost, penalty⟩
  · exact absurd hscreen hleave
  · rw [hscreen] at hb
    obtain rfl := Option.some.inj hb
    exact ⟨ha.sent, ha.since, fun hq => by cases hq⟩
  · rw [hscreen] at hb
    obtain rfl := Option.some.inj hb
    obtain ⟨rfl, rfl, -, -, hheld⟩ := CheckInput.screen_go hscreen
    refine ⟨?_, ?_, fun hq hfin => ⟨i, rfl, ?_⟩⟩
    · rw [decideEntry_lastRtt hpen]
      exact ha.sent
    · rw [decideEntry_lastAt hpen]
      exact ha.since
    · -- a finite cost from elsewhere would have been held down
      by_contra hdirect
      have hinf : rttInfinity ≤ i.cost := by
        by_contra hcost
        have hsent := ha.sent
        have hsince := ha.since
        simp only [Option.elim_some, CheckInput.heldDown, Bool.not_eq_true _ ▸ hdirect,
          Bool.not_false, Bool.true_and, decide_eq_false_iff_not] at hheld
        omega
      rw [decideEntry_sentinel hpen hinf hq] at hfin
      omega

/-- What holds of `k` in a run from the moment `t` its withdrawal was sent. -/
structure HeldSince (p : Slot) (k : Key) (t : ℤ) (w v : View) (acts : List PeerAct) : Prop where
  sound : v.peer.adv.Sound
  clock : t ≤ v.env.now
  held : v.env.now < t + poisonHolddown → DirectSent p k w acts ∨
    ∃ a, v.peer.adv.find k = some a ∧ Held t a (queuer p k w acts)

theorem now_apply {act : PeerAct} (hl : v.Legal p act) : v.env.now ≤ (v.apply p act).env.now := by
  cases act with
  | tables e due => exact hl.2.1
  | rename e => exact hl.1.now.ge
  | _ => exact le_rfl

theorem heldSince_apply {t : ℤ} {acts : List PeerAct} {act : PeerAct}
    (hv : v = acts.foldl (View.apply p) w) (h : HeldSince p k t w v acts) (hl : v.Legal p act)
    (hclear : act ≠ .clear) : HeldSince p k t w (v.apply p act) (acts ++ [act]) where
  sound := sound_apply h.sound act
  clock := h.clock.trans (now_apply hl)
  held := by
    intro hnow
    have hnow' : v.env.now < t + poisonHolddown := (now_apply hl).trans_lt hnow
    rcases h.held hnow' with hsent | ⟨a, ha, hheld⟩
    · exact .inl hsent.concat
    · rcases find_apply h.sound ha hclear with ⟨hfind, hdec⟩ |
        ⟨force, room, b, rfl, hdec, hb, hfind⟩ | ⟨rfl, hq, hfind⟩
      · refine .inr ⟨a, hfind, ?_⟩
        rw [queuer_concat, ← hv, if_neg hdec]
        exact hheld
      · refine .inr ⟨b, hfind, ?_⟩
        rw [queuer_concat, ← hv, if_pos hdec]
        exact hheld.check Env.checkInput_penalty hnow' (ha ▸ hdec.2.2) hb
      · -- the queued record leaves: a direct one ends the hold-down, another is a withdrawal
        by_cases hfin : a.pendingRtt < rttInfinity
        · refine .inl ⟨acts, [], a.pendingRtt, rfl, hfin, ?_, hheld.queued hq hfin⟩
          rw [← hv]
          exact ⟨a, ha, hq, rfl, hfind⟩
        · exact .inr ⟨a.commit v.env.now, hfind, not_lt.mp hfin, h.clock, fun hq' => by cases hq'⟩

/-- The invariant holds in every state of the run after the withdrawal was sent. -/
theorem heldSince_run {acts : List PeerAct} (hsound : w.peer.adv.Sound)
    (hsent : w.Sends p k rttInfinity)
    (hrun : GuardedRun (View.apply p) (fun v act => v.Legal p act ∧ act ≠ .clear) (w.apply p .emit)
      acts v) : HeldSince p k w.env.now (w.apply p .emit) v acts := by
  obtain ⟨a, -, -, hinf, hfind⟩ := hsent
  induction hrun with
  | start =>
      refine ⟨sound_apply hsound .emit, le_rfl, fun _ => .inr ⟨_, hfind, hinf.ge, le_rfl, ?_⟩⟩
      intro hq
      cases hq
  | step act hprev hok ih => exact heldSince_apply hprev.eq_foldl ih hok.1 hok.2

/-- In every run of the machine: between a frame turn that sends the withdrawal of `k` and
`FLEXNET_POISON_HOLDDOWN` seconds later, the table not being cleared, a finite cost for `k` is sent
only if the check that queued it found a direct neighbour as the cheapest source, or after a cost
that was. -/
theorem withdrawal_held {e : Env} {acts acts' : List PeerAct} {cost : ℤ}
    (hrun : PeerRun p (start e) acts w) (hsent : w.Sends p k rttInfinity)
    (hrun' : GuardedRun (View.apply p) (fun v act => v.Legal p act ∧ act ≠ .clear) (w.apply p .emit)
      acts' v) (hnow : v.env.now < w.env.now + poisonHolddown) (hcost : cost < rttInfinity)
    (hsends : v.Sends p k cost) :
    QueuedDirect p k (w.apply p .emit) acts' ∨ DirectSent p k (w.apply p .emit) acts' := by
  have hsound : w.peer.adv.Sound := hrun.invariant (I := fun v : View => v.peer.adv.Sound)
    (fun _ act hs _ => sound_apply hs act) .empty
  have hinv := heldSince_run hsound hsent hrun'
  rcases hinv.held hnow with hdirect | ⟨a, ha, hheld⟩
  · exact .inr hdirect
  · obtain ⟨b, hb, hq, hbcost, -⟩ := hsends
    obtain rfl : b = a := Option.some.inj (hb.symm.trans ha)
    exact .inl (hheld.queued hq (hbcost ▸ hcost))

/-! ### A neighbour that comes and goes -/

open Bench

instance (c : ℤ) : Decidable (v.Sends p k c) :=
  match h : v.peer.adv.find k with
  | none => .isFalse fun ⟨a, ha, _⟩ => by simp [h] at ha
  | some a => decidable_of_iff
      (a.pending = true ∧ a.pendingRtt = c ∧
        (v.apply p .emit).peer.adv.find k = some (a.commit v.env.now))
      ⟨fun hsends => ⟨a, h, hsends⟩, fun ⟨b, hb, hsends⟩ => by
        obtain rfl : a = b := Option.some.inj (h.symm.trans hb)
        exact hsends⟩

/-- The node with a third station, `C`, in row 2. -/
def threeNode : Node :=
  (Node.boot (config false) [] []
    (fun l => if l = 2 then row (addr 0x43) else links l) 1000).after
      [.initSession 0 1, .initSession 1 1, .initSession 2 1]

/-- `A`'s INIT. -/
def initFromA : Event := .processCE 0 [0x30, 0x30, 0x25, 0x21, 0x0D]

/-- `A` is our neighbour, goes away, comes back ten seconds later, while `C` teaches it too, and
goes away again after ten seconds. -/
def flap : List Event :=
  [initFromA, .closeSession 0, .clock 10 0, .initSession 0 1, initFromA, record 2 0x41 5,
    .clock 10 0, .closeSession 0]

/-- The tables after the first events of `flap`. -/
def flapEnv (n : ℕ) : Env := (threeNode.after (flap.take n)).toEnv

/-- What `B` is told of `A` at first, up to the withdrawal. -/
def flapDown : View :=
  [PeerAct.check (dest 0x41) false, .emit, .tables (flapEnv 2) [dest 0x41],
    .check (dest 0x41) false].foldl (View.apply slotB) (start (flapEnv 1))

/-- And from then on. -/
def flapAgain : List PeerAct :=
  [.tables (flapEnv 6) [dest 0x41], .check (dest 0x41) false, .emit,
    .tables (flapEnv 8) [dest 0x41, dest 0x43], .check (dest 0x41) false,
    .check (dest 0x43) false]

theorem legal_flap {n : ℕ} {e : Env} {due : List Key} (hv : v.env = e)
    (hcfg : (flapEnv n).cfg = e.cfg)
    (hnow : e.now ≤ (flapEnv n).now)
    (hup : ((flapEnv n).sessions slotB).link.isSome = true ∧ (e.sessions slotB).active = true)
    (hkeys : ∀ s, ∀ lr ∈ (e.learned s).routes, lr.key ∈ due) :
    v.Legal slotB (.tables (flapEnv n) due) := by
  subst hv
  exact ⟨hcfg, hnow, fun _ => hup.1, fun _ _ => .inr ⟨hup.2, keepsSources_of_keys hkeys⟩⟩

set_option maxRecDepth 10000 in
theorem flapDown_run : PeerRun slotB (start (flapEnv 1))
    [.check (dest 0x41) false, .emit, .tables (flapEnv 2) [dest 0x41], .check (dest 0x41) false]
    flapDown := by
  refine .of_chain ⟨trivial, rfl, ?_, trivial, trivial⟩
  exact legal_flap (e := flapEnv 1) rfl rfl (by decide +kernel) (by decide +kernel)
    (by decide +kernel)

set_option maxRecDepth 10000 in
theorem flapAgain_run :
    GuardedRun (View.apply slotB) (fun v act => v.Legal slotB act ∧ act ≠ .clear)
      (flapDown.apply slotB .emit) flapAgain
      (flapAgain.foldl (View.apply slotB) (flapDown.apply slotB .emit)) := by
  refine .of_chain ⟨⟨?_, nofun⟩, ⟨trivial, nofun⟩, ⟨rfl, nofun⟩, ⟨?_, nofun⟩,
    ⟨trivial, nofun⟩, ⟨trivial, nofun⟩, trivial⟩
  · exact legal_flap (e := flapEnv 2) rfl rfl (by decide +kernel) (by decide +kernel)
      (by decide +kernel)
  · exact legal_flap (e := flapEnv 6) rfl rfl (by decide +kernel) (by decide +kernel)
      (by decide +kernel)

set_option maxRecDepth 10000 in
/-- `B` is told `A`'s own return, and then `C`'s cost. -/
theorem withdrawal_held_flap :
    QueuedDirect slotB (dest 0x41) (flapDown.apply slotB .emit) flapAgain ∨
      DirectSent slotB (dest 0x41) (flapDown.apply slotB .emit) flapAgain :=
  @withdrawal_held _ _ _ _ _ _ _ 7 flapDown_run (by decide +kernel)
    flapAgain_run (by decide +kernel)
    (by decide) (by decide +kernel)

set_option maxRecDepth 10000 in
/-- Not every finite cost sent in the hold-down comes from a direct neighbour. -/
theorem withdrawal_not_held :
    ¬ ∀ (p : Slot) (k : Key) (e : Env) (acts acts' : List PeerAct) (w v : View) (cost : ℤ),
      PeerRun p (start e) acts w → w.Sends p k rttInfinity →
      GuardedRun (View.apply p) (fun v act => v.Legal p act ∧ act ≠ .clear) (w.apply p .emit)
        acts' v →
      v.env.now < w.env.now + poisonHolddown → cost < rttInfinity → v.Sends p k cost →
      QueuedDirect p k (w.apply p .emit) acts' := by
  intro hall
  obtain ⟨i, hi, hdirect⟩ := hall slotB (dest 0x41) _ _ _ _ _ 7 flapDown_run (by decide +kernel)
    flapAgain_run (by decide +kernel) (by decide) (by decide +kernel)
  have hother : (queuer slotB (dest 0x41) (flapDown.apply slotB .emit) flapAgain).elim false
      (fun i => i.expected.direct) = false := by decide +kernel
  rw [hi, Option.elim_some, hdirect] at hother
  cases hother

end View

end FlexNet
