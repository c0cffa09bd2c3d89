import FlexNet.Exchange.Reseed
import FlexNet.Advert.HoldDown

/-!
# What a peer has been told again

A table that was cleared is filled again by checks, walks and drains in any order.  After a walk the
entry of every destination that may be told is queued with a cost or was sent one; short of that it
is latched as looping, or a withdrawal was sent of it (`AdvRoute.Retold`).  What was sent was sent
since the table was cleared (`View.SentSince`).
-/

namespace FlexNet

open Runs

/-! ## One entry -/

/-- The peer holds a cost or is about to; or the entry is latched, or its withdrawal was sent. -/
def AdvRoute.Retold (a : AdvRoute) : Prop :=
  a.FiniteTold ∨ a.looping = true ∨ rttInfinity ≤ a.lastRtt

instance (a : AdvRoute) : Decidable a.Retold := inferInstanceAs (Decidable (_ ∨ _))

/-- The threshold is passed, or a cost was sent before. -/
theorem retold_settle {force : Bool} {cost penalty : ℤ} {a : AdvRoute} (hcost : 0 ≤ cost)
    (hfinite : cost < rttInfinity) : (settle force cost penalty a).Retold := by
  rcases settle_cases force cost penalty a with ⟨-, h⟩ | ⟨hfires, hidle, h⟩ <;> rw [h]
  · exact .inl ((AdvRoute.finiteTold_of_pending rfl).mpr ⟨hcost, hfinite⟩)
  · have hsent : 0 ≤ a.lastRtt := by
      by_contra hnever
      simp [fires, hnever] at hfires
    by_cases hinf : rttInfinity ≤ a.lastRtt
    · exact .inr (.inr hinf)
    · refine .inl ((AdvRoute.finiteTold_of_not_pending hidle).mpr ?_)
      exact AdvRoute.toldFinite_iff.mpr ⟨hsent, not_le.mp hinf⟩

theorem retold_decideEntry {force direct : Bool} {cost penalty : ℤ} {a : AdvRoute}
    (hcost : 0 ≤ cost)
    (hfinite : cost < rttInfinity) (hpen : 0 ≤ penalty) :
    (decideEntry force direct cost penalty a).Retold := by
  rcases decideEntry_cases force direct cost penalty a hpen with ⟨-, h⟩ | ⟨-, -, hloop, -, h⟩ |
      ⟨-, -, -, -, a', -, hloop, h⟩ | ⟨-, -, -, a', -, -, h⟩ <;> rw [h]
  · exact retold_settle hcost hfinite
  · split_ifs
    · exact .inr (.inl (settle_looping.trans hloop))
    · exact .inr (.inl hloop)
  · exact .inr (.inl (settle_looping.trans hloop))
  · exact retold_settle hcost hfinite

/-- A check of a destination that no gate is shut for. -/
theorem retold_checkEntry {i : CheckInput} {force room : Bool} {k : Key} {adv : Option AdvRoute}
    {b : AdvRoute} (hgated : i.gated = false) (hsrc : i.expected.src.isSome = true)
    (hcost : 0 ≤ i.cost) (hfinite : i.cost < rttInfinity) (hpen : 0 ≤ i.penalty)
    (h : checkEntry i force room k adv = some b) : b.Retold := by
  rcases checkEntry_cases h with ⟨-, -, -, hshut | hnone⟩ | ⟨a, -, rfl, hdown⟩ | ⟨rfl, -⟩
  · simp [hgated] at hshut
  · simp [hnone] at hsrc
  · rcases hdown with ⟨hown, -⟩ | hheld
    · simp [CheckInput.gated, hown] at hgated
    · simp only [CheckInput.heldDown, Bool.and_eq_true, decide_eq_true_eq] at hheld
      exact .inr (.inr hheld.2.1)
  · exact retold_decideEntry hcost hfinite hpen

/-- Without a gate or a lack of room, a new destination gets an entry. -/
theorem checkEntry_open {i : CheckInput} {force : Bool} {k : Key} (hgated : i.gated = false)
    (hsrc : i.expected.src.isSome = true) : checkEntry i force true k none =
      some (decideEntry force i.expected.direct i.cost i.penalty (.fresh k)) := by
  have hscreen : i.screen none = .go i.cost i.penalty := by
    rw [CheckInput.screen_eq, hgated]
    simp [Option.isNone_iff_eq_none, Option.isSome_iff_ne_none.mp hsrc]
  unfold checkEntry
  rw [hscreen]
  rfl

theorem AdvRoute.Retold.commit {a : AdvRoute} {now : ℤ} (ha : a.Sound) (hq : a.pending = true) :
    (a.commit now).Retold := by
  obtain ⟨hpos, -⟩ := ha.queued hq
  by_cases hinf : rttInfinity ≤ a.pendingRtt
  · exact .inr (.inr hinf)
  · refine .inl ?_
    unfold AdvRoute.FiniteTold
    rw [AdvRoute.told_commit hq]
    exact (AdvRoute.finiteTold_of_pending hq).mpr ⟨hpos.le, not_le.mp hinf⟩

/-! ## The table -/

/-- The destination was told again, as far as the table has room. -/
def Peer.Retells (x : Peer) (k : Key) : Prop :=
  (∃ a, x.adv.find k = some a ∧ a.Retold) ∨ maxAdvertised ≤ x.adv.advs.length

namespace Env

variable {e : Env} {p : Slot} {k : Key} {x : Peer}

theorem Eligible.gate (hk : e.Eligible p k) (hallow : e.cfg.recordsAllowed x = true) :
    e.checkGate p k x = true := by
  simp [checkGate, hallow, hk.transit, hk.up, hk.linked, hk.named, hk.notOurs]

theorem Eligible.cost (hk : e.Eligible p k) :
    (e.checkInput p k).cost = (e.expectedRtt p k).rtt := by
  rw [CheckInput.cost, hk.gated, if_neg Bool.false_ne_true]
  rfl

/-- A check of a destination that may be told. -/
theorem retells_check_self (force : Bool) (hk : e.Eligible p k)
    (hallow : e.cfg.recordsAllowed x = true) : (e.flexAdvertiseCheck p k force x).Retells k := by
  have hcost := isCost_checkInput (e := e) (p := p) (k := k)
  have hfinite : (e.checkInput p k).cost < rttInfinity := hk.cost ▸ hk.offered
  have hsrc : (e.checkInput p k).expected.src.isSome = true :=
    expectedRtt_src_isSome.mpr (expectedRtt_lt_iff.mp hk.offered)
  have hself : (e.flexAdvertiseCheck p k force x).adv.find k = _ := find_check_self (hk.gate hallow)
  cases hent : checkEntry (e.checkInput p k) force (decide (x.adv.advs.length < maxAdvertised)) k
      (x.adv.find k) with
  | some b =>
      refine .inl ⟨b, hself.trans hent, ?_⟩
      exact retold_checkEntry hk.gated hsrc hcost.1.le hfinite checkInput_penalty hent
  | none =>
      -- only a table without room leaves the destination without an entry
      have hnone : x.adv.find k = none := by
        cases hfind : x.adv.find k with
        | none => rfl
        | some a =>
            rw [hfind] at hent
            unfold checkEntry at hent
            split at hent <;> simp at hent
      refine .inr (le_trans (not_lt.mp fun hroom => ?_) length_check)
      rw [hnone, decide_eq_true hroom, checkEntry_open hk.gated hsrc] at hent
      cases hent

/-- A check of any destination leaves what was told again told. -/
theorem retells_check {k' : Key} {force : Bool} (hk : e.Eligible p k)
    (hallow : e.cfg.recordsAllowed x = true) (h : x.Retells k) :
    (e.flexAdvertiseCheck p k' force x).Retells k := by
  by_cases hne : k = k'
  · subst hne
    exact retells_check_self force hk hallow
  · rcases h with ⟨a, hfind, ha⟩ | hfull
    · exact .inl ⟨a, (find_check_of_ne hne).trans hfind, ha⟩
    · exact .inr (hfull.trans length_check)

theorem recordsAllowed_check {k' : Key} {force : Bool} :
    e.cfg.recordsAllowed (e.flexAdvertiseCheck p k' force x) = e.cfg.recordsAllowed x := by
  rw [flexAdvertiseCheck_frame]
  rfl

theorem retells_checks {keys : List Key} {force : Bool} (hk : e.Eligible p k)
    (hallow : e.cfg.recordsAllowed x = true) (h : k ∈ keys ∨ x.Retells k) :
    (keys.foldl (fun x k => e.flexAdvertiseCheck p k force x) x).Retells k := by
  induction keys generalizing x with
  | nil => exact h.resolve_left List.not_mem_nil
  | cons k' keys ih =>
      have hallow' : e.cfg.recordsAllowed (e.flexAdvertiseCheck p k' force x) = true :=
        recordsAllowed_check.trans hallow
      refine ih hallow' ?_
      rcases h with hmem | htold
      · rcases List.mem_cons.mp hmem with rfl | hmem
        · exact .inr (retells_check_self force hk hallow)
        · exact .inl hmem
      · exact .inr (retells_check hk hallow htold)

/-- The walk tells every destination that may be told. -/
theorem retells_walk (force : Bool) (hk : e.Eligible p k)
    (hallow : e.cfg.recordsAllowed x = true) :
    (e.flexAdvertiseWalkForPeer p false force x).1.Retells k := by
  rw [flexAdvertiseWalkForPeer_fst]
  refine retells_checks hk hallow (.inl ?_)
  exact mem_walkKeys_of_offers hk.named (expectedRtt_lt_iff.mp hk.offered)

/-- What is put in a frame stays told. -/
theorem retells_emitFrame {isPcf : Bool} (hs : x.adv.Sound) (h : x.Retells k) :
    (e.emitFrame p isPcf x).1.Retells k := by
  rcases e.emitFrame_cases p isPcf hs with ⟨-, heq⟩ | ⟨picks, st, -, -, hpacked, heq⟩ <;> rw [heq]
  · exact h
  · rcases h with ⟨a, hfind, ha⟩ | hfull
    · left
      have hentry := hpacked.find k
      rw [hfind, Option.map_some] at hentry
      refine ⟨_, hentry, ?_⟩
      split_ifs with hpick
      · obtain ⟨hmem, hq⟩ := hpacked.picked a hpick
        exact .commit (hs.entries a hmem) hq
      · exact ha
    · exact .inr (hfull.trans (length_packed hs hpacked).ge)

theorem retells_drainFrames {isPcf : Bool} {turns : ℕ} (hs : x.adv.Sound) (h : x.Retells k) :
    (e.drainFrames p isPcf turns x).1.Retells k := by
  induction turns generalizing x with
  | zero => exact h
  | succ turns ih =>
      have hturn : (e.emitFrame p isPcf x).1.Retells k := retells_emitFrame hs h
      have hsound : (e.emitFrame p isPcf x).1.adv.Sound := (View.emit_entries hs).1
      unfold drainFrames
      generalize e.emitFrame p isPcf x = r at hturn hsound
      rcases r with ⟨y, _ | _⟩
      · exact hturn
      · exact ih hsound hturn

theorem retells_drain (hs : x.adv.Sound) (h : x.Retells k) :
    (e.flexAdvertiseDrain p x).Retells k := by
  unfold flexAdvertiseDrain
  split_ifs
  · exact h
  · exact h
  · dsimp only
    unfold Peer.Retells AdvertisedState.find
    rw [View.drainEob_advs]
    refine retells_drainFrames ⟨by simpa using hs.distinct, by simpa using hs.entries⟩ ?_
    unfold Peer.Retells AdvertisedState.find
    rwa [AdvertisedState.advs_refill]

end Env

namespace View

variable {p : Slot} {v w : View} {t : ℤ}

/-- What the table says was sent was sent at `t` or later. -/
structure SentSince (t : ℤ) (v : View) : Prop where
  sound : v.peer.adv.Sound
  clock : t ≤ v.env.now
  since : ∀ a ∈ v.entries, 0 ≤ a.lastRtt → t ≤ a.lastAt

theorem sentSince_apply {act : PeerAct} (h : v.SentSince t) (hl : v.Legal p act) :
    (v.apply p act).SentSince t where
  sound := sound_apply h.sound act
  clock := h.clock.trans (now_apply hl)
  since := fun b hb hsent => by
    have hmem := mem_apply h.sound hb
    cases act with
    | check k force =>
        rcases hmem with ⟨hmem, -⟩ | ⟨-, -, room, hent⟩
        · exact h.since b hmem hsent
        · rcases checkEntry_cases hent with ⟨hfind, -⟩ | ⟨a, hfind, rfl, -⟩ | ⟨rfl, -⟩
          · exact h.since b (AdvertisedState.mem_of_find hfind) hsent
          · exact h.since a (AdvertisedState.mem_of_find hfind) hsent
          · rw [decideEntry_lastRtt Env.checkInput_penalty] at hsent
            rw [decideEntry_lastAt Env.checkInput_penalty]
            cases hfind : v.peer.adv.find k with
            | none => simp [hfind, AdvRoute.fresh] at hsent
            | some a =>
                rw [hfind] at hsent
                exact h.since a (AdvertisedState.mem_of_find hfind) hsent
    | emit =>
        rcases hmem with hmem | ⟨a, -, -, rfl⟩
        · exact h.since b hmem hsent
        · exact h.clock
    | clear => exact hmem.elim
    | tables | rename | refill | close | owe | release | send => exact h.since b hmem hsent

theorem sentSince_run {acts : List PeerAct} (hrun : PeerRun p v acts w) (h : v.SentSince t) :
    w.SentSince t :=
  hrun.invariant (I := SentSince t) (fun _ _ hv hl => sentSince_apply hv hl) h

end View

/-! ## The whole node -/

namespace Node

variable {w : Node} {s : Slot} {k : Key}

theorem sound_walk (w : Node) (s : Slot) (force : Bool) (hs : (w.peers s).adv.Sound) :
    (w.toEnv.flexAdvertiseWalkForPeer s false force (w.peers s)).1.adv.Sound := by
  rw [Env.flexAdvertiseWalkForPeer_fst]
  exact Sweep.foldl_keeps (P := fun x : Peer => x.adv.Sound) (fun _ _ => Env.sound_check) _ hs

/-- The seed of a peer tells it every destination that may be told. -/
theorem retells_seedPeer (hs : (w.peers s).adv.Sound) (hk : w.toEnv.Eligible s k)
    (hallow : w.cfg.recordsAllowed (w.peers s) = true) :
    ((w.flexAdvertiseSeedPeer s).peers s).Retells k := by
  have hwalk := Env.retells_walk false hk hallow
  have hsound := w.sound_walk s false hs
  unfold flexAdvertiseSeedPeer
  rw [if_neg (by simp [hk.transit])]
  dsimp only [flexAdvertiseWalkForPeer]
  split_ifs
  · simp only [anchorAdvert, flexAdvertiseDrain, setLearned_peers, setPeer_peers_self]
    exact Env.retells_drain hsound hwalk
  · simp only [anchorAdvert, setLearned_peers, setPeer_peers_self]
    exact hwalk

/-- So does the walk that answers a `'3+'`. -/
theorem retells_answerStatusPos (hs : (w.peers s).adv.Sound) (hk : w.toEnv.Eligible s k)
    (hallow : w.cfg.recordsAllowed (w.peers s) = true) :
    ((w.answerStatusPos s).peers s).Retells k := by
  have hwalk := Env.retells_walk true hk hallow
  have hsound := w.sound_walk s true hs
  unfold answerStatusPos
  dsimp only [flexAdvertiseWalkForPeer]
  simp only [flexAdvertiseDrain, setPeer_peers_self]
  exact Env.retells_drain (hsound.congr rfl) hwalk

end Node

end FlexNet
