import FlexNet.Advert.Refinement
import FlexNet.Advert.WireTruth
import FlexNet.Advert.Quiesce

/-!
# A quiesced peer hears no record

Records leave by the frame loop of the drain and by the node's own frame.  The first is shut by the
latch itself; the second is shut because a latch, or a `'3-'` that is owed and will set it, stands
only on a session that is established and has had our routes (`View.Answered`).  What would reopen
the second lifts the latch as well.  So from the moment the latch is set no record is queued to the
peer, until it wakes us (`Node.Wakes`) or another session is started in its slot.
-/

namespace FlexNet

open Runs

/-- No frame that announces anything. -/
def WireEvent.Mute (cfg : Config) : WireEvent → Prop
  | .frame pid data => pid = pidCE → frameRecords cfg data = []
  | .cleared => True

instance (cfg : Config) (ev : WireEvent) : Decidable (ev.Mute cfg) := by
  cases ev <;> unfold WireEvent.Mute <;> infer_instance

/-! ## What an act does to what is owed -/

/-- Packing changes entries, and nothing else of the table. -/
theorem packRecords_rest (now : ℤ) (max : ℕ) (body : CStr) (inFrame : ℕ) (st : AdvertisedState) :
    ∃ advs, (packRecords now max body inFrame st).2.2 = { st with advs := advs } := by
  induction max generalizing body inFrame st with
  | zero => exact ⟨st.advs, rfl⟩
  | succ max ih =>
      unfold packRecords
      split
      · exact ⟨st.advs, rfl⟩
      · rename_i a _
        split
        · dsimp only
          split_ifs
          · exact ⟨(st.put { a with pending := false }).advs, rfl⟩
          · exact ⟨st.advs, rfl⟩
        · exact ih _ _ (st.put (a.commit now))

/-- A turn of the frame loop leaves what is owed alone. -/
theorem emitFrame_eob (e : Env) (p : Slot) (isPcf : Bool) (x : Peer) :
    (e.emitFrame p isPcf x).1.adv.eobPending = x.adv.eobPending ∧
      (e.emitFrame p isPcf x).1.adv.eobEmptySince = x.adv.eobEmptySince := by
  obtain ⟨advs, hpack⟩ := packRecords_rest e.now (advertRecs isPcf) [0x33] 0 x.adv
  unfold Env.emitFrame
  dsimp only
  rw [hpack]
  split_ifs <;> exact ⟨rfl, rfl⟩

theorem refill_eob (isPcf : Bool) (now : ℤ) (st : AdvertisedState) :
    (st.refill isPcf now).eobPending = st.eobPending ∧
      (st.refill isPcf now).eobEmptySince = st.eobEmptySince := by
  unfold AdvertisedState.refill
  split_ifs <;> exact ⟨rfl, rfl⟩

/-- The end of a drain sets the latch only for a `'3-'` that was owed. -/
theorem drainEob_owed {e : Env} {p : Slot} {isPcf : Bool} {frames : ℕ} {x : Peer}
    (h : (e.drainEob p isPcf frames x).pcfQuiesced = true ∨
      (e.drainEob p isPcf frames x).adv.eobPending = true) :
    x.pcfQuiesced = true ∨ x.adv.eobPending = true := by
  unfold Env.drainEob at h
  by_cases heob : x.adv.eobPending = true
  · exact .inr heob
  · rw [if_pos (by simpa using heob)] at h
    exact h

namespace View

variable {g R : Prop} {p : Slot} {v w : View} {act : PeerAct}

/-- What is owed to a session that is up was answered on it. -/
def Answered (p : Slot) (v : View) : Prop :=
  (v.env.sessions p).active = true → v.Owed → (v.env.sessions p).answered = true

theorem answered_start (e : Env) : (start e).Answered p := fun _ howed => by
  simp [Owed, start] at howed

/-- An act that leaves the tables and owes nothing new. -/
theorem Answered.congr (hv : v.Answered p) (henv : w.env = v.env) (howed : w.Owed → v.Owed) :
    w.Answered p := fun hup h => by
  rw [henv] at hup ⊢
  exact hv hup (howed h)

/-- The tables move under a session that stays answered. -/
theorem Answered.move {e : Env} {due : List Key} (hv : v.Answered p) (hcfg : e.cfg = v.env.cfg)
    (hstay : v.Stays p e) : (⟨e, v.peer, due⟩ : View).Answered p := fun hup howed => by
  have howed' : v.Owed := by
    unfold Owed at howed ⊢
    rwa [hcfg] at howed
  obtain ⟨hup', hans⟩ := hstay hup howed'
  exact hans (hv hup' howed')

theorem answered_apply (hv : v.Answered p) (ha : v.Allowed True R p act) :
    (v.apply p act).Answered p := by
  obtain ⟨hlegal, hgate⟩ := ha
  replace hgate := hgate trivial
  cases act with
  | tables e due => exact hv.move hlegal.1 hgate
  | rename e => exact hv.move hlegal.1.cfg hgate
  | check k force =>
      refine hv.congr rfl fun howed => ?_
      rw [Owed, apply, Env.flexAdvertiseCheck_frame] at howed
      exact howed
  | refill =>
      refine hv.congr rfl fun howed => ?_
      simp only [Owed, apply, (refill_eob _ _ _).1] at howed
      exact howed
  | emit =>
      refine hv.congr rfl fun howed => ?_
      simp only [Owed, apply, Env.emitFrame_pcfQuiesced, (emitFrame_eob _ _ _ _).1] at howed
      exact howed
  | close frames =>
      refine hv.congr rfl fun howed => ?_
      have htransit : v.env.cfg.transit = true := hgate
      exact (drainEob_owed (howed.imp_right And.right)).imp_right fun h => ⟨htransit, h⟩
  | owe => exact fun _ _ => hgate.2.2
  | clear =>
      refine hv.congr rfl fun howed => .inl ?_
      exact howed.resolve_right fun h => by simp [apply] at h
  | release => exact hv.congr rfl fun howed => .inr (howed.resolve_left (by simp [apply]))
  | send pid data => exact hv.congr rfl fun howed => howed

/-! ## The silence -/

/-- A session comes up in the slot. -/
def Starts (p : Slot) (v : View) : PeerAct → Prop
  | .tables e _ => (v.env.sessions p).active = false ∧ (e.sessions p).active = true
  | .rename e => (v.env.sessions p).active = false ∧ (e.sessions p).active = true
  | _ => False

/-- The session is down, or its peer is quiesced. -/
def Quiet (p : Slot) (v : View) : Prop :=
  (v.env.sessions p).active = true → v.peer.pcfQuiesced = true

/-- While nothing lifts the latch, what is quiet stays quiet. -/
theorem quiet_apply (hv : v.Quiet p) (ha : v.Allowed True False p act) (hold : ¬ v.Starts p act) :
    (v.apply p act).Quiet p := by
  have hgate := ha.2 trivial
  cases act with
  | tables e due =>
      intro hup
      refine hv (by_contra fun hdown => hold ⟨by simpa using hdown, hup⟩)
  | rename e =>
      intro hup
      refine hv (by_contra fun hdown => hold ⟨by simpa using hdown, hup⟩)
  | check k force =>
      intro hup
      rw [apply, Env.flexAdvertiseCheck_frame]
      exact hv hup
  | emit =>
      intro hup
      rw [apply, Env.emitFrame_pcfQuiesced]
      exact hv hup
  | close frames =>
      intro hup
      have hlatch := hv hup
      simp only [apply]
      unfold Env.drainEob Env.flexSendFrame
      dsimp only
      split_ifs <;> first | exact hlatch | rfl
  | release =>
      intro hup
      have hdown := hgate.resolve_left id
      exact absurd hup (by simpa [apply] using hdown)
  | refill => exact hv
  | owe => exact hv
  | clear => exact hv
  | send pid data => exact hv

/-- What an act queues to a quiet peer announces nothing. -/
theorem quiet_wire (hv : v.Quiet p) (hans : v.Answered p) (hcfg : v.env.cfg.pcfQuiesce = true)
    (ha : v.Allowed True R p act) :
    ∃ gained, (v.apply p act).peer.wire = v.peer.wire ++ gained ∧
      ∀ ev ∈ gained, ev.Mute v.env.cfg := by
  have hgate := ha.2 trivial
  have hnone : ∀ {w : View}, w.peer.wire = v.peer.wire → ∃ gained,
      w.peer.wire = v.peer.wire ++ gained ∧ ∀ ev ∈ gained, ev.Mute v.env.cfg := fun h =>
    ⟨[], by simpa using h, by simp⟩
  -- while the session is up neither gate for records is open
  have hshut : (v.env.sessions p).active = true →
      v.env.cfg.recordsAllowed v.peer = false ∧ (v.env.sessions p).sentRoutes = true := by
    intro hup
    have hlatch := hv hup
    have hanswered := hans hup (.inl hlatch)
    rw [Session.answered, Bool.and_eq_true] at hanswered
    exact ⟨by simp [Config.recordsAllowed, hcfg, hlatch], hanswered.1⟩
  have hsend : ∀ pid data, (pid = pidCE → frameRecords v.env.cfg data = []) → ∃ gained,
      (v.env.flexSendFrame p pid data v.peer).wire = v.peer.wire ++ gained ∧
        ∀ ev ∈ gained, ev.Mute v.env.cfg := by
    intro pid data hmute
    unfold Env.flexSendFrame
    dsimp only
    split_ifs
    · exact ⟨[.frame pid data], rfl, fun ev hev => by
        rw [List.mem_singleton.mp hev]
        exact hmute⟩
    · exact ⟨[], by simp, by simp⟩
  cases act with
  | emit =>
      obtain ⟨hallow, hup⟩ := hgate
      rw [(hshut hup).1] at hallow
      cases hallow
  | close frames =>
      rcases drainEob_wire v.env (v.isPcf p) frames v.peer with h | h
      · exact hnone h
      · refine ⟨_, h, fun ev hev => ?_⟩
        rw [List.mem_singleton.mp hev]
        exact fun _ => Env.frameRecords_releaseToken
  | clear => exact ⟨[.cleared], rfl, fun ev hev => by rw [List.mem_singleton.mp hev]; trivial⟩
  | send pid data =>
      refine hsend pid data fun hpid => by_contra fun hrec => ?_
      obtain ⟨hup, hsent | hallow⟩ := (hgate hpid).1 hrec
      · rw [(hshut hup).2] at hsent
        cases hsent
      · rw [(hshut hup).1] at hallow
        cases hallow
  | check k force => exact hnone (by rw [apply, Env.flexAdvertiseCheck_frame])
  | tables e due => exact hnone rfl
  | rename e => exact hnone rfl
  | refill => exact hnone rfl
  | owe => exact hnone rfl
  | release => exact hnone rfl

/-- A run that lifts no latch and starts no session in the slot queues nothing but mute frames to a
quiet peer. -/
theorem quiet_run {acts : List PeerAct} (hv : v.Quiet p) (hans : v.Answered p)
    (hcfg : v.env.cfg.pcfQuiesce = true)
    (hrun : GuardedRun (View.apply p)
      (fun v a => v.Allowed True False p a ∧ ¬ v.Starts p a) v acts w) :
    w.Quiet p ∧ w.Answered p ∧ w.env.cfg = v.env.cfg ∧
      ∃ gained, w.peer.wire = v.peer.wire ++ gained ∧ ∀ ev ∈ gained, ev.Mute v.env.cfg := by
  induction hrun with
  | start => exact ⟨hv, hans, rfl, [], by simp, by simp⟩
  | step act hprev hok ih =>
      obtain ⟨hquiet, hanswered, hsame, gained, hwire, hmute⟩ := ih
      obtain ⟨more, hmore, hmute'⟩ := quiet_wire hquiet hanswered (hsame ▸ hcfg) hok.1
      refine ⟨quiet_apply hquiet hok.1 hok.2, answered_apply hanswered hok.1,
        (cfg_apply hok.1.1).trans hsame, gained ++ more, ?_, fun ev hev => ?_⟩
      · rw [hmore, hwire, List.append_assoc]
      · rcases List.mem_append.mp hev with hev | hev
        · exact hmute ev hev
        · exact hsame ▸ hmute' ev hev

end View

/-! ## Runs of the node -/

namespace Node

variable {n : Node} {p : Slot}

instance (n : Node) (ev : Event) : Decidable (n.Heard ev) := by
  cases ev <;> unfold Heard <;> infer_instance

instance (n : Node) (p : Slot) (ev : Event) : Decidable (n.Wakes p ev) := by
  cases ev <;> unfold Wakes <;> infer_instance

/-- A run of the node whose frames are heard on connected rows passes the gates of every peer. -/
theorem advances_after {events : List Event} (hheard : Chain Node.event Heard n events) :
    n.Advances True (fun _ => True) (n.after events) := by
  induction events generalizing n with
  | nil => exact .refl n
  | cons ev events ih =>
      exact (advances_event n ev (fun _ => hheard.1) fun _ _ _ => trivial).trans (ih hheard.2)

/-- Where no event wakes the peer, none lifts its latch while its session is up. -/
theorem unwoken_run {events : List Event} (hn : n.Linked)
    (hrun : Chain Node.event (fun n ev => n.Heard ev ∧ ¬ n.Wakes p ev) n events) :
    ∃ acts, GatedRun True False p (n.view p) acts ((n.after events).view p) := by
  have hadvances : n.Advances True (fun q => q ≠ p) (n.after events) := by
    clear hn
    induction events generalizing n with
    | nil => exact .refl n
    | cons ev events ih =>
        refine (advances_event n ev (fun _ => hrun.1.1) fun _ q hwakes hq => ?_).trans (ih hrun.2)
        exact hrun.1.2 (hq ▸ hwakes)
  obtain ⟨acts, hacts⟩ := (hadvances hn).2 p
  exact ⟨acts, hacts.mono fun v a ha => ⟨ha.1, fun hg => (ha.2 hg).mono fun hne => hne rfl⟩⟩

/-- The options do not change. -/
theorem after_cfg (hn : n.Linked) (events : List Event) : (n.after events).cfg = n.cfg := by
  obtain ⟨acts, hacts⟩ := (evolves_after n events hn).2 0
  exact hacts.invariant (I := fun v => v.env.cfg = n.cfg)
    (fun v a hv ha => (View.cfg_apply ha).trans hv) rfl

/-- Whatever the node went through, what is owed to a session that is up was answered on it. -/
theorem after_answered (cfg : Config) (ports : List AxipPort) (portLinks : List PortLink)
    (links : LinkId → Link) (now : ℤ) {events : List Event} (p : Slot)
    (hheard : Chain Node.event Heard (boot cfg ports portLinks links now) events) :
    (((boot cfg ports portLinks links now).after events).view p).Answered p ∧
      ((boot cfg ports portLinks links now).after events).cfg = cfg := by
  obtain ⟨acts, hacts⟩ := (advances_after hheard (linked_boot cfg ports portLinks links now)).2 p
  refine hacts.invariant (I := fun v => v.Answered p ∧ v.env.cfg = cfg) (fun v a hv ha => ?_)
    ⟨View.answered_start _, rfl⟩
  exact ⟨View.answered_apply hv.1 ha, (View.cfg_apply ha.1).trans hv.2⟩

/-- In every run: from the moment the latch of a peer is set, no frame with a record is queued to
it, whatever happens, for as long as no event wakes it and until another session is started in
its slot. -/
theorem after_quiesced_silent (cfg : Config) (ports : List AxipPort) (portLinks : List PortLink)
    (links : LinkId → Link) (now : ℤ) {events rest : List Event} {p : Slot}
    (hcfg : cfg.pcfQuiesce = true)
    (hheard : Chain Node.event Heard (boot cfg ports portLinks links now) events)
    (hlatch : (((boot cfg ports portLinks links now).after events).peers p).pcfQuiesced = true)
    (hrest : Chain Node.event (fun n ev => n.Heard ev ∧ ¬ n.Wakes p ev)
      ((boot cfg ports portLinks links now).after events) rest) :
    let n := (boot cfg ports portLinks links now).after events
    ∃ acts later v gained, GatedRun True False p (n.view p) acts v ∧
      GatedRun True False p v later ((n.after rest).view p) ∧
      (later = [] ∨ ∃ a as, later = a :: as ∧ v.Starts p a) ∧
      v.peer.wire = (n.peers p).wire ++ gained ∧ ∀ ev ∈ gained, ev.Mute cfg := by
  intro n
  have hlinked : n.Linked :=
    (advances_after hheard (linked_boot cfg ports portLinks links now)).1
  obtain ⟨hanswered, hsame⟩ := after_answered cfg ports portLinks links now p hheard
  obtain ⟨all, hall⟩ := unwoken_run hlinked hrest
  obtain ⟨acts, later, v, -, hacts, hlater, hend⟩ := hall.until (View.Starts p)
  have hquiet : (n.view p).Quiet p := fun _ => hlatch
  obtain ⟨-, -, -, gained, hwire, hmute⟩ :=
    View.quiet_run hquiet hanswered (hsame.symm ▸ hcfg) hacts
  refine ⟨acts, later, v, gained, hacts.mono fun _ _ h => h.1, hlater, hend, hwire, ?_⟩
  exact fun ev hev => hsame ▸ hmute ev hev

open Bench

/-- `B` asks with a `'3+'`, and its answer is closed. -/
def closing : List Event :=
  [.initSession 0 1, .initSession 1 1, record 0 0x4B 10, View.statusPos 1, .clock 20 0, .timer,
    .clock 20 0, .timer, .clock 20 0, .timer]

/-- A new record, a withdrawal, a refresh that falls due, a keepalive, and the end of `A`. -/
def meanwhile : List Event :=
  [record 0 0x4C 20, record 0 0x4B 60000, .clock 200 0, .timer, .processCE 1 flexBuildKeepalive,
    .closeSession 0, .timer]

set_option maxRecDepth 10000 in
/-- `B` hears nothing of it. -/
theorem after_quiesced_silent_meanwhile :
    let n := (boot (config true) [] [] links 1000).after closing
    ∃ acts later v gained, GatedRun True False slotB (n.view slotB) acts v ∧
      GatedRun True False slotB v later ((n.after meanwhile).view slotB) ∧
      (later = [] ∨ ∃ a as, later = a :: as ∧ v.Starts slotB a) ∧
      v.peer.wire = (n.peers slotB).wire ++ gained ∧ ∀ ev ∈ gained, ev.Mute (config true) :=
  after_quiesced_silent (config true) [] [] links 1000 rfl (by decide +kernel) (by decide +kernel)
    (by decide +kernel)

end Node

end FlexNet
