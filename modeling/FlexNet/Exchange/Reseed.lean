import FlexNet.Exchange.Handshake
import FlexNet.Advert.Answer

/-!
# What the answer to an INIT tells

The answer of an established session to an INIT clears the table of what its peer was told, and the
seed that follows walks everything the other sessions teach.  A destination that was never told and
that no gate shuts is queued with its cost, if the table has room (`due_walk`), and what is queued
goes out in a frame or stays queued (`due_drain`).
-/

namespace FlexNet

/-! ## Entries never told -/

/-- The entry is queued with a cost, and was never sent. -/
structure AdvRoute.Due (cost : ℤ) (a : AdvRoute) : Prop where
  pending : a.pending = true
  pendingRtt : a.pendingRtt = cost
  never : a.lastRtt < 0
  notLooping : a.looping = false

/-- A decision on an entry that was never sent queues the cost. -/
theorem due_decideEntry {direct : Bool} {cost penalty : ℤ} {a : AdvRoute}
    (hcost : cost < rttInfinity)
    (hpen : 0 ≤ penalty) (hnever : a.lastRtt < 0) (hloop : a.looping = false) :
    (decideEntry false direct cost penalty a).Due cost := by
  have hsettle : ∀ b : AdvRoute, b.lastRtt < 0 → b.looping = false →
      (settle false cost penalty b).Due cost := fun b hb hl => by
    have hfires : fires false cost b = true := by
      simp [fires, not_le.mpr hb]
    unfold settle
    rw [hfires, Bool.true_or, if_pos rfl]
    exact ⟨rfl, rfl, hb, hl⟩
  cases direct with
  | true => exact hsettle a hnever hloop
  | false =>
      have hlast : climbLast a = a.lastRtt := if_pos (.inl hnever)
      have hclimb : ∃ b, flexClimbIsLoop a (climbLast a)
          (if rttInfinity ≤ cost then cost else cost - penalty) = (.ok, b) ∧
            b.lastRtt < 0 ∧ b.looping = false := by
        rw [if_neg (not_le.mpr hcost), hlast]
        unfold flexClimbIsLoop
        rw [if_neg (by omega), if_neg (by simp [hloop])]
        have hrise : ¬ (0 ≤ a.lastRtt ∧ a.lastRtt < cost - penalty) := by omega
        simp only [hloop, Bool.false_eq_true, if_false, if_neg hrise]
        rw [if_neg (by simp [climbMinSteps])]
        exact ⟨_, rfl, hnever, rfl⟩
      obtain ⟨b, hb, hbn, hbl⟩ := hclimb
      unfold decideEntry contain
      rw [if_neg Bool.false_ne_true, hb]
      exact hsettle b hbn hbl

/-- A check of an open destination queues its cost, if it was never told. -/
theorem due_checkEntry {i : CheckInput} (room : Bool) (k : Key) (adv : Option AdvRoute)
    (hgated : i.gated = false) (hsrc : i.expected.src.isSome = true)
    (hfinite : i.expected.rtt < rttInfinity) (hpen : 0 ≤ i.penalty)
    (hnever : ∀ a, adv = some a → a.lastRtt < 0 ∧ a.looping = false)
    (hroom : room = true ∨ adv.isSome = true) :
    ∃ b, checkEntry i false room k adv = some b ∧ b.Due i.expected.rtt := by
  have hcost : i.cost = i.expected.rtt := by
    rw [CheckInput.cost, hgated, if_neg Bool.false_ne_true]
  have hscreen : i.screen adv = .go i.expected.rtt i.penalty := by
    have hdown : adv.elim false (fun a => i.heldDown a i.cost) = false := by
      cases adv with
      | none => rfl
      | some a =>
          have := (hnever a rfl).1
          simp only [Option.elim_some, CheckInput.heldDown, Bool.and_eq_false_iff,
            decide_eq_false_iff_not, not_and, not_lt]
          refine .inr fun hinf => absurd hinf ?_
          unfold rttInfinity
          omega
    rw [CheckInput.screen_eq, hgated, hdown, ← hcost]
    simp [Option.isNone_iff_eq_none, Option.isSome_iff_ne_none.mp hsrc]
  unfold checkEntry
  rw [hscreen]
  cases adv with
  | some a =>
      obtain ⟨ha, hl⟩ := hnever a rfl
      exact ⟨_, rfl, due_decideEntry hfinite hpen ha hl⟩
  | none =>
      dsimp only
      rw [if_pos (hroom.resolve_right (by simp))]
      refine ⟨_, rfl, due_decideEntry hfinite hpen ?_ rfl⟩
      simp [AdvRoute.fresh]

/-! ## The walk -/

namespace Env

variable {e e' : Env} {p : Slot} {k : Key} {x : Peer}

/-- The destination may be told to the peer: records go out on its session, and the destination is
named, not the node's own, offered at a finite cost, and no gate is shut for it. -/
structure Eligible (e : Env) (p : Slot) (k : Key) : Prop where
  transit : e.cfg.transit = true
  up : (e.sessions p).active = true
  linked : (e.sessions p).link.isSome = true
  named : k.call.isEmpty = false
  notOurs : e.cfg.recordIsOurs k = false
  offered : (e.expectedRtt p k).rtt < rttInfinity
  notOwnOnly : (e.linkOpts p).ownOnly = false
  notSplit : (e.learnedHas p k && !e.destIsOurPeer k) = false
  inScope : e.cfg.advertiseDirectOnly = true → (e.expectedRtt p k).direct = true

theorem Eligible.gated (h : e.Eligible p k) : (e.checkInput p k).gated = false := by
  simp only [CheckInput.gated, Env.checkInput, h.notOwnOnly, h.notSplit, Bool.false_or,
    Bool.and_eq_false_iff, Bool.not_eq_false']
  cases hscope : e.cfg.advertiseDirectOnly
  · exact .inl rfl
  · exact .inr (h.inScope hscope)

/-- What a destination costs a peer does not depend on what the sessions last sent. -/
theorem Eligible.congr (h : e.Eligible p k) (hcfg : e'.cfg = e.cfg) (hlinks : e'.links = e.links)
    (hlearned : ∀ i, (e'.learned i).routes = (e.learned i).routes)
    (hopts : e'.linkOpts = e.linkOpts)
    (hup : ∀ i, (e'.sessions i).active = (e.sessions i).active)
    (hport : ∀ i, (e'.sessions i).port = (e.sessions i).port)
    (hlink : ∀ i, (e'.sessions i).link = (e.sessions i).link)
    (htime : ∀ i, (e'.sessions i).ourLinkTime = (e.sessions i).ourLinkTime) :
    e'.Eligible p k ∧ e'.expectedRtt p k = e.expectedRtt p k := by
  have hcall : ∀ i, e'.sessPeerCall i = e.sessPeerCall i := fun i => by
    simp only [sessPeerCall, hlink, hlinks]
  have hpeer : ∀ i, e'.destIsSessionPeer i k = e.destIsSessionPeer i k := fun i => by
    simp only [destIsSessionPeer, hup, hlink, hcall]
  have hfind : ∀ i, (e'.learned i).find k = (e.learned i).find k := fun i => by
    simp only [LearnedState.find, hlearned]
  have hoffer : ∀ i, e'.offer i k = e.offer i k := fun i => by
    simp only [offer, hfind, hopts, hpeer, htime]
  have hmay : ∀ i, e'.maySource p i = e.maySource p i := fun i => by
    simp only [maySource, hup, hport, hcfg]
  have hcheaper : e'.cheaper p k = e.cheaper p k := by
    funext best i
    simp only [cheaper, hmay, hoffer]
  have hrtt : e'.expectedRtt p k = e.expectedRtt p k := by
    simp only [expectedRtt, hpeer, hcheaper]
  refine ⟨⟨?_, ?_, ?_, h.named, ?_, ?_, ?_, ?_, ?_⟩, hrtt⟩
  · rw [hcfg]
    exact h.transit
  · rw [hup]
    exact h.up
  · rw [hlink]
    exact h.linked
  · rw [hcfg]
    exact h.notOurs
  · rw [hrtt]
    exact h.offered
  · rw [hopts]
    exact h.notOwnOnly
  · have hsplit := h.notSplit
    simp only [learnedHas, destIsOurPeer, hfind, hpeer] at hsplit ⊢
    exact hsplit
  · rw [hcfg, hrtt]
    exact h.inScope

/-- A check of a destination that is due leaves it due. -/
theorem due_check {k' : Key} {a : AdvRoute} (hk : e.Eligible p k)
    (hfind : x.adv.find k = some a) (ha : a.Due (e.expectedRtt p k).rtt) :
    ∃ b, (e.flexAdvertiseCheck p k' false x).adv.find k = some b ∧
      b.Due (e.expectedRtt p k).rtt := by
  by_cases hne : k = k'
  · subst hne
    by_cases hgate : e.checkGate p k x = true
    · obtain ⟨b, hb, hdue⟩ := due_checkEntry
        (decide (x.adv.advs.length < maxAdvertised)) k (some a) hk.gated
        (expectedRtt_src_isSome.mpr (expectedRtt_lt_iff.mp hk.offered)) hk.offered
        checkInput_penalty (fun c hc => by cases hc; exact ⟨ha.never, ha.notLooping⟩) (.inr rfl)
      refine ⟨b, ?_, hdue⟩
      rw [find_check_self hgate, hfind]
      exact hb
    · refine ⟨a, ?_, ha⟩
      unfold flexAdvertiseCheck
      rw [if_pos (by simpa using hgate)]
      exact hfind
  · exact ⟨a, (find_check_of_ne hne).trans hfind, ha⟩

theorem due_checks {keys : List Key} {a : AdvRoute} (hk : e.Eligible p k)
    (hfind : x.adv.find k = some a) (ha : a.Due (e.expectedRtt p k).rtt) :
    ∃ b, (keys.foldl (fun x k => e.flexAdvertiseCheck p k false x) x).adv.find k = some b ∧
      b.Due (e.expectedRtt p k).rtt := by
  induction keys generalizing x a with
  | nil => exact ⟨a, hfind, ha⟩
  | cons k' keys ih =>
      obtain ⟨b, hb, hdue⟩ : ∃ b, (e.flexAdvertiseCheck p k' false x).adv.find k = some b ∧
          b.Due (e.expectedRtt p k).rtt := due_check hk hfind ha
      exact ih hb hdue

/-- The walk over a cleared table queues every destination that may be told, until the table is
full. -/
theorem due_walk (hcleared : x.adv = {}) (hreleased : x.pcfQuiesced = false)
    (hk : e.Eligible p k) :
    (∃ a, (e.flexAdvertiseWalkForPeer p false false x).1.adv.find k = some a ∧
      a.Due (e.expectedRtt p k).rtt) ∨
      maxAdvertised ≤ (e.flexAdvertiseWalkForPeer p false false x).1.adv.advs.length := by
  have hoffers := expectedRtt_lt_iff.mp hk.offered
  obtain ⟨before, after, hkeys, hfirst⟩ :=
    List.eq_append_cons_of_mem (mem_walkKeys_of_offers hk.named hoffers)
  obtain ⟨hfind, hlatch⟩ := @find_checks_of_notMem e p k x before false hfirst
  rw [flexAdvertiseWalkForPeer_fst, hkeys, List.foldl_append, List.foldl_cons]
  generalize before.foldl _ x = w at hfind hlatch ⊢
  have hgate : e.checkGate p k w = true := by
    simp [checkGate, Config.recordsAllowed, hk.transit, hk.up, hk.linked, hlatch, hreleased,
      hk.named, hk.notOurs]
  have hnone : w.adv.find k = none := by
    rw [hfind, hcleared]
    rfl
  by_cases hroom : w.adv.advs.length < maxAdvertised
  · obtain ⟨b, hb, hdue⟩ := due_checkEntry true k none hk.gated
      (expectedRtt_src_isSome.mpr hoffers) hk.offered checkInput_penalty
      (fun a ha => by cases ha) (.inl rfl)
    refine .inl (due_checks (x := e.flexAdvertiseCheck p k false w) hk ?_ hdue)
    rw [find_check_self hgate, hnone, decide_eq_true hroom]
    exact hb
  · exact .inr ((not_lt.mp hroom).trans (length_check.trans length_checks))

/-! ## The drain -/

/-- A destination is announced at a cost in one of the frames. -/
def Announces (k : Key) (cost : ℤ) (frames : List WireEvent) : Prop :=
  ∃ records, (k, cost) ∈ records ∧ .frame pidCE (recordsFrame records) ∈ frames

/-- A destination is queued with a cost, or was announced at it in a frame gained since. -/
def Told (k : Key) (cost : ℤ) (x y : Peer) : Prop :=
  (∃ a, y.adv.find k = some a ∧ a.Due cost) ∨
    ∃ gained, y.wire = x.wire ++ gained ∧ Announces k cost gained

theorem Announces.mono {cost : ℤ} {frames more : List WireEvent} (h : Announces k cost frames)
    (hsub : frames ⊆ more) : Announces k cost more := by
  obtain ⟨records, hk, hframe⟩ := h
  exact ⟨records, hk, hsub hframe⟩

theorem length_packed {now : ℤ} {picks : List AdvRoute} {st st' : AdvertisedState}
    (hs : st.Sound) (h : AdvertisedState.Packed now picks st st') :
    st'.advs.length = st.advs.length := by
  have hsub : ∀ st st' : AdvertisedState, st.Sound →
    (∀ k, (st.find k).isSome → (st'.find k).isSome) →
      st.advs.length ≤ st'.advs.length := fun st st' hs hfind => by
    have hkeys : st.advs.map AdvRoute.key ⊆ st'.advs.map AdvRoute.key := fun k hk => by
      obtain ⟨a, ha, rfl⟩ := List.mem_map.mp hk
      have hsome := hfind a.key (by rw [hs.find_of_mem ha]; rfl)
      obtain ⟨b, hb⟩ := Option.isSome_iff_exists.mp hsome
      exact List.mem_map.mpr ⟨b, AdvertisedState.mem_of_find hb, AdvertisedState.find_key hb⟩
    simpa using (hs.distinct.subperm hkeys).length_le
  refine le_antisymm (hsub st' st h.sound fun k hk => ?_) (hsub st st' hs fun k hk => ?_)
  · rw [h.find] at hk
    simpa using hk
  · rw [h.find]
    simpa using hk

/-- The frame loop keeps what is due, or announces it. -/
theorem due_drainFrames (isPcf : Bool) (turns : ℕ) {cost : ℤ} {a : AdvRoute}
    (hbuf : ∀ i, e.cfg.getBuff p i = true) (hs : x.adv.Sound) (hfind : x.adv.find k = some a)
    (ha : a.Due cost) : Told k cost x (e.drainFrames p isPcf turns x).1 := by
  induction turns generalizing x with
  | zero => exact .inl ⟨a, hfind, ha⟩
  | succ turns ih =>
      rcases e.emitFrame_cases p isPcf hs with ⟨-, heq⟩ | ⟨picks, st, hne, -, hpacked, heq⟩
      · simp only [drainFrames, heq]
        exact .inl ⟨a, hfind, ha⟩
      · have hwire :
            ∀ y : Peer, (e.flexSendFrame p pidCE (recordsFrame (pickRecords picks)) y).wire =
            y.wire ++ [.frame pidCE (recordsFrame (pickRecords picks))] := fun y => by
          simp [flexSendFrame, hbuf]
        simp only [drainFrames, heq]
        generalize hy : e.flexSendFrame p pidCE (recordsFrame (pickRecords picks))
          { x with adv := { st with tokens := st.tokens - 1 } } = y
        have hgained : y.wire = x.wire ++ [.frame pidCE (recordsFrame (pickRecords picks))] := by
          rw [← hy, hwire]
        obtain ⟨more, hmore, -⟩ := e.gains_drainFrames p isPcf turns y
        have hentry := hpacked.find k
        rw [hfind, Option.map_some] at hentry
        by_cases hpick : a ∈ picks
        · refine .inr ⟨[.frame pidCE (recordsFrame (pickRecords picks))] ++ more, ?_, ?_⟩
          · rw [hmore, hgained, List.append_assoc]
          · refine ⟨_, List.mem_map.mpr ⟨a, hpick, ?_⟩, List.mem_append_left _
              (List.mem_singleton_self _)⟩
            rw [AdvertisedState.find_key hfind, ha.pendingRtt]
        · rw [if_neg hpick] at hentry
          have hfind' : y.adv.find k = some a := by
            rw [← hy]
            exact hentry
          have hsound' : y.adv.Sound := by
            rw [← hy]
            exact ⟨hpacked.sound.distinct, hpacked.sound.entries⟩
          rcases ih hsound' hfind' with h | ⟨gained, hmore, hann⟩
          · exact .inl h
          · refine .inr ⟨[.frame pidCE (recordsFrame (pickRecords picks))] ++ gained, ?_, ?_⟩
            · rw [hmore, hgained, List.append_assoc]
            · exact hann.mono (List.subset_append_right _ _)

/-- What is due before a drain is queued after it, or announced by it. -/
theorem due_drain {cost : ℤ} {a : AdvRoute} (hbuf : ∀ i, e.cfg.getBuff p i = true)
    (hs : x.adv.Sound) (hfind : x.adv.find k = some a) (ha : a.Due cost) :
    Told k cost x (e.flexAdvertiseDrain p x) := by
  unfold flexAdvertiseDrain
  split_ifs
  · exact .inl ⟨a, hfind, ha⟩
  · exact .inl ⟨a, hfind, ha⟩
  · dsimp only
    set isPcf := (e.sessions p).flexPeerIsPcf
    set y : Peer := { x with adv := x.adv.refill isPcf e.now }
    have hsound : y.adv.Sound := ⟨by simpa [y] using hs.distinct, by simpa [y] using hs.entries⟩
    have htold := due_drainFrames isPcf
      (if e.cfg.recordsAllowed y = true then y.adv.tokens.floor.toNat else 0) hbuf hsound
      (AdvertisedState.find_refill.trans hfind) ha
    generalize e.drainFrames p isPcf _ y = r at htold ⊢
    obtain ⟨z, frames⟩ := r
    dsimp only at htold ⊢
    rcases htold with ⟨b, hb, hdue⟩ | ⟨gained, hwire, hann⟩
    · refine .inl ⟨b, ?_, hdue⟩
      rw [AdvertisedState.find, View.drainEob_advs]
      exact hb
    · rcases View.drainEob_wire (p := p) e isPcf frames z with hsame | hsame
      · exact .inr ⟨gained, hsame.trans hwire, hann⟩
      · refine .inr ⟨gained ++ [.frame pidCE releaseToken], ?_, ?_⟩
        · rw [hsame, hwire, List.append_assoc]
        · exact hann.mono (List.subset_append_left _ _)

theorem length_drainFrames {isPcf : Bool} {turns : ℕ} (hs : x.adv.Sound) :
    (e.drainFrames p isPcf turns x).1.adv.advs.length = x.adv.advs.length := by
  induction turns generalizing x with
  | zero => rfl
  | succ turns ih =>
      rcases e.emitFrame_cases p isPcf hs with ⟨-, heq⟩ | ⟨picks, st, hne, -, hpacked, heq⟩
      · simp only [drainFrames, heq]
      · simp only [drainFrames, heq]
        have hlen := length_packed hs hpacked
        exact (ih ⟨hpacked.sound.distinct, hpacked.sound.entries⟩).trans hlen

theorem length_drain (hs : x.adv.Sound) :
    (e.flexAdvertiseDrain p x).adv.advs.length = x.adv.advs.length := by
  unfold flexAdvertiseDrain
  split_ifs
  · rfl
  · rfl
  · dsimp only
    rw [View.drainEob_advs]
    refine (length_drainFrames ⟨by simpa using hs.distinct, by simpa using hs.entries⟩).trans ?_
    rw [AdvertisedState.advs_refill]

end Env

/-! ## The answer -/

namespace Node

variable {n : Node} {s : Slot} {data : CStr} {k : Key}

/-- What an established session sends at once in answer to an INIT. -/
def reinitFrames (cfg : Config) : List WireEvent :=
  [.frame pidCE (flexBuildInit cfg.initMax), .frame pidCE flexBuildKeepalive] ++
    cfg.ownFrame.toList.map (.frame pidCE)

theorem sendFrame_buffered (n : Node) (hbuf : ∀ i, n.cfg.getBuff s i = true) (pid : UInt8)
    (frame : CStr) :
    ((n.flexSendFrame s pid frame).peers s).wire = (n.peers s).wire ++ [.frame pid frame] := by
  simp [flexSendFrame, Env.flexSendFrame, hbuf]

/-- The answer up to the seed. -/
theorem answerReinit_peer (hbuf : ∀ i, n.cfg.getBuff s i = true) :
    ((n.answerReinit s).peers s).wire = (n.peers s).wire ++
        [.frame pidCE (flexBuildInit n.cfg.initMax), .frame pidCE flexBuildKeepalive, .cleared] ∧
      ((n.answerReinit s).peers s).adv = {} ∧ ((n.answerReinit s).peers s).pcfQuiesced = false := by
  have hinit := n.sendFrame_buffered hbuf pidCE (flexBuildInit n.cfg.initMax)
  have hkeepalive := (n.flexSendInit s).sendFrame_buffered hbuf pidCE flexBuildKeepalive
  have hcleared : ((n.answerReinit s).peers s).wire =
      (((n.flexSendInit s).sendKeepalive s).peers s).wire ++ [.cleared] := by
    simp [answerReinit, clearAdvertised]
  have hsent : ((n.flexSendInit s).peers s).wire =
      ((n.flexSendFrame s pidCE (flexBuildInit n.cfg.initMax)).peers s).wire := rfl
  refine ⟨?_, by simp [answerReinit, clearAdvertised], by simp [answerReinit, clearAdvertised]⟩
  rw [hcleared, sendKeepalive, hkeepalive, hsent, hinit]
  simp

theorem ownRoutes_wire (hbuf : ∀ i, n.cfg.getBuff s i = true) (x : Peer) :
    (n.toEnv.flexSendOwnRoutes s false x).wire = x.wire ++
        (n.cfg.ownFrame.toList.map (.frame pidCE) ++ [.frame pidCE releaseToken]) ∧
      (n.toEnv.flexSendOwnRoutes s false x).adv = x.adv ∧
      (n.toEnv.flexSendOwnRoutes s false x).pcfQuiesced = x.pcfQuiesced := by
  unfold Env.flexSendOwnRoutes
  cases n.cfg.ownFrame <;> simp [Env.flexSendFrame, hbuf]

/-- The node when the seed of an answered peer begins. -/
def seeding (n : Node) (s : Slot) : Node :=
  let m := (n.answerReinit s).flexSendOwnRoutes s false
  m.setSession s { m.sessions s with sentRoutes := true }

theorem answerReinit_seedIfUnsent (n : Node) (s : Slot) :
    (n.answerReinit s).seedIfUnsent s = (n.seeding s).flexAdvertiseSeedPeer s := by
  unfold seedIfUnsent seeding
  rw [if_neg]
  simp [answerReinit, clearAdvertised]

theorem seeding_peer (hbuf : ∀ i, n.cfg.getBuff s i = true) :
    (∃ gained, ((n.seeding s).peers s).wire = (n.peers s).wire ++ gained ∧
      (reinitFrames n.cfg).Sublist gained) ∧
    ((n.seeding s).peers s).adv = {} ∧ ((n.seeding s).peers s).pcfQuiesced = false := by
  obtain ⟨hwire, hadv, hlatch⟩ := answerReinit_peer hbuf
  have hcfg : (n.answerReinit s).cfg = n.cfg := rfl
  obtain ⟨hown, hadv', hlatch'⟩ := ownRoutes_wire (n := n.answerReinit s) (s := s) hbuf
    ((n.answerReinit s).peers s)
  have hpeer : (n.seeding s).peers s =
      (n.answerReinit s).toEnv.flexSendOwnRoutes s false ((n.answerReinit s).peers s) :=
    setPeer_peers_self _ s _
  rw [hpeer, hown, hwire, hcfg]
  refine ⟨⟨_, List.append_assoc .., ?_⟩, hadv'.trans hadv, hlatch'.trans hlatch⟩
  have hfirst : [WireEvent.frame pidCE (flexBuildInit n.cfg.initMax),
      .frame pidCE flexBuildKeepalive].Sublist [.frame pidCE (flexBuildInit n.cfg.initMax),
        .frame pidCE flexBuildKeepalive, .cleared] :=
    List.sublist_append_left _ [WireEvent.cleared]
  exact hfirst.append (List.sublist_append_left _ _)

theorem heardInit_cfg (n : Node) (s : Slot) (data : CStr) : (n.heardInit s data).cfg = n.cfg := by
  have hflag : ∀ (m : Node) k, (m.flagDirect s k).cfg = m.cfg := fun m k => by
    unfold flagDirect
    split <;> rfl
  have hentry : ∀ m : Node, (m.flexAddNeighbourEntry s).cfg = m.cfg := fun m => by
    unfold flexAddNeighbourEntry
    dsimp only
    split_ifs
    · rfl
    · rfl
    · exact (hflag _ _).trans (flexDtableMerge_tables _ _ s).2.1
    · exact (flexDtableMerge_tables _ _ s).2.1
  have hfamily : ∀ m : Node, (m.inferFamily s data.length).cfg = m.cfg := fun m => by
    unfold inferFamily
    dsimp only
    split_ifs <;> rfl
  exact (hfamily _).trans (hentry _)

/-- The seed reads the tables the answer found. -/
theorem eligible_seeding {h : Node} (hk : h.toEnv.Eligible s k) :
    (h.seeding s).toEnv.Eligible s k ∧
      (h.seeding s).toEnv.expectedRtt s k = h.toEnv.expectedRtt s k := by
  have hsession : (h.seeding s).sessions s = { h.sessions s with
      lastInitTx := h.now, lastKeepalive := h.now, sentRoutes := true } := by
    simp [seeding, answerReinit, clearAdvertised, flexSendInit, sendKeepalive, flexSendFrame,
      flexSendOwnRoutes]
    rfl
  have hother : ∀ i, i ≠ s → (h.seeding s).sessions i = h.sessions i := fun i hi =>
    (setSession_sessions_of_ne _ _ hi).trans
      ((setSession_sessions_of_ne _ _ hi).trans (setSession_sessions_of_ne _ _ hi))
  refine hk.congr rfl rfl (fun _ => rfl) rfl (fun i => ?_) (fun i => ?_) (fun i => ?_) fun i => ?_
  all_goals
    by_cases hi : i = s
    · rw [hi, hsession]
    · rw [hother i hi]

/-- The seed of a peer with a cleared table: every destination that may be told is announced or
queued. -/
theorem seedPeer_told {w : Node} (hbuf : ∀ i, w.cfg.getBuff s i = true)
    (hcleared : (w.peers s).adv = {}) (hreleased : (w.peers s).pcfQuiesced = false)
    (hk : w.toEnv.Eligible s k) :
    Env.Told k (w.expectedRtt s k).rtt (w.peers s) ((w.flexAdvertiseSeedPeer s).peers s) ∨
      maxAdvertised ≤ ((w.flexAdvertiseSeedPeer s).peers s).adv.advs.length := by
  have hwalk := Env.due_walk (x := w.peers s) hcleared hreleased hk
  have hsound : (w.toEnv.flexAdvertiseWalkForPeer s false false (w.peers s)).1.adv.Sound := by
    rw [Env.flexAdvertiseWalkForPeer_fst]
    refine Sweep.foldl_keeps (P := fun x : Peer => x.adv.Sound) (fun _ _ => Env.sound_check) _ ?_
    rw [hcleared]
    exact .empty
  have hwire := w.toEnv.flexAdvertiseWalkForPeer_wire s false false (w.peers s)
  have hseed : (w.flexAdvertiseSeedPeer s).peers s =
      if 0 < (w.toEnv.flexAdvertiseWalkForPeer s false false (w.peers s)).2 then
        w.toEnv.flexAdvertiseDrain s (w.toEnv.flexAdvertiseWalkForPeer s false false (w.peers s)).1
      else (w.toEnv.flexAdvertiseWalkForPeer s false false (w.peers s)).1 := by
    unfold flexAdvertiseSeedPeer
    rw [if_neg (by simp [hk.transit])]
    simp only [flexAdvertiseWalkForPeer]
    by_cases hqueued : 0 < (w.toEnv.flexAdvertiseWalkForPeer s false false (w.peers s)).2 <;>
      simp [anchorAdvert, flexAdvertiseDrain, hqueued]
  rw [hseed]
  generalize w.toEnv.flexAdvertiseWalkForPeer s false false (w.peers s) = r at hwalk hsound hwire ⊢
  obtain ⟨y, queued⟩ := r
  dsimp only at hwalk hsound hwire ⊢
  split_ifs
  · rcases hwalk with ⟨a, hfind, hdue⟩ | hfull
    · refine .inl ((Env.due_drain hbuf hsound hfind hdue).imp_right ?_)
      rintro ⟨gained, hgained, hann⟩
      exact ⟨gained, hgained.trans (by rw [hwire]), hann⟩
    · exact .inr (hfull.trans (Env.length_drain hsound).ge)
  · exact hwalk.imp_left .inl

/-- An INIT that an established session answers is answered with an INIT, a keepalive and the node's
own frame, and every destination that may be told is announced or queued at its cost, as far as the
table has entries. -/
theorem handleFrame_reseeds (hparse : flexParseCeFrame n.cfg.lt3byte data = some .init)
    (hanswers : n.answersInit s = true) (hbuf : ∀ i, n.cfg.getBuff s i = true) :
    let h := n.heardInit s data
    let x := (n.handleFrame s data).peers s
    ∃ gained, x.wire = (n.peers s).wire ++ gained ∧ (reinitFrames n.cfg).Sublist gained ∧
      ∀ k, h.toEnv.Eligible s k → (∃ a, x.adv.find k = some a ∧ a.Due (h.expectedRtt s k).rtt) ∨
        Env.Announces k (h.expectedRtt s k).rtt gained ∨ maxAdvertised ≤ x.adv.advs.length := by
  intro h x
  have hcfg : h.cfg = n.cfg := n.heardInit_cfg s data
  have hbuf' : ∀ i, h.cfg.getBuff s i = true := hcfg ▸ hbuf
  have hx : x = ((h.seeding s).flexAdvertiseSeedPeer s).peers s := by
    simp only [x, handleFrame, hparse, handleInit_eq, if_pos hanswers]
    rw [answerReinit_seedIfUnsent]
  obtain ⟨heard, hheard, -⟩ : (n.peers s).Mute (h.peers s) := (n.calm_heardInit s data).mute s
  obtain ⟨⟨gained, hwire, hfirst⟩, hadv, hlatch⟩ := seeding_peer (s := s) hbuf'
  rw [hcfg] at hfirst
  have hbuf'' : ∀ i, (h.seeding s).cfg.getBuff s i = true := hbuf'
  generalize hw : h.seeding s = w at hx hwire hadv hlatch hbuf''
  obtain ⟨seeded, hseeded, -⟩ : (w.peers s).Mute ((w.flexAdvertiseSeedPeer s).peers s) :=
    (calm_flexAdvertiseSeedPeer w s).mute s
  refine ⟨heard ++ gained ++ seeded, ?_, ?_, fun k hk => ?_⟩
  · rw [hx, hseeded, hwire, hheard]
    simp
  · exact (hfirst.trans (List.sublist_append_right heard gained)).trans
      (List.sublist_append_left _ seeded)
  · obtain ⟨hkw, hcost⟩ := eligible_seeding hk
    rw [hw] at hkw hcost
    rw [← hcost]
    rcases seedPeer_told hbuf'' hadv hlatch hkw with (hdue | ⟨told, htold, hann⟩) | hfull
    · exact .inl (hx ▸ hdue)
    · obtain rfl : told = seeded := List.append_cancel_left (htold.symm.trans hseeded)
      exact .inr (.inl (hann.mono (List.subset_append_right _ _)))
    · exact .inr (.inr (hx ▸ hfull))

end Node

/-! ## The handshake -/

/-- Two nodes whose rows tell who their sessions are with: an answer that comes back within the
guard is not answered, so the two answer no more INITs than they started with.  And an INIT that
reaches an established session a guard after its last one is answered in full. -/
theorem init_handshake (peer : Bool → Station) :
    (∀ t, Talk.Reached peer True t →
      (∀ y x sent l s, x ∈ t.toward y → x.answers = some sent →
        (t.node y).now - sent < reinitGuard → (t.node y).IsRowOf l (peer y) →
        (t.node y).OwnsRow l → (t.node y).flexFindSession l = some s →
          (t.node y).answersInit s = false ∧
          (t.node y).initsTo ((t.node y).act (.hear l x.octets)) (peer y) = []) ∧
      t.started + t.answered ≤ 2 * t.started) ∧
    ∀ (n : Node) l s data, n.flexFindSession l = some s →
      flexParseCeFrame n.cfg.lt3byte data = some .init →
      (n.sessions s).flexIsEstablished = true →
      reinitGuard ≤ n.now - (n.sessions s).lastInitTx →
      (∀ i, n.cfg.getBuff s i = true) →
      let h := n.heardInit s data
      let x := (n.act (.hear l data)).peers s
      ∃ gained, x.wire = (n.peers s).wire ++ gained ∧ (Node.reinitFrames n.cfg).Sublist gained ∧
        ∀ k, h.toEnv.Eligible s k → (∃ a, x.adv.find k = some a ∧ a.Due (h.expectedRtt s k).rtt) ∨
          Env.Announces k (h.expectedRtt s k).rtt gained ∨ maxAdvertised ≤ x.adv.advs.length := by
  refine ⟨fun t ht => ?_, fun n l s data hfound hparse hest hguard hbuf => ?_⟩
  · have hsettled := ht.settled
    refine ⟨fun y x sent l s hx hanswers htrip hrow hown hfound => ?_, ?_⟩
    · have hnone := hsettled.unanswered hx hanswers htrip hrow hown hfound
      refine ⟨hnone, Node.initsTo_of_calm ?_⟩
      rw [Node.act, Node.rowHears, hfound]
      exact (t.node y).calm_handleFrame_unanswered s _ hnone
    · have hcount := hsettled.count
      omega
  · have hanswers : n.answersInit s = true := by
      rw [Node.answersInit, flexReinitAnswer, hest, Bool.true_and]
      exact decide_eq_true (.inr (.inr hguard))
    have hheard : n.act (.hear l data) = n.handleFrame s data := by
      rw [Node.act, Node.rowHears, hfound]
    rw [hheard]
    exact Node.handleFrame_reseeds hparse hanswers hbuf

/-! ## A station that restarts, and one that moves -/

namespace Talk

variable {peer : Bool → Station} {tells : Prop} {t : Talk}

/-- The next INIT arrives on a row. -/
def arrives (t : Talk) (peer : Bool → Station) (y : Bool) (l : LinkId) : Talk :=
  match t.toward y with
  | [] => t
  | x :: rest => t.hears peer y l x rest

theorem Reached.does (h : Reached peer tells t) (y : Bool) (a : Act) (hwhole : a.Whole)
    (hquiet : ∀ l data, a ≠ .hear l data) (htells : tells → a.Tells (t.node y)) :
    Reached peer tells (t.does peer y a) :=
  h.step (.act t y a hwhole (fun ⟨l, data, heq, _⟩ => hquiet l data heq) htells)

theorem Reached.arrives (h : Reached peer tells t) (y : Bool) (l : LinkId)
    (hrow : (t.node y).IsRowOf l (peer y))
    (htrip : ∀ x ∈ t.toward y, ∀ sent ∈ x.answers, (t.node y).now - sent < reinitGuard)
    (htells : tells → (t.node y).OwnsRow l) : Reached peer tells (t.arrives peer y l) := by
  unfold Talk.arrives
  cases hway : t.toward y with
  | nil => exact h
  | cons x rest =>
      exact h.step (.arrive t y l [] x rest hway hrow (htrip x (by simp [hway])) htells)

end Talk

namespace Bench

/-- Station `us`, with `them` in row 0. -/
def side (us them : UInt8) (now : ℤ) : Node :=
  .boot { config false with myCall := addr us } [] []
    (fun l => if l = 0 then row (addr them) else {}) now

/-- `A` and `B`, each as the other knows it. -/
def stations : Bool → Station
  | false => ⟨[0x42], 1⟩
  | true => ⟨[0x41], 1⟩

/-- `A` and `B` before they meet. -/
def apart : Talk where
  node y := if y then side 0x42 0x41 1000 else side 0x41 0x42 1000
  toward _ := []
  started := 0
  answered := 0

/-- Both start. -/
def bothStarted : Talk :=
  (apart.does stations false (.event (.initSession 0 1))).does stations true
    (.event (.initSession 0 1))

/-- Both hear the other's INIT, and 100 s pass. -/
def met : Talk :=
  (((bothStarted.arrives stations true 0).arrives stations false 0).does stations false
    (.event (.clock 100 0))).does stations true (.event (.clock 100 0))

/-- `B` restarts, and starts again. -/
def again : Talk :=
  ({ met with node := Function.update met.node true (side 0x42 0x41 1100) }).does stations true
    (.event (.initSession 0 1))

set_option maxRecDepth 10000 in
theorem bothStarted_reached (tells : Prop) : Talk.Reached stations tells bothStarted := by
  have hapart : Talk.Reached stations tells apart := by
    refine .boot _ ?_ ?_ (fun _ => rfl) rfl rfl <;> decide +kernel
  refine (hapart.does false (.event (.initSession 0 1)) trivial nofun fun _ => ⟨?_, ?_⟩).does true
    (.event (.initSession 0 1)) trivial nofun fun _ => ⟨?_, ?_⟩
  all_goals
    try unfold Node.OnRow
    decide +kernel

set_option maxRecDepth 10000 in
theorem met_reached (tells : Prop) : Talk.Reached stations tells met := by
  have hstarted := bothStarted_reached tells
  refine (((hstarted.arrives true 0 ⟨?_, ?_⟩ ?_ fun _ => ?_).arrives false 0 ⟨?_, ?_⟩ ?_
    fun _ => ?_).does false (.event (.clock 100 0)) trivial nofun fun _ => trivial).does true
      (.event (.clock 100 0)) trivial nofun fun _ => trivial
  all_goals
    try unfold Node.OwnsRow Node.OnRow
    decide +kernel

set_option maxRecDepth 10000 in
theorem again_reached (tells : Prop) : Talk.Reached stations tells again := by
  refine ((met_reached tells).step (.restart met true (side 0x42 0x41 1100) (fun _ => rfl) ?_)).does
    true (.event (.initSession 0 1)) trivial nofun fun _ => ⟨?_, ?_⟩
  all_goals
    try unfold Node.OnRow
    decide +kernel

/-- `A` answers the INIT of `B`. -/
def told : Talk := again.arrives stations false 0

set_option maxRecDepth 10000 in
/-- The answer is not answered: two nodes that started three times have answered once.  It is the
INIT, the keepalive and the own frame, and what is due. -/
theorem init_handshake_restarted :
    (told.node true).answersInit 0 = false ∧ told.started + told.answered ≤ 2 * told.started ∧
      ∃ gained, (((again.node false).act (.hear 0 (flexBuildInit 0))).peers 0).wire =
        ((again.node false).peers 0).wire ++ gained ∧
          (Node.reinitFrames (again.node false).cfg).Sublist gained := by
  have hreached : Talk.Reached stations True told := by
    refine (again_reached True).arrives false 0 ⟨?_, ?_⟩ ?_ fun _ => ?_
    all_goals
      try unfold Node.OwnsRow Node.OnRow
      decide +kernel
  obtain ⟨hrun, hreseed⟩ := init_handshake stations
  obtain ⟨hanswer, hcount⟩ := hrun told hreached
  have hway : ∃ x ∈ told.toward true, x.answers = some 1100 := by decide +kernel
  obtain ⟨x, hx, hanswers⟩ := hway
  have hnone := (hanswer true x 1100 0 0 hx hanswers (by decide +kernel)
    ⟨by decide +kernel, by decide +kernel⟩ (by unfold Node.OwnsRow Node.OnRow; decide +kernel)
    (by decide +kernel)).1
  obtain ⟨gained, hwire, hfirst, -⟩ := hreseed (again.node false) 0 0 (flexBuildInit 0)
    (by decide +kernel) (by decide +kernel) (by decide +kernel) (by decide +kernel) (fun _ => rfl)
  exact ⟨hnone, hcount, gained, hwire, hfirst⟩

/-- `A` is moved to another row of `B` without an accepted SABM: `B` starts a second session there,
and the reaper points the first one at the row while the answer to it is under way. -/
def moved : Talk :=
  ((((met.does stations true (.event (.row 0 {}))).does stations true
    (.event (.row 2 (row (addr 0x41))))).does stations true (.event (.initSession 2 1))).arrives
      stations false 0).does stations true (.reapTurn slotA)

/-- `A` with a session to `B` established for 100 s, and no buffer left. -/
def bufferless : Node :=
  (Node.boot { config false with myCall := addr 0x41, getBuff := fun _ _ => false } [] []
    (fun l => if l = 0 then row (addr 0x42) else {}) 1000).after
    [.initSession 0 1, .processCE 0 (flexBuildInit 0), .clock 100 0]

set_option maxRecDepth 10000 in
/-- Where a station gets a second session, the answer to an INIT may be answered with an INIT.  And
without a buffer an INIT that should be answered is not. -/
theorem handshake_unsettled :
    (Talk.Reached stations False moved ∧ ∃ x ∈ moved.toward true, x.answers = some 1100 ∧
      (moved.node true).now - 1100 < reinitGuard ∧ (moved.node true).IsRowOf 2 (stations true) ∧
      (moved.node true).flexFindSession 2 = some 0 ∧ (moved.node true).answersInit 0 = true ∧
      (moved.node true).initsTo ((moved.node true).act (.hear 2 x.octets)) (stations true) ≠ []) ∧
    bufferless.flexFindSession 0 = some 0 ∧ (bufferless.sessions 0).flexIsEstablished = true ∧
      reinitGuard ≤ bufferless.now - (bufferless.sessions 0).lastInitTx ∧
      ((bufferless.act (.hear 0 (flexBuildInit 0))).peers 0).wire =
        (bufferless.peers 0).wire ++ [.cleared] := by
  refine ⟨⟨?_, ?_⟩, ?_⟩
  · refine ((((((met_reached False).does true (.event (.row 0 {})) trivial nofun nofun).does true
      (.event (.row 2 (row (addr 0x41)))) trivial nofun nofun).does true
        (.event (.initSession 2 1)) trivial nofun nofun).arrives false 0 ⟨?_, ?_⟩ ?_ nofun)).does
          true (.reapTurn slotA) trivial nofun nofun
    all_goals decide +kernel
  · unfold Node.IsRowOf
    decide +kernel
  · decide +kernel

end Bench

end FlexNet
