import FlexNet.Exchange.Handled
import FlexNet.Routing.OneSession

/-!
# Who sends an INIT, and when

`flex_send_init` stamps the session it sends on.  `Node.Calm` is what every function does that does
not call it: no INIT is queued on any slot, and no session comes up, loses its stamp or changes its
station.  `Node.Stamps` is what the others do: a session that is up afterwards and was not left
alone so has been stamped with the present time, and no station gets a second session.
-/

namespace FlexNet

/-- An INIT. -/
def WireEvent.isInit : WireEvent → Bool
  | .frame pid data => pid == pidCE && data.head? == some 0x30
  | .cleared => false

theorem WireEvent.IsAdvert.isInit {w : WireEvent} (h : w.IsAdvert) : w.isInit = false := by
  obtain ⟨rest, rfl, -⟩ := h
  rfl

/-- The peer is told something else than an INIT. -/
abbrev Peer.Mute (x y : Peer) : Prop := x.Gains (fun w => w.isInit = false) y

namespace Node

/-- A session is with the station it was with, on the port it was on, or has gone down. -/
def KeepsStation (x y : Session) : Prop :=
  y.active = true → x.active = true ∧ y.port = x.port ∧
    flexNormalizeCallsign y.peerCallsign = flexNormalizeCallsign x.peerCallsign

/-- A session has its station and its stamp, or has gone down. -/
def Holds (x y : Session) : Prop :=
  KeepsStation x y ∧ (y.active = true → y.lastInitTx = x.lastInitTx)

/-- No two sessions that are up have one station on one port. -/
def OnePeer (n : Node) : Prop :=
  ∀ i j, (n.sessions i).active = true → (n.sessions j).active = true →
    (n.sessions i).port = (n.sessions j).port → n.peerName i = n.peerName j → i = j

/-- Nobody is sent an INIT, and sessions are as they were or go down. -/
structure Calm (n m : Node) : Prop where
  now : m.now = n.now
  mute : ∀ i, (n.peers i).Mute (m.peers i)
  holds : ∀ i, Holds (n.sessions i) (m.sessions i)

/-- A slot is calm, or its session has just sent an INIT. -/
def StampedAt (n m : Node) (i : Slot) : Prop :=
  (n.peers i).Mute (m.peers i) ∧ Holds (n.sessions i) (m.sessions i) ∨
    (n.peers i).wire <+: (m.peers i).wire ∧
      ((m.sessions i).active = true → (m.sessions i).lastInitTx = n.now)

/-- Sessions that are not calm have just sent an INIT. -/
structure Stamps (n m : Node) : Prop where
  now : m.now = n.now
  slot : ∀ i, n.StampedAt m i
  one : n.OnePeer → m.OnePeer

variable {n m o : Node} {s : Slot} {l : LinkId}

theorem KeepsStation.trans {x y z : Session} (h : KeepsStation x y) (h' : KeepsStation y z) :
    KeepsStation x z := fun hz => by
  obtain ⟨hy, hport, hname⟩ := h' hz
  obtain ⟨hx, hport', hname'⟩ := h hy
  exact ⟨hx, hport.trans hport', hname.trans hname'⟩

/-- A session that keeps what the handshake looks at. -/
theorem Holds.of_eq {x y : Session} (hup : y.active = x.active) (hport : y.port = x.port)
    (hcall : y.peerCallsign = x.peerCallsign) (hstamp : y.lastInitTx = x.lastInitTx) : Holds x y :=
  ⟨fun h => ⟨hup ▸ h, hport, congrArg _ hcall⟩, fun _ => hstamp⟩

theorem Holds.refl (x : Session) : Holds x x := .of_eq rfl rfl rfl rfl

theorem Holds.of_down {x y : Session} (hdown : y.active = false) : Holds x y := by
  have hnever : y.active ≠ true := by simp [hdown]
  exact ⟨fun h => absurd h hnever, fun h => absurd h hnever⟩

theorem Holds.trans {x y z : Session} (h : Holds x y) (h' : Holds y z) : Holds x z :=
  ⟨h.1.trans h'.1, fun hz => (h'.2 hz).trans (h.2 (h'.1 hz).1)⟩

/-- Sessions that keep their stations. -/
theorem OnePeer.of_same (h : ∀ i, KeepsStation (n.sessions i) (m.sessions i)) (hn : n.OnePeer) :
    m.OnePeer := fun i j hi hj hport hname => by
  obtain ⟨hi', hporti, hnamei⟩ := h i hi
  obtain ⟨hj', hportj, hnamej⟩ := h j hj
  exact hn i j hi' hj' (hporti ▸ hportj ▸ hport) (hnamei.symm.trans (hname.trans hnamej))

theorem Calm.refl (n : Node) : n.Calm n := ⟨rfl, fun _ => .refl _, fun _ => .refl _⟩

theorem Calm.trans (h : n.Calm m) (h' : m.Calm o) : n.Calm o :=
  ⟨h'.now.trans h.now, fun i => (h.mute i).trans (h'.mute i),
    fun i => (h.holds i).trans (h'.holds i)⟩

theorem Calm.ite {c : Prop} [Decidable c] (h : n.Calm m) (h' : n.Calm o) :
    n.Calm (if c then m else o) := by
  split_ifs
  exacts [h, h']

theorem Calm.foldl {α : Type*} {f : Node → α → Node} (h : ∀ (n : Node) a, n.Calm (f n a))
    (as : List α) (n : Node) : n.Calm (as.foldl f n) := by
  induction as generalizing n with
  | nil => exact .refl n
  | cons a as ih => exact (h n a).trans (ih _)

theorem Calm.stamps (h : n.Calm m) : n.Stamps m :=
  ⟨h.now, fun i => .inl ⟨h.mute i, h.holds i⟩, .of_same fun i => (h.holds i).1⟩

theorem Peer.Mute.isPrefix {x y : Peer} (h : x.Mute y) : x.wire <+: y.wire :=
  let ⟨gained, hwire, _⟩ := h
  ⟨gained, hwire.symm⟩

theorem Stamps.trans (h : n.Stamps m) (h' : m.Stamps o) : n.Stamps o := by
  refine ⟨h'.now.trans h.now, fun i => ?_, fun hn => h'.one (h.one hn)⟩
  rcases h.slot i with ⟨hmute, hholds⟩ | ⟨hwire, hstamp⟩
  · rcases h'.slot i with ⟨hmute', hholds'⟩ | ⟨hwire', hstamp'⟩
    · exact .inl ⟨hmute.trans hmute', hholds.trans hholds'⟩
    · exact .inr ⟨(Peer.Mute.isPrefix hmute).trans hwire', fun hup => (hstamp' hup).trans h.now⟩
  · rcases h'.slot i with ⟨hmute', hholds'⟩ | ⟨hwire', hstamp'⟩
    · refine .inr ⟨hwire.trans (Peer.Mute.isPrefix hmute'), fun hup => ?_⟩
      exact (hholds'.2 hup).trans (hstamp (hholds'.1 hup).1)
    · exact .inr ⟨hwire.trans hwire', fun hup => (hstamp' hup).trans h.now⟩

theorem Stamps.refl (n : Node) : n.Stamps n := (Calm.refl n).stamps

theorem Stamps.ite {c : Prop} [Decidable c] (h : n.Stamps m) (h' : n.Stamps o) :
    n.Stamps (if c then m else o) := by
  split_ifs
  exacts [h, h']

/-! ## Single writes -/

/-- The tables the handshake does not look at. -/
theorem calm_of_eq (hnow : m.now = n.now) (hpeers : m.peers = n.peers)
    (hsessions : m.sessions = n.sessions) : n.Calm m :=
  ⟨hnow, fun _ => .of_eq (by rw [hpeers]), fun _ => hsessions ▸ .refl _⟩

theorem stamps_of_eq (hnow : m.now = n.now) (hpeers : m.peers = n.peers)
    (hsessions : m.sessions = n.sessions) : n.Stamps m := (calm_of_eq hnow hpeers hsessions).stamps

theorem calm_setLearned (n : Node) (s : Slot) (x : LearnedState) : n.Calm (n.setLearned s x) :=
  calm_of_eq rfl rfl rfl

theorem calm_setPeer (n : Node) {p : Slot} {x : Peer} (h : (n.peers p).Mute x) :
    n.Calm (n.setPeer p x) := by
  refine ⟨rfl, fun i => ?_, fun i => .refl _⟩
  by_cases hi : i = p
  · rw [hi, setPeer_peers_self]
    exact h
  · rw [setPeer_peers_of_ne n x hi]
    exact .refl _

theorem calm_setSession (n : Node) {s : Slot} {x : Session} (h : Holds (n.sessions s) x) :
    n.Calm (n.setSession s x) := by
  refine ⟨rfl, fun _ => .refl _, fun i => ?_⟩
  by_cases hi : i = s
  · rw [hi, setSession_sessions_self]
    exact h
  · rw [setSession_sessions_of_ne n x hi]
    exact .refl _

theorem calm_flexSendFrame (n : Node) (p : Slot) {pid : UInt8} {data : CStr}
    (h : (WireEvent.frame pid data).isInit = false) : n.Calm (n.flexSendFrame p pid data) :=
  n.calm_setPeer (n.gains_send p h (n.peers p))

theorem calm_sendKeepalive (n : Node) (p : Slot) : n.Calm (n.sendKeepalive p) :=
  n.calm_flexSendFrame p rfl

theorem calm_flexSendOwnRoutes (n : Node) (p : Slot) (deferEob : Bool) :
    n.Calm (n.flexSendOwnRoutes p deferEob) :=
  n.calm_setPeer ((n.gains_ownRoutes p deferEob (n.peers p)).mono fun _ hw => hw.isInit)

theorem calm_check (n : Node) (p : Slot) (k : Key) (force : Bool) :
    n.Calm (n.flexAdvertiseCheck p k force) :=
  n.calm_setPeer (.of_eq (n.flexAdvertiseCheck_wire p k force (n.peers p)))

theorem calm_drain (n : Node) (p : Slot) : n.Calm (n.flexAdvertiseDrain p) :=
  n.calm_setPeer ((n.gains_drain p (n.peers p)).mono fun _ hw => hw.isInit)

theorem calm_walk (n : Node) (p : Slot) (directOnly force : Bool) :
    n.Calm (n.flexAdvertiseWalkForPeer p directOnly force).1 :=
  n.calm_setPeer (.of_eq (n.flexAdvertiseWalkForPeer_wire p directOnly force (n.peers p)))

theorem calm_clearAdvertised (n : Node) (p : Slot) : n.Calm (n.clearAdvertised p) :=
  n.calm_setPeer ⟨[.cleared], rfl, fun w hw => by rw [List.mem_singleton.mp hw]; rfl⟩

/-- The latch of a peer is no part of its queue. -/
theorem calm_release (n : Node) (p : Slot) :
    n.Calm (n.setPeer p { n.peers p with pcfQuiesced := false, quiescedSince := 0 }) :=
  n.calm_setPeer (.of_eq rfl)

theorem calm_triggerPeersAll (n : Node) (s : Slot) (keys : List Key) :
    n.Calm (n.triggerPeersAll s keys) := by
  refine .foldl (fun n pi => .ite (.refl n) (.trans ?_ (calm_drain _ pi))) slots n
  exact .foldl (fun n k => calm_check n pi k false) keys n

theorem calm_flexAdvertisePoisonSession (n : Node) (s : Slot) :
    n.Calm (n.flexAdvertisePoisonSession s) := by
  have hchecks : ∀ (m : Node) (keys : List Key),
      m.Calm (keys.foldl (fun n k => slots.foldl (fun n pi =>
      if pi = s ∨ (n.sessions pi).active = false then n
      else n.flexAdvertiseCheck pi k false) n) m) := fun m keys => by
    refine .foldl (fun n k => .foldl (fun n pi => ?_) slots n) keys m
    exact .ite (.refl n) (calm_check n pi k false)
  have hdrains : ∀ m : Node, m.Calm (slots.foldl (fun n pi =>
      if (n.sessions pi).active = false then n else n.flexAdvertiseDrain pi) m) := fun m => by
    refine .foldl (fun n pi => ?_) slots m
    exact .ite (.refl n) (calm_drain n pi)
  unfold flexAdvertisePoisonSession
  refine .ite (.refl n) ?_
  extract_lets checked drained st
  have hdrained : n.Calm drained := (hchecks n (n.learned s).keys).trans (hdrains checked)
  exact hdrained.trans ((calm_setLearned drained s _).trans (calm_clearAdvertised _ s))

theorem calm_flexAdvertiseSeedPeer (n : Node) (p : Slot) : n.Calm (n.flexAdvertiseSeedPeer p) := by
  have hwalk := n.calm_walk p false false
  unfold flexAdvertiseSeedPeer
  generalize n.flexAdvertiseWalkForPeer p false false = r at hwalk
  obtain ⟨m, queued⟩ := r
  dsimp only at hwalk ⊢
  split_ifs
  · exact .refl n
  · exact (hwalk.trans (calm_drain m p)).trans (calm_of_eq rfl rfl rfl)
  · exact hwalk.trans (calm_of_eq rfl rfl rfl)

theorem calm_flexAdvertiseNeighbours (n : Node) (p : Slot) :
    n.Calm (n.flexAdvertiseNeighbours p) := by
  have hwalk := n.calm_walk p true true
  unfold flexAdvertiseNeighbours
  generalize n.flexAdvertiseWalkForPeer p true true = r at hwalk
  obtain ⟨m, queued⟩ := r
  dsimp only at hwalk ⊢
  split_ifs
  · exact .refl n
  · exact (hwalk.trans (calm_drain m p)).trans (calm_of_eq rfl rfl rfl)
  · exact hwalk.trans (calm_of_eq rfl rfl rfl)

/-! ## Records -/

theorem calm_flexLearnedAdd (n : Node) (s : Slot) (r : Record) : n.Calm (n.flexLearnedAdd s r) := by
  have htrigger : ∀ m : Node, m.Calm (m.triggerPeers s r.key) := fun m =>
    calm_triggerPeersAll m s [r.key]
  unfold flexLearnedAdd
  dsimp only
  refine .ite (.refl n) ?_
  split
  · refine .trans (.ite (.refl n) ?_) (calm_setLearned _ s _)
    exact (n.calm_setLearned s _).trans (htrigger _)
  · exact .ite (.refl n) ((n.calm_setLearned s _).trans (htrigger _))

theorem calm_flexDtableMerge (n : Node) (r : Record) (s : Slot) :
    n.Calm (n.flexDtableMerge r s) := by
  obtain ⟨dests, h | ⟨dests', h⟩⟩ := n.flexDtableMerge_cases r s <;> rw [h]
  · exact calm_of_eq rfl rfl rfl
  · refine .trans (m := { n with dests := dests }) (calm_of_eq rfl rfl rfl) ?_
    exact (calm_flexLearnedAdd _ s r).trans (calm_of_eq rfl rfl rfl)

theorem calm_flexAddNeighbourEntry (n : Node) (s : Slot) : n.Calm (n.flexAddNeighbourEntry s) := by
  have hflag : ∀ (m : Node) k, m.Calm (m.flagDirect s k) := fun m k => by
    unfold flagDirect
    split
    · exact .refl m
    · exact calm_of_eq rfl rfl rfl
  unfold flexAddNeighbourEntry
  dsimp only
  refine .ite (.refl n) (.ite (.refl n) ?_)
  set entered : Node := { n with nbrEntered := Function.update n.nbrEntered s true }
  have hentered : n.Calm entered := calm_of_eq rfl rfl rfl
  have hmerged := hentered.trans (calm_flexDtableMerge entered ⟨n.neighbourKey s, 1, false⟩ s)
  exact hmerged.trans (.ite (hflag _ _) (.refl _))

theorem calm_flexNotePeerEstablished (n : Node) (s : Slot) :
    n.Calm (n.flexNotePeerEstablished s) := by
  unfold flexNotePeerEstablished
  refine .ite (.refl n) ?_
  split
  · exact .refl n
  · refine .ite (.refl n) (.trans ?_ (calm_flexAddNeighbourEntry _ s))
    exact calm_setSession n (.of_eq rfl rfl rfl rfl)

/-! ## Link time and link options -/

theorem calm_flexSendLinkTime (n : Node) (s : Slot) : n.Calm (n.flexSendLinkTime s) := by
  unfold flexSendLinkTime
  dsimp only
  refine .ite (.refl n) (.trans (n.calm_flexSendFrame s ?_) (calm_setSession _ ?_))
  · rfl
  · exact .of_eq rfl rfl rfl rfl

theorem calm_flexLinkTimeSample (n : Node) (s : Slot) : n.Calm (n.flexLinkTimeSample s) := by
  have hmoved : ∀ m : Node, m.Calm (m.linkTimeMoved s) := fun m => by
    unfold linkTimeMoved
    dsimp only
    split_ifs
    · exact .refl m
    · exact m.calm_setLearned s _
    · exact (m.calm_setLearned s _).trans (calm_triggerPeersAll _ s _)
  unfold flexLinkTimeSample
  dsimp only
  refine .ite (.refl n) (.ite (calm_setSession n (.of_eq rfl rfl rfl rfl)) ?_)
  refine .ite (.trans ?_ (hmoved _)) ?_
  all_goals exact calm_setSession n (.of_eq rfl rfl rfl rfl)

theorem calm_flexLinkOptsPoll (n : Node) : n.Calm n.flexLinkOptsPoll := by
  have hchanged : ∀ (m : Node) s opts, m.Calm (m.flexLinkOptsChanged s opts) := fun m s opts => by
    unfold flexLinkOptsChanged
    extract_lets old n₁ shift n₂ n₃
    have hopts : m.Calm n₂ := by
      simp only [n₂]
      split_ifs <;> exact calm_of_eq rfl rfl rfl
    have htrigger : n₂.Calm n₃ := calm_triggerPeersAll n₂ s _
    refine hopts.trans (.ite (.refl n₂) (htrigger.trans (.ite (.refl n₃) ?_)))
    exact (n₃.calm_walk s false false).trans (calm_drain _ s)
  unfold flexLinkOptsPoll
  refine .ite (.refl n) (.trans (m := { n with linkOptsPolled := n.now }) (calm_of_eq rfl rfl rfl)
    (.foldl (fun m s => ?_) slots _))
  unfold pollLinkOpts
  dsimp only
  split
  · exact .refl m
  · exact .ite (.refl m) (.ite (.refl m) (hchanged m s _))

end Node

end FlexNet
