import FlexNet.Exchange.Speech
import Mathlib.Data.Fintype.Defs

/-!
# The gates of a session

`Node.Speaks` is what handling any frame of a session comes to on its own link, token and path
frames apart: the tables a frame is dispatched by stand, and what the peer is told has no stake.
`Node.Settles` adds that no gate opens, and that a gate shuts if anything is said; it holds of the
frames without a stake, since each of their answers stands behind a gate.
-/

namespace FlexNet

/-- What a frame without a stake may be answered with, each behind a condition of its own. -/
inductive Gate
  /-- the INIT and the keepalive of a re-INIT -/
  | reinit
  /-- the own frame and the full view -/
  | seed
  /-- the keepalive to a peer whose family is not known yet -/
  | shape
  /-- the echo of a keepalive -/
  | echo
  | linkTime
deriving DecidableEq

instance : Fintype Gate :=
  ⟨{.reinit, .seed, .shape, .echo, .linkTime}, fun g => by cases g <;> decide⟩

namespace Node

/-- The gate lets an answer through at the present time. -/
def Open (n : Node) (s : Slot) : Gate → Prop
  | .reinit => (n.sessions s).lastInitTx = 0 ∨ n.now < (n.sessions s).lastInitTx ∨
      reinitGuard ≤ n.now - (n.sessions s).lastInitTx
  | .seed => (n.sessions s).sentRoutes = false
  | .shape => (n.sessions s).peerKaLen = 0
  | .echo => kaEchoGap ≤ n.now - n.kaEchoAt s
  | .linkTime => (n.sessions s).lastLtTx = 0 ∨ 20 ≤ n.now - (n.sessions s).lastLtTx

instance (n : Node) (s : Slot) : DecidablePred (n.Open s) := fun g => by
  cases g <;> unfold Open <;> infer_instance

/-- The number of gates that are open. -/
def openGates (n : Node) (s : Slot) : ℕ :=
  (Finset.univ.filter (n.Open s)).card

/-- What is said on the link of a session has no stake, and frames are dispatched as before. -/
structure Speaks (n : Node) (s : Slot) (m : Node) : Prop where
  cfg : m.cfg = n.cfg
  now : m.now = n.now
  sessionCount : m.sessionCount = n.sessionCount
  active : ∀ i, (m.sessions i).active = (n.sessions i).active
  link : ∀ i, (m.sessions i).link = (n.sessions i).link
  told : (n.peers s).Told (m.peers s)

/-- No gate opens, and a gate shuts if anything is said. -/
structure Settles (n : Node) (s : Slot) (m : Node) : Prop extends n.Speaks s m where
  shut : ∀ g, m.Open s g → n.Open s g
  paid : (m.peers s).wire = (n.peers s).wire ∨ ∃ g, n.Open s g ∧ ¬ m.Open s g

variable {n m o : Node} {s : Slot}

theorem Speaks.refl (n : Node) (s : Slot) : n.Speaks s n :=
  ⟨rfl, rfl, rfl, fun _ => rfl, fun _ => rfl, .refl _⟩

theorem Speaks.trans (h : n.Speaks s m) (h' : m.Speaks s o) : n.Speaks s o where
  cfg := h'.cfg.trans h.cfg
  now := h'.now.trans h.now
  sessionCount := h'.sessionCount.trans h.sessionCount
  active i := (h'.active i).trans (h.active i)
  link i := (h'.link i).trans (h.link i)
  told := h.told.trans h'.told

theorem Settles.refl (n : Node) (s : Slot) : n.Settles s n :=
  ⟨.refl n s, fun _ h => h, .inl rfl⟩

theorem Settles.trans (h : n.Settles s m) (h' : m.Settles s o) : n.Settles s o := by
  refine ⟨h.toSpeaks.trans h'.toSpeaks, fun g hg => h.shut g (h'.shut g hg), ?_⟩
  rcases h.paid with hwire | ⟨g, hopen, hshut⟩
  · rcases h'.paid with hwire' | ⟨g, hopen, hshut⟩
    · exact .inl (hwire'.trans hwire)
    · exact .inr ⟨g, h.shut g hopen, hshut⟩
  · exact .inr ⟨g, hopen, fun hopen' => hshut (h'.shut g hopen')⟩

/-- What settles has no more gates open, and fewer if anything was said. -/
theorem Settles.openGates (h : n.Settles s m) :
    m.openGates s ≤ n.openGates s ∧
      ((m.peers s).wire ≠ (n.peers s).wire → m.openGates s < n.openGates s) := by
  have hsub : Finset.univ.filter (m.Open s) ⊆ Finset.univ.filter (n.Open s) := by
    intro g hg
    rw [Finset.mem_filter] at hg ⊢
    exact ⟨hg.1, h.shut g hg.2⟩
  refine ⟨Finset.card_le_card hsub, fun hsaid => ?_⟩
  obtain ⟨g, hopen, hshut⟩ := h.paid.resolve_left hsaid
  refine Finset.card_lt_card (Finset.ssubset_iff_of_subset hsub |>.mpr ⟨g, ?_, ?_⟩)
  · exact Finset.mem_filter.mpr ⟨Finset.mem_univ g, hopen⟩
  · exact fun hg => hshut (Finset.mem_filter.mp hg).2

/-! ## What nobody is told -/

/-- A field that a gate looks at is kept, or the gate is shut. -/
theorem open_of_open (hnow : m.now = n.now)
    (hinit : (m.sessions s).lastInitTx = (n.sessions s).lastInitTx ∨ ¬ m.Open s .reinit)
    (hsent : (m.sessions s).sentRoutes = (n.sessions s).sentRoutes ∨ ¬ m.Open s .seed)
    (hshape : (m.sessions s).peerKaLen = (n.sessions s).peerKaLen ∨ ¬ m.Open s .shape)
    (hecho : m.kaEchoAt s = n.kaEchoAt s ∨ ¬ m.Open s .echo)
    (hlt : (m.sessions s).lastLtTx = (n.sessions s).lastLtTx ∨ ¬ m.Open s .linkTime)
    (g : Gate) (hopen : m.Open s g) : n.Open s g := by
  cases g with
  | reinit =>
      have hkept := hinit.resolve_right (not_not_intro hopen)
      simpa only [Open, hkept, hnow] using hopen
  | seed => exact (hsent.resolve_right (not_not_intro hopen)).symm.trans hopen
  | shape => exact (hshape.resolve_right (not_not_intro hopen)).symm.trans hopen
  | echo =>
      have hkept := hecho.resolve_right (not_not_intro hopen)
      simpa only [Open, hkept, hnow] using hopen
  | linkTime =>
      have hkept := hlt.resolve_right (not_not_intro hopen)
      simpa only [Open, hkept, hnow] using hopen

/-- A step that says nothing on the link and touches no gate. -/
theorem settles_quiet (h : n.Speaks s m) (hwire : (m.peers s).wire = (n.peers s).wire)
    (hsession : (m.sessions s).lastInitTx = (n.sessions s).lastInitTx ∧
      (m.sessions s).sentRoutes = (n.sessions s).sentRoutes ∧
      ((m.sessions s).peerKaLen = (n.sessions s).peerKaLen ∨ (m.sessions s).peerKaLen ≠ 0) ∧
      (m.sessions s).lastLtTx = (n.sessions s).lastLtTx)
    (hecho : m.kaEchoAt s = n.kaEchoAt s) : n.Settles s m := by
  obtain ⟨hinit, hsent, hshape, hlt⟩ := hsession
  exact ⟨h, open_of_open h.now (.inl hinit) (.inl hsent) hshape (.inl hecho) (.inl hlt), .inl hwire⟩

/-- Writing a session leaves what frames are dispatched by. -/
theorem speaks_setSession (n : Node) {s : Slot} {x : Session}
    (hactive : x.active = (n.sessions s).active) (hlink : x.link = (n.sessions s).link) :
    n.Speaks s (n.setSession s x) where
  cfg := rfl
  now := rfl
  sessionCount := rfl
  active i := by
    by_cases hi : i = s
    · rw [hi, setSession_sessions_self, hactive]
    · rw [setSession_sessions_of_ne _ _ hi]
  link i := by
    by_cases hi : i = s
    · rw [hi, setSession_sessions_self, hlink]
    · rw [setSession_sessions_of_ne _ _ hi]
  told := .refl _

/-- Writing the fields of a session that are no gate. -/
theorem settles_setSession (n : Node) {s : Slot} {x : Session}
    (hactive : x.active = (n.sessions s).active) (hlink : x.link = (n.sessions s).link)
    (hinit : x.lastInitTx = (n.sessions s).lastInitTx)
    (hsent : x.sentRoutes = (n.sessions s).sentRoutes)
    (hshape : x.peerKaLen = (n.sessions s).peerKaLen ∨ x.peerKaLen ≠ 0)
    (hlt : x.lastLtTx = (n.sessions s).lastLtTx) : n.Settles s (n.setSession s x) := by
  refine settles_quiet (n.speaks_setSession hactive hlink) rfl ?_ rfl
  rw [setSession_sessions_self]
  exact ⟨hinit, hsent, hshape, hlt⟩

theorem speaks_setPeer (n : Node) {s : Slot} {x : Peer} (h : (n.peers s).Told x) :
    n.Speaks s (n.setPeer s x) :=
  ⟨rfl, rfl, rfl, fun _ => rfl, fun _ => rfl, by rw [setPeer_peers_self]; exact h⟩

theorem speaks_flexSendFrame (n : Node) (s : Slot) {data : CStr} (h : stake data = 0) :
    n.Speaks s (n.flexSendFrame s pidCE data) :=
  n.speaks_setPeer (n.gains_send s (WireEvent.stake_frame pidCE h) (n.peers s))

theorem speaks_clearAdvertised (n : Node) (s : Slot) : n.Speaks s (n.clearAdvertised s) :=
  n.speaks_setPeer ⟨[.cleared], rfl, fun w hw => by rw [List.mem_singleton.mp hw]; rfl⟩

/-- What the other peers are told is not said on this link. -/
theorem OnlyPeers.speaks (h : n.OnlyPeers m) (hpeer : m.peers s = n.peers s) : n.Speaks s m where
  cfg := congrArg Env.cfg h.toEnv
  now := congrArg Env.now h.toEnv
  sessionCount := by rw [h]
  active i := by rw [congrArg Env.sessions h.toEnv]
  link i := by rw [congrArg Env.sessions h.toEnv]
  told := .of_eq (by rw [hpeer])

theorem OnlyPeers.settles (h : n.OnlyPeers m) (hpeer : m.peers s = n.peers s) :
    n.Settles s m := by
  refine settles_quiet (h.speaks hpeer) (by rw [hpeer]) ?_ (by rw [h])
  rw [congrArg Env.sessions h.toEnv]
  exact ⟨rfl, rfl, .inl rfl, rfl⟩

/-- The tables no gate and no dispatch reads. -/
theorem settles_setLearned (n : Node) (s i : Slot) (x : LearnedState) :
    n.Settles s (n.setLearned i x) :=
  settles_quiet ⟨rfl, rfl, rfl, fun _ => rfl, fun _ => rfl, .refl _⟩ rfl ⟨rfl, rfl, .inl rfl, rfl⟩
    rfl

theorem settles_dests (n : Node) (s : Slot) (dests : List DestEntry) :
    n.Settles s { n with dests := dests } :=
  settles_quiet ⟨rfl, rfl, rfl, fun _ => rfl, fun _ => rfl, .refl _⟩ rfl ⟨rfl, rfl, .inl rfl, rfl⟩
    rfl

theorem settles_nbrEntered (n : Node) (s : Slot) (entered : Slot → Bool) :
    n.Settles s { n with nbrEntered := entered } :=
  settles_quiet ⟨rfl, rfl, rfl, fun _ => rfl, fun _ => rfl, .refl _⟩ rfl ⟨rfl, rfl, .inl rfl, rfl⟩
    rfl

theorem settles_flexLearnedAdd (n : Node) (s : Slot) (r : Record) :
    n.Settles s (n.flexLearnedAdd s r) :=
  (n.settles_setLearned s s _).trans
    ((onlyPeers_flexLearnedAdd n s r).settles (flexLearnedAdd_peers_self n s r))

theorem settles_flexDtableMerge (n : Node) (r : Record) (s : Slot) :
    n.Settles s (n.flexDtableMerge r s) := by
  obtain ⟨dests, h | ⟨dests', h⟩⟩ := n.flexDtableMerge_cases r s <;> rw [h]
  · exact n.settles_dests s dests
  · exact (n.settles_dests s dests).trans
      ((settles_flexLearnedAdd _ s r).trans (settles_dests _ s dests'))

theorem settles_flagDirect (n : Node) (s : Slot) (k : Key) : n.Settles s (n.flagDirect s k) := by
  unfold flagDirect
  split
  · exact .refl n s
  · exact n.settles_setLearned s s _

theorem settles_flexAddNeighbourEntry (n : Node) (s : Slot) :
    n.Settles s (n.flexAddNeighbourEntry s) := by
  unfold flexAddNeighbourEntry
  split_ifs
  · exact .refl n s
  · exact .refl n s
  · have hmerge := (n.settles_nbrEntered s (Function.update n.nbrEntered s true)).trans
      (settles_flexDtableMerge _ ⟨n.neighbourKey s, 1, false⟩ s)
    dsimp only
    split_ifs
    · exact hmerge.trans (settles_flagDirect _ s _)
    · exact hmerge

theorem settles_flexNotePeerEstablished (n : Node) (s : Slot) :
    n.Settles s (n.flexNotePeerEstablished s) := by
  unfold flexNotePeerEstablished
  dsimp only
  split_ifs
  · exact .refl n s
  · split
    · exact .refl n s
    · split_ifs
      · exact .refl n s
      · refine .trans ?_ (settles_flexAddNeighbourEntry _ s)
        exact n.settles_setSession rfl rfl rfl rfl (.inl rfl) rfl

theorem settles_linkTimeMoved (n : Node) (s : Slot) : n.Settles s (n.linkTimeMoved s) := by
  have htrigger : ∀ (m : Node) keys, m.Settles s (m.triggerPeersAll s keys) := fun m keys => by
    refine (onlyPeers_triggerPeersAll m s keys).settles ?_
    rw [(triggerPeersAll_peers m s keys).2 s, if_pos (.inl rfl)]
  unfold linkTimeMoved
  dsimp only
  split_ifs
  · exact .refl n s
  · exact n.settles_setLearned s s _
  · exact (n.settles_setLearned s s _).trans (htrigger _ _)

theorem settles_flexLinkTimeSample (n : Node) (s : Slot) :
    n.Settles s (n.flexLinkTimeSample s) := by
  unfold flexLinkTimeSample
  extract_lets sess
  split
  · exact .refl n s
  split
  · exact n.settles_setSession rfl rfl rfl rfl (.inl rfl) rfl
  split
  · refine .trans ?_ (settles_linkTimeMoved _ s)
    exact n.settles_setSession rfl rfl rfl rfl (.inl rfl) rfl
  · exact n.settles_setSession rfl rfl rfl rfl (.inl rfl) rfl

theorem settles_noteLinkTime (n : Node) (s : Slot) (data : CStr) :
    n.Settles s (n.noteLinkTime s data) := by
  unfold noteLinkTime
  dsimp only
  split_ifs
  · exact .refl n s
  · exact n.settles_setSession rfl rfl rfl rfl (.inl rfl) rfl

theorem settles_noteKeepalive (n : Node) (s : Slot) (data : CStr) :
    n.Settles s (n.noteKeepalive s data) := by
  unfold noteKeepalive
  split_ifs with hlen
  · refine n.settles_setSession rfl rfl rfl rfl (.inr ?_) rfl
    dsimp only
    omega
  · exact .refl n s

end Node

end FlexNet
