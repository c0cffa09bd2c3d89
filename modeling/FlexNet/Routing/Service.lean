import FlexNet.Node.Events

/-!
# What serving a session leaves alone

Keepalives, walks, drains and the handshake change nothing about the routes: the stations in the
link rows, the rows, callsigns, ports and link times of the sessions, the costs in the learned
tables and the next hops of the destination table all stay (`Node.SameRoutes`).  One lemma for
each such function of the node.
-/

namespace FlexNet

/-- What the routes know of a session that is up. -/
def Session.identity (s : Session) : Option (Option LinkId × AxCall × ℕ × ℤ) :=
  if s.active then some (s.link, s.peerCallsign, s.port, s.ourLinkTime) else none

/-- Who taught a table, and what. -/
def LearnedState.taught (st : LearnedState) : CStr × List (Key × ℤ) :=
  (st.peerCall, st.routes.map fun lr => (lr.key, lr.rttAtNeighbour))

/-- A row without its path and its time stamps. -/
def DestEntry.hop (d : DestEntry) : DestEntry :=
  { d with lastUpdated := 0, path := [], pathUpdated := 0 }

namespace Node

variable {n m o : Node} {s : Slot}

/-- Everything the routes depend on is the same. -/
structure SameRoutes (n m : Node) : Prop where
  cfg : m.cfg = n.cfg
  linkOpts : m.linkOpts = n.linkOpts
  linkCall : ∀ l, (m.links l).linkCall = (n.links l).linkCall
  identity : ∀ i, (m.sessions i).identity = (n.sessions i).identity
  taught : ∀ i, (m.learned i).taught = (n.learned i).taught
  hops : m.dests.map DestEntry.hop = n.dests.map DestEntry.hop

theorem SameRoutes.refl (n : Node) : n.SameRoutes n :=
  ⟨rfl, rfl, fun _ => rfl, fun _ => rfl, fun _ => rfl, rfl⟩

theorem SameRoutes.trans (h₁ : n.SameRoutes m) (h₂ : m.SameRoutes o) : n.SameRoutes o where
  cfg := h₂.cfg.trans h₁.cfg
  linkOpts := h₂.linkOpts.trans h₁.linkOpts
  linkCall l := (h₂.linkCall l).trans (h₁.linkCall l)
  identity i := (h₂.identity i).trans (h₁.identity i)
  taught i := (h₂.taught i).trans (h₁.taught i)
  hops := h₂.hops.trans h₁.hops

theorem SameRoutes.ite {c : Prop} [Decidable c] (h₁ : n.SameRoutes m) (h₂ : n.SameRoutes o) :
    n.SameRoutes (if c then m else o) := by
  split_ifs
  exacts [h₁, h₂]

/-- The identity of a session that is up. -/
theorem SameRoutes.session (h : n.SameRoutes m) {i : Slot} (hup : (m.sessions i).active = true) :
    (n.sessions i).active = true ∧ (m.sessions i).link = (n.sessions i).link ∧
      (m.sessions i).peerCallsign = (n.sessions i).peerCallsign ∧
      (m.sessions i).port = (n.sessions i).port ∧
      (m.sessions i).ourLinkTime = (n.sessions i).ourLinkTime := by
  have hid := h.identity i
  unfold Session.identity at hid
  rw [if_pos hup] at hid
  split_ifs at hid with hn
  simp only [Option.some.injEq, Prod.mk.injEq] at hid
  exact ⟨hn, hid⟩

theorem SameRoutes.active (h : n.SameRoutes m) (i : Slot) :
    (m.sessions i).active = (n.sessions i).active := by
  have hid := congrArg Option.isSome (h.identity i)
  unfold Session.identity at hid
  revert hid
  cases (m.sessions i).active <;> cases (n.sessions i).active <;> simp

/-- A change of peers only. -/
theorem OnlyPeers.sameRoutes (h : n.OnlyPeers m) : n.SameRoutes m := by
  rw [h]
  exact ⟨rfl, rfl, fun _ => rfl, fun _ => rfl, fun _ => rfl, rfl⟩

theorem sameRoutes_setPeer (n : Node) (p : Slot) (x : Peer) : n.SameRoutes (n.setPeer p x) :=
  (onlyPeers_setPeer n p x).sameRoutes

theorem sameRoutes_setSession (n : Node) {x : Session}
    (h : x.identity = (n.sessions s).identity) : n.SameRoutes (n.setSession s x) := by
  refine ⟨rfl, rfl, fun _ => rfl, fun i => ?_, fun _ => rfl, rfl⟩
  by_cases hi : i = s
  · subst hi
    simpa [setSession] using h
  · simp [setSession, Function.update_of_ne hi]

theorem sameRoutes_setLearned (n : Node) {st : LearnedState}
    (h : st.taught = (n.learned s).taught) : n.SameRoutes (n.setLearned s st) := by
  refine ⟨rfl, rfl, fun _ => rfl, fun _ => rfl, fun i => ?_, rfl⟩
  by_cases hi : i = s
  · subst hi
    simpa [setLearned] using h
  · simp [setLearned, Function.update_of_ne hi]

/-- A table rewritten with an entry of the same cost. -/
theorem sameRoutes_put (n : Node) {lr lr' : LearnedRoute}
    (hfind : (n.learned s).find lr.key = some lr') (hrtt : lr.rttAtNeighbour = lr'.rttAtNeighbour) :
    n.SameRoutes (n.setLearned s ((n.learned s).put lr)) := by
  refine sameRoutes_setLearned n (Prod.ext rfl ?_)
  have hkey : lr'.key = lr.key := KeyedTable.lookup_key hfind
  exact KeyedTable.map_store_of_lookup hfind (by rw [hkey, hrtt])

/-- A session that is down is nobody. -/
theorem sameRoutes_setSession_down (n : Node) {x : Session}
    (hn : (n.sessions s).active = false) (hx : x.active = false) :
    n.SameRoutes (n.setSession s x) :=
  sameRoutes_setSession n (by simp [Session.identity, hn, hx])

theorem sameRoutes_flagLink (n : Node) (l : LinkId) (b : Bool) :
    n.SameRoutes (n.flagLink l b) := by
  refine ⟨rfl, rfl, fun l' => ?_, fun _ => rfl, fun _ => rfl, rfl⟩
  by_cases hl : l' = l
  · subst hl
    simp [flagLink, setLink]
  · simp [flagLink, setLink, Function.update_of_ne hl]

theorem sameRoutes_clearAdvertised (n : Node) (p : Slot) : n.SameRoutes (n.clearAdvertised p) :=
  sameRoutes_setPeer n p _

/-! ## Frames and walks -/

theorem sameRoutes_flexSendInit (n : Node) (s : Slot) : n.SameRoutes (n.flexSendInit s) :=
  (sameRoutes_setPeer n s _).trans (sameRoutes_setSession _ (by rfl))

theorem sameRoutes_sendKeepalive (n : Node) (s : Slot) : n.SameRoutes (n.sendKeepalive s) :=
  sameRoutes_setPeer n s _

theorem sameRoutes_flexSendLinkTime (n : Node) (s : Slot) :
    n.SameRoutes (n.flexSendLinkTime s) :=
  .ite (.refl n) ((sameRoutes_setPeer n s _).trans (sameRoutes_setSession _ (by rfl)))

theorem sameRoutes_triggerPeersAll (n : Node) (s : Slot) (keys : List Key) :
    n.SameRoutes (n.triggerPeersAll s keys) :=
  (onlyPeers_triggerPeersAll n s keys).sameRoutes

theorem sameRoutes_anchorAdvert (n : Node) (p : Slot) : n.SameRoutes (n.anchorAdvert p) :=
  sameRoutes_setLearned n (by rfl)

theorem sameRoutes_flexAdvertiseSeedPeer (n : Node) (p : Slot) :
    n.SameRoutes (n.flexAdvertiseSeedPeer p) := by
  refine .ite (.refl n) ((onlyPeers_walk n p false false).sameRoutes.trans ?_)
  exact .trans (.ite (sameRoutes_setPeer _ p _) (.refl _)) (sameRoutes_anchorAdvert _ p)

theorem sameRoutes_flexAdvertiseNeighbours (n : Node) (p : Slot) :
    n.SameRoutes (n.flexAdvertiseNeighbours p) := by
  refine .ite (.refl n) ((onlyPeers_walk n p true true).sameRoutes.trans ?_)
  exact .trans (.ite (sameRoutes_setPeer _ p _) (.refl _)) (sameRoutes_anchorAdvert _ p)

theorem sameRoutes_seedIfUnsent (n : Node) (s : Slot) : n.SameRoutes (n.seedIfUnsent s) :=
  .ite (.refl n) ((sameRoutes_setPeer n s _).trans
    ((sameRoutes_setSession _ (by rfl)).trans (sameRoutes_flexAdvertiseSeedPeer _ s)))

theorem sameRoutes_answerReinit (n : Node) (s : Slot) : n.SameRoutes (n.answerReinit s) :=
  (sameRoutes_flexSendInit n s).trans <| (sameRoutes_sendKeepalive _ s).trans <|
    (sameRoutes_setSession _ (by rfl)).trans <| (sameRoutes_setPeer _ s _).trans <|
      sameRoutes_clearAdvertised _ s

theorem sameRoutes_answerStatusPos (n : Node) (s : Slot) : n.SameRoutes (n.answerStatusPos s) :=
  (onlyPeers_walk n s false true).sameRoutes.trans
    ((sameRoutes_setPeer _ s _).trans (sameRoutes_setPeer _ s _))

theorem sameRoutes_poisonSession (n : Node) (s : Slot) :
    n.SameRoutes (n.flexAdvertisePoisonSession s) := by
  have hdied : n.SameRoutes (n.setLearned s { n.learned s with diedAt := n.now }) :=
    sameRoutes_setLearned n (by rfl)
  exact (SameRoutes.ite hdied (.refl n)).trans (onlyPeers_poisonSession n s).sameRoutes

/-! ## Link time -/

theorem sameRoutes_linkTimeMoved (n : Node) (s : Slot) : n.SameRoutes (n.linkTimeMoved s) := by
  have hanchor : n.SameRoutes (n.setLearned s
      { n.learned s with ltAnchor := (n.sessions s).ourLinkTime }) :=
        sameRoutes_setLearned n (by rfl)
  exact .ite (.refl n) (.ite hanchor (hanchor.trans (sameRoutes_triggerPeersAll _ s _)))

/-! ## Handshakes and keepalives -/

theorem sameRoutes_unflagOldLink (n : Node) (s : Slot) : n.SameRoutes (n.unflagOldLink s) := by
  unfold unflagOldLink
  split
  · exact .refl n
  · exact sameRoutes_flagLink n _ false

theorem sameRoutes_rehandshake (n : Node) (s : Slot) : n.SameRoutes (n.rehandshake s) :=
  (sameRoutes_setSession n (by rfl)).trans
    ((sameRoutes_flexSendInit _ s).trans (sameRoutes_sendKeepalive _ s))

theorem sameRoutes_inferFamily (n : Node) (s : Slot) (len : ℕ) :
    n.SameRoutes (n.inferFamily s len) :=
  .ite (.refl n) (.ite ((sameRoutes_setSession n (by rfl)).trans (sameRoutes_sendKeepalive _ s))
    (sameRoutes_setSession n (by rfl)))

theorem sameRoutes_noteKeepalive (n : Node) (s : Slot) (data : CStr) :
    n.SameRoutes (n.noteKeepalive s data) :=
  .ite (sameRoutes_setSession n (by rfl)) (.refl n)

theorem sameRoutes_echoKeepalive (n : Node) (s : Slot) : n.SameRoutes (n.echoKeepalive s) := by
  have hecho : n.SameRoutes { n with kaEchoAt := Function.update n.kaEchoAt s n.now } :=
    ⟨rfl, rfl, fun _ => rfl, fun _ => rfl, fun _ => rfl, rfl⟩
  exact .ite (.refl n) (hecho.trans (sameRoutes_sendKeepalive _ s))

theorem sameRoutes_noteLinkTime (n : Node) (s : Slot) (data : CStr) :
    n.SameRoutes (n.noteLinkTime s data) :=
  .ite (.refl n) (sameRoutes_setSession n (by rfl))

theorem sameRoutes_flagDirect (n : Node) (s : Slot) (k : Key) :
    n.SameRoutes (n.flagDirect s k) := by
  unfold flagDirect
  cases hfind : (n.learned s).find k with
  | none => exact .refl n
  | some lr =>
      obtain rfl : lr.key = k := KeyedTable.lookup_key hfind
      exact sameRoutes_put n hfind rfl

theorem sameRoutes_flexNetNotePeerL2Restart (n : Node) (call : AxCall) (port : ℕ) :
    n.SameRoutes (n.flexNetNotePeerL2Restart call port) := by
  unfold flexNetNotePeerL2Restart
  split
  · exact .refl n
  · exact .ite (.refl n) ((sameRoutes_setPeer n _ _).trans
      ((sameRoutes_setSession _ (by rfl)).trans (sameRoutes_clearAdvertised _ _)))

/-! ## The service loop -/

theorem sameRoutes_serveKeepalive (n : Node) (s : Slot) : n.SameRoutes (n.serveKeepalive s) :=
  .ite (.refl n) ((sameRoutes_sendKeepalive n s).trans
    ((sameRoutes_flexSendLinkTime _ s).trans (sameRoutes_setSession _ (by rfl))))

theorem sameRoutes_serveRefresh (n : Node) (s : Slot) : n.SameRoutes (n.serveRefresh s) :=
  .ite ((sameRoutes_anchorAdvert n s).trans ((sameRoutes_setPeer _ s _).trans
    (sameRoutes_flexAdvertiseNeighbours _ s))) (.refl n)

theorem sameRoutes_serveReseed (n : Node) (s : Slot) : n.SameRoutes (n.serveReseed s) :=
  .ite (sameRoutes_seedIfUnsent n s) (.refl n)

theorem sameRoutes_serveSession (n : Node) (s : Slot) : n.SameRoutes (n.serveSession s) :=
  .ite (.refl n) ((sameRoutes_serveKeepalive n s).trans ((sameRoutes_serveRefresh _ s).trans
    ((sameRoutes_serveReseed _ s).trans (sameRoutes_setPeer _ s _))))

end Node

end FlexNet
