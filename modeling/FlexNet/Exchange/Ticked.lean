import FlexNet.Exchange.Seeds
import FlexNet.Links.Reaper

/-!
# Where the flag comes on, the peer is told

A tick serves the slots one after the other, and what a slot's turn writes another's does not read
(`Node.Spares`).  So whatever the event, a slot whose `sent_routes` comes on was sent the own frame
and the full view in it (`event_seeds`).
-/

namespace FlexNet

namespace Node

variable {n m o : Node} {s i : Slot}

/-! ## The turns of other slots -/

/-- The peer and the session of a slot are left, and the tables the view is made from. -/
structure Spares (n : Node) (s : Slot) (m : Node) : Prop where
  peer : m.peers s = n.peers s
  session : m.sessions s = n.sessions s
  same : n.SameTables m

theorem Spares.refl (n : Node) (s : Slot) : n.Spares s n := ⟨rfl, rfl, .refl n⟩

theorem Spares.trans (h : n.Spares s m) (h' : m.Spares s o) : n.Spares s o where
  peer := h'.peer.trans h.peer
  session := h'.session.trans h.session
  same := h.same.trans h'.same

theorem Spares.ite {c : Prop} [Decidable c] (h : n.Spares s m) (h' : n.Spares s o) :
    n.Spares s (if c then m else o) := by
  split_ifs
  exacts [h, h']

theorem Spares.unseeds (h : n.Spares s m) : n.Unseeds s m := fun hsent => by
  rwa [h.session] at hsent

theorem spares_setPeer (n : Node) (hi : s ≠ i) (x : Peer) : n.Spares s (n.setPeer i x) :=
  ⟨setPeer_peers_of_ne n x hi, rfl, (onlyPeers_setPeer n i x).sameTables⟩

theorem spares_setSession (n : Node) (hi : s ≠ i) {x : Session}
    (h : x.sourcing = (n.sessions i).sourcing) : n.Spares s (n.setSession i x) :=
  ⟨rfl, setSession_sessions_of_ne n x hi, sameTables_setSession n h⟩

theorem spares_anchorAdvert (n : Node) (s i : Slot) : n.Spares s (n.anchorAdvert i) :=
  ⟨rfl, rfl, sameTables_anchorAdvert n i⟩

theorem spares_walk (n : Node) (hi : s ≠ i) (directOnly force : Bool) :
    n.Spares s (n.flexAdvertiseWalkForPeer i directOnly force).1 :=
  spares_setPeer n hi _

theorem spares_flexAdvertiseSeedPeer (n : Node) (hi : s ≠ i) :
    n.Spares s (n.flexAdvertiseSeedPeer i) := by
  unfold flexAdvertiseSeedPeer
  refine .ite (.refl n s) ((spares_walk n hi false false).trans ?_)
  exact (Spares.ite (spares_setPeer _ hi _) (.refl _ s)).trans (spares_anchorAdvert _ s i)

theorem spares_flexAdvertiseNeighbours (n : Node) (hi : s ≠ i) :
    n.Spares s (n.flexAdvertiseNeighbours i) := by
  unfold flexAdvertiseNeighbours
  refine .ite (.refl n s) ((spares_walk n hi true true).trans ?_)
  exact (Spares.ite (spares_setPeer _ hi _) (.refl _ s)).trans (spares_anchorAdvert _ s i)

theorem spares_flexSendLinkTime (n : Node) (hi : s ≠ i) : n.Spares s (n.flexSendLinkTime i) := by
  unfold flexSendLinkTime
  refine .ite (.refl n s) ?_
  dsimp only
  exact (spares_setPeer n hi _).trans (spares_setSession _ hi rfl)

theorem spares_serveKeepalive (n : Node) (hi : s ≠ i) : n.Spares s (n.serveKeepalive i) := by
  unfold serveKeepalive
  refine .ite (.refl n s) ?_
  dsimp only
  exact ((spares_setPeer n hi _).trans (spares_flexSendLinkTime _ hi)).trans
    (spares_setSession _ hi rfl)

theorem spares_serveRefresh (n : Node) (hi : s ≠ i) : n.Spares s (n.serveRefresh i) := by
  have hown := spares_setPeer (n.anchorAdvert i) hi
    ((n.anchorAdvert i).toEnv.flexSendOwnRoutes i false ((n.anchorAdvert i).peers i))
  exact .ite ((spares_anchorAdvert n s i).trans (hown.trans (spares_flexAdvertiseNeighbours _ hi)))
    (.refl n s)

theorem spares_serveReseed (n : Node) (hi : s ≠ i) : n.Spares s (n.serveReseed i) := by
  have hseed : n.Spares s (n.seedIfUnsent i) := by
    unfold seedIfUnsent
    extract_lets m
    have hm : n.Spares s m := spares_setPeer n hi _
    have hsent : m.Spares s (m.setSession i { m.sessions i with sentRoutes := true }) :=
      spares_setSession m hi rfl
    exact .ite (.refl n s) (hm.trans (hsent.trans (spares_flexAdvertiseSeedPeer _ hi)))
  exact .ite hseed (.refl n s)

/-- The turn of another slot. -/
theorem spares_serveSession (n : Node) (hi : s ≠ i) : n.Spares s (n.serveSession i) :=
  .ite (.refl n s) ((spares_serveKeepalive n hi).trans ((spares_serveRefresh _ hi).trans
    ((spares_serveReseed _ hi).trans (spares_setPeer _ hi _))))

theorem spares_serveSessions (n : Node) {is : List Slot} (hs : s ∉ is) :
    n.Spares s (is.foldl serveSession n) := by
  induction is generalizing n with
  | nil => exact .refl n s
  | cons i is ih =>
      obtain ⟨hi, his⟩ := not_or.mp (List.mem_cons.not.mp hs)
      exact (spares_serveSession n hi).trans (ih _ his)

/-! ## The slot's own turn -/

theorem unseeds_serveKeepalive (n : Node) (i : Slot) : n.Unseeds s (n.serveKeepalive i) := by
  unfold serveKeepalive
  refine .ite (.refl n) ?_
  dsimp only
  exact ((onlyPeers_setPeer n i _).unseeds.trans (unseeds_flexSendLinkTime _ i)).trans
    (unseeds_setSession _ id)

theorem unseeds_serveRefresh (n : Node) (i : Slot) : n.Unseeds s (n.serveRefresh i) := by
  have hown : (n.anchorAdvert i).OnlyPeers ((n.anchorAdvert i).flexSendOwnRoutes i false) :=
    onlyPeers_setPeer _ i _
  exact .ite ((unseeds_of_eq rfl).trans (hown.unseeds.trans (unseeds_flexAdvertiseNeighbours _ i)))
    (.refl n)

/-- The turn of a slot whose flag comes on. -/
theorem seeds_serveSession (h : n.ComesOn s (n.serveSession s)) : n.Seeds s (n.serveSession s) := by
  unfold serveSession at h ⊢
  split_ifs at h ⊢ with hgate
  · exact (h.not_unseeds (.refl n)).elim
  have hup : (n.sessions s).active = true := by
    simp only [Bool.or_eq_true, Bool.not_eq_true', not_or, Bool.not_eq_false] at hgate
    exact hgate.1
  have hup' : ((n.serveKeepalive s).sessions s).active = true := by
    rw [(sameRoutes_serveKeepalive n s).active, hup]
  have hpass : n.Passes ((n.serveKeepalive s).serveRefresh s) :=
    (advances_serveKeepalive n s).trans (advances_serveRefresh _ s hup')
  have hv := h.from ((unseeds_serveKeepalive n s).trans (unseeds_serveRefresh _ s))
  refine ⟨_, hpass, ?_⟩
  generalize (n.serveKeepalive s).serveRefresh s = v at hv
  -- the drain that ends the turn leaves the sessions
  have hon : v.ComesOn s (v.serveReseed s) := hv
  unfold serveReseed at hon ⊢
  split_ifs at hon ⊢
  · exact (seedsFrom_seedIfUnsent hon.1).drained
  · exact (hon.not_unseeds (.refl v)).elim

/-! ## Every event -/

theorem triggerPeersAll_sessions (n : Node) (i : Slot) (keys : List Key) :
    (n.triggerPeersAll i keys).sessions = n.sessions :=
  congrArg Env.sessions (onlyPeers_triggerPeersAll n i keys).toEnv

theorem unseeds_flexLinkOptsPoll (n : Node) : n.Unseeds s n.flexLinkOptsPoll := by
  have hchanged : ∀ (n : Node) i opts, n.Unseeds s (n.flexLinkOptsChanged i opts) := by
    intro n i opts
    unfold flexLinkOptsChanged
    extract_lets old n₁ shift n₂ n₃
    have h₂ : n.Unseeds s n₂ := .ite (.refl n) (unseeds_of_eq rfl)
    have h₃ : n₂.Unseeds s n₃ := unseeds_of_eq (triggerPeersAll_sessions n₂ i _)
    refine h₂.trans (.ite (.refl n₂) (h₃.trans (.ite (.refl n₃) ?_)))
    exact (onlyPeers_walk n₃ i false false).unseeds.trans (onlyPeers_setPeer _ i _).unseeds
  have hturn : ∀ (n : Node) i, n.Unseeds s (n.pollLinkOpts i) := by
    intro n i
    unfold pollLinkOpts
    dsimp only
    split
    · exact .refl n
    · exact .ite (.refl n) (.ite (.refl n) (hchanged n i _))
  unfold flexLinkOptsPoll
  exact .ite (.refl n) ((unseeds_of_eq rfl).trans (.foldl hturn slots _))

theorem unseeds_flexPortLinksKeep (n : Node) : n.Unseeds s n.flexPortLinksKeep := by
  have hturn : ∀ (n : Node) i, n.Unseeds s (n.keepPortLink i) := by
    intro n i
    have hset : ∀ (m : Node) pl, m.Unseeds s (m.setPortLink i pl) := fun m pl => unseeds_of_eq rfl
    unfold keepPortLink
    split
    · exact .refl n
    refine .ite (.refl n) ?_
    split
    · refine .ite (.refl n) ((hset n _).trans (.ite ?_ (.refl _)))
      exact unseeds_flexNetInitSession _ _ _
    · refine .ite (hset n _) (.ite (.refl n) ?_)
      split
      · exact hset n _
      · exact unseeds_of_eq rfl
  exact .ite (.refl n) (.ite (.refl n) ((unseeds_of_eq rfl).trans (.foldl hturn _ _)))

theorem unseeds_proactiveInit (n : Node) : n.Unseeds s n.proactiveInit := by
  refine .ite (.refl n) ((unseeds_of_eq rfl).trans (.foldl (fun n li => .ite ?_ (.refl n)) _ _))
  exact unseeds_flexNetInitSession n li _

/-- The node as the service loop finds it. -/
def serving (n : Node) : Node := n.flexPortLinksKeep.flexLinkOptsPoll.reapSessions.proactiveInit

theorem flexNetTimer_eq (n : Node) : n.flexNetTimer = slots.foldl serveSession n.serving := rfl

theorem unseeds_serving (n : Node) : n.Unseeds s n.serving :=
  (unseeds_flexPortLinksKeep n).trans ((unseeds_flexLinkOptsPoll _).trans
    ((Unseeds.foldl unseeds_reapTurn slots _).trans (unseeds_proactiveInit _)))

theorem passes_serving (n : Node) : n.Passes n.serving :=
  (advances_flexPortLinksKeep n).trans ((advances_flexLinkOptsPoll _).trans
    ((Advances.foldl advances_reapTurn slots _).trans (advances_proactiveInit _)))

/-- The service loop: the slots before this one, its turn, and the slots after. -/
theorem serveSessions_split (u : Node) (s : Slot) :
    ∃ v, u.Spares s v ∧ u.Passes v ∧ (v.serveSession s).Spares s (slots.foldl serveSession u) := by
  obtain ⟨rest, hslots, hrest⟩ := slots_split s
  set pre := slots.takeWhile fun i => i != s with hpre
  have hbefore : s ∉ pre := fun hmem => by
    simpa using List.mem_takeWhile_imp hmem
  refine ⟨pre.foldl serveSession u, spares_serveSessions u hbefore,
    .foldl advances_serveSession pre u, ?_⟩
  rw [hslots, List.foldl_append, List.foldl_cons]
  exact spares_serveSessions _ hrest

theorem seeds_flexNetTimer (h : n.ComesOn s n.flexNetTimer) : n.Seeds s n.flexNetTimer := by
  rw [flexNetTimer_eq] at h ⊢
  obtain ⟨v, hbefore, hpass, hafter⟩ := serveSessions_split n.serving s
  have hv : v.ComesOn s (v.serveSession s) :=
    ⟨(h.from ((unseeds_serving n).trans hbefore.unseeds)).1, hafter.session ▸ h.2⟩
  obtain ⟨w, hw, hseeds⟩ := seeds_serveSession hv
  exact ⟨w, (passes_serving n).trans (hpass.trans hw), hseeds.spared hafter.same hafter.peer⟩

/-- In the event in which its flag comes on, the peer of a slot is sent the own frame and the full
view. -/
theorem event_seeds {ev : Event} (h : n.ComesOn s (n.event ev)) : n.Seeds s (n.event ev) := by
  have hcalm : ∀ {m : Node}, n.ComesOn s m → n.Unseeds s m → n.Seeds s m := fun h hkept =>
    (h.not_unseeds hkept).elim
  cases ev with
  | clock seconds ticks => exact hcalm h (unseeds_of_eq rfl)
  | row l x => exact hcalm h (unseeds_of_eq rfl)
  | mapTable ports => exact hcalm h (unseeds_of_eq rfl)
  | initSession l port => exact hcalm h (unseeds_flexNetInitSession n l port)
  | closeSession l => exact hcalm h (unseeds_flexNetCloseSession n l)
  | notePeerL2Restart call port => exact hcalm h (unseeds_flexNetNotePeerL2Restart n call port)
  | tryAdoptSession l port => exact hcalm h (unseeds_flexNetTryAdoptSession n l port)
  | sabm l port => exact hcalm h (unseeds_sabmAccepted n l port)
  | processCE l data => exact seeds_flexNetProcessCE h
  | ceReceived l port data => exact seeds_ceReceived h
  | timer => exact seeds_flexNetTimer h
  | heal i => exact hcalm h (unseeds_of_eq rfl)
  | pathCache rows =>
      have hload : ∀ (n : Node) k path updated, n.Unseeds s (n.loadPathRow k path updated) := by
        intro n k path updated
        unfold loadPathRow
        split
        · exact unseeds_of_eq rfl
        · exact .ite (unseeds_of_eq rfl) (.refl n)
      refine hcalm h (.foldl (fun n row => ?_) rows n)
      exact hload n row.1 row.2.1 row.2.2
  | pathFrame i reply body =>
      exact hcalm h (.ite (onlyPeers_setPeer n i _).unseeds (.refl n))
  | l3Frame i data => exact hcalm h (.ite (onlyPeers_setPeer n i _).unseeds (.refl n))

end Node

end FlexNet
