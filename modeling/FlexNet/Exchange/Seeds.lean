import FlexNet.Exchange.Retold
import FlexNet.Exchange.Understood

/-!
# Who marks a peer as seeded

`sent_routes` of a session is set where the node's own frame goes out with the full view: by
`seedIfUnsent` and by the answer to a `'3+'`.  `Node.Unseeds` is what every other function does: the
flag of a slot does not come on.
-/

namespace FlexNet

/-- What makes a session a source. -/
def Session.sourcing (x : Session) : Bool × ℕ × Option LinkId × ℤ :=
  (x.active, x.port, x.link, x.ourLinkTime)

namespace Node

variable {n m o : Node} {s : Slot}

/-- The session of a slot is not marked as seeded where it was not. -/
def Unseeds (n : Node) (s : Slot) (m : Node) : Prop :=
  (m.sessions s).sentRoutes = true → (n.sessions s).sentRoutes = true

theorem Unseeds.refl (n : Node) : n.Unseeds s n := id

theorem Unseeds.trans (h : n.Unseeds s m) (h' : m.Unseeds s o) : n.Unseeds s o :=
  fun hsent => h (h' hsent)

theorem Unseeds.ite {c : Prop} [Decidable c] (h : n.Unseeds s m) (h' : n.Unseeds s o) :
    n.Unseeds s (if c then m else o) := by
  split_ifs
  exacts [h, h']

theorem Unseeds.foldl {α : Type*} {f : Node → α → Node} (h : ∀ (n : Node) a, n.Unseeds s (f n a))
    (as : List α) (n : Node) : n.Unseeds s (as.foldl f n) := by
  induction as generalizing n with
  | nil => exact id
  | cons a as ih => exact (h n a).trans (ih _)

/-! ## Single writes -/

theorem unseeds_of_eq (h : m.sessions = n.sessions) : n.Unseeds s m := fun hsent => by
  rwa [h] at hsent

theorem unseeds_setSession (n : Node) {i : Slot} {x : Session}
    (h : x.sentRoutes = true → (n.sessions i).sentRoutes = true) : n.Unseeds s (n.setSession i x) :=
  fun hsent => by
    by_cases hi : s = i
    · subst hi
      rw [setSession_sessions_self] at hsent
      exact h hsent
    · rwa [setSession_sessions_of_ne n x hi] at hsent

theorem OnlyPeers.unseeds (h : n.OnlyPeers m) : n.Unseeds s m :=
  unseeds_of_eq (congrArg Env.sessions h.toEnv)

theorem unseeds_flexSendInit (n : Node) (i : Slot) : n.Unseeds s (n.flexSendInit i) :=
  (onlyPeers_setPeer n i _).unseeds.trans (unseeds_setSession _ id)

theorem unseeds_flexSendLinkTime (n : Node) (i : Slot) : n.Unseeds s (n.flexSendLinkTime i) :=
  .ite (.refl n) ((onlyPeers_setPeer n i _).unseeds.trans (unseeds_setSession _ id))

theorem unseeds_flexAdvertiseNeighbours (n : Node) (i : Slot) :
    n.Unseeds s (n.flexAdvertiseNeighbours i) := by
  unfold flexAdvertiseNeighbours
  refine .ite (.refl n) ((onlyPeers_walk n i true true).unseeds.trans ?_)
  exact (Unseeds.ite (onlyPeers_setPeer _ i _).unseeds (.refl _)).trans (unseeds_of_eq rfl)

/-- The seed of another slot. -/
theorem seedIfUnsent_sessions_of_ne (n : Node) {i : Slot} (hi : s ≠ i) :
    (n.seedIfUnsent i).sessions s = n.sessions s := by
  unfold seedIfUnsent
  split_ifs
  · rfl
  · dsimp only
    rw [(flexAdvertiseSeedPeer_fields _ i).1, setSession_sessions_of_ne _ _ hi]
    rfl

/-! ## The session life cycle -/

theorem unseeds_rehandshake (n : Node) (i : Slot) : n.Unseeds s (n.rehandshake i) := by
  unfold rehandshake
  extract_lets x m
  have hreset : n.Unseeds s m := unseeds_setSession n nofun
  exact hreset.trans ((unseeds_flexSendInit m i).trans (onlyPeers_setPeer _ i _).unseeds)

theorem unseeds_reenterSession (n : Node) (i : Slot) (l : LinkId) :
    n.Unseeds s (n.reenterSession i l) := by
  unfold reenterSession
  extract_lets x m
  have hm : n.Unseeds s m := (unseeds_of_eq rfl).trans (unseeds_setSession (n.flagLink l true) id)
  exact hm.trans (.ite (.refl m) (unseeds_rehandshake m i))

/-- A session that starts has sent nothing. -/
theorem startSession_unsent (n : Node) (s : Slot) (l : LinkId) (port : ℕ) :
    ((n.startSession s l port).sessions s).sentRoutes = false := by
  unfold startSession
  extract_lets call newCall n₁ n₂ x n₃ n₄ n₅ st n₆ n₇ n₈ n₉ sess n₁₀
  have h₈ : n₈.sessions s = _ := Function.update_self ..
  have h₉ : n₉.sessions s = { n₈.sessions s with lastInitTx := n₈.now } := Function.update_self ..
  have h₁₀ : n₁₀.sessions s = { n₉.sessions s with lastKeepalive := n₉.now } :=
    Function.update_self ..
  exact (congrArg Session.sentRoutes h₁₀).trans ((congrArg Session.sentRoutes h₉).trans
    (congrArg Session.sentRoutes h₈))

theorem unseeds_startSession (n : Node) (i : Slot) (l : LinkId) (port : ℕ) :
    n.Unseeds s (n.startSession i l port) := fun hsent => by
  by_cases hi : s = i
  · subst hi
    rw [startSession_unsent] at hsent
    cases hsent
  · rwa [(n.startSession_onlySlot i l port).1.others s hi |>.2] at hsent

theorem unseeds_flexNetInitSession (n : Node) (l : LinkId) (port : ℕ) :
    n.Unseeds s (n.flexNetInitSession l port) := by
  unfold flexNetInitSession
  split
  · exact unseeds_reenterSession n _ l
  · split
    · split
      · exact .refl n
      · exact (unseeds_of_eq (by rfl)).trans (unseeds_reenterSession (n.flagLink _ false) _ l)
    · split
      · exact .refl n
      · exact unseeds_startSession n _ l port

theorem unseeds_poison (n : Node) (i : Slot) {x : Session}
    (h : x.sentRoutes = true → (n.sessions i).sentRoutes = true) :
    n.Unseeds s (((n.setSession i x).flexDestReelectVia i).flexAdvertisePoisonSession i) := by
  refine (unseeds_setSession n h).trans (unseeds_of_eq ?_)
  exact flexAdvertisePoisonSession_sessions _ i

theorem unseeds_flexNetCloseSession (n : Node) (l : LinkId) :
    n.Unseeds s (n.flexNetCloseSession l) := by
  unfold flexNetCloseSession
  split
  · exact .refl n
  · rename_i i _
    exact (unseeds_of_eq rfl).trans
      (unseeds_poison ((n.setLearned i { n.learned i with diedAt := n.now }).flagLink l false) i id)

theorem unseeds_unflagOldLink (n : Node) (i : Slot) : n.Unseeds s (n.unflagOldLink i) :=
  unseeds_of_eq (unflagOldLink_sessions n i)

theorem unseeds_reapSession (n : Node) (i : Slot) : n.Unseeds s (n.reapSession i) := by
  unfold reapSession
  extract_lets n₁ n₂ st n₃ x n₄ n₅ n₆ y
  have h₂ : n.Unseeds s n₂ := (unseeds_of_eq (m := n₁) rfl).trans (unseeds_unflagOldLink n₁ i)
  have h₅ : n₃.Unseeds s n₅ := unseeds_poison n₃ i id
  have h₆ : n₅.Unseeds s n₆ := unseeds_setSession n₅ nofun
  exact h₂.trans ((unseeds_of_eq (m := n₃) rfl).trans (h₅.trans (h₆.trans (unseeds_of_eq rfl))))

theorem unseeds_migrateSession (n : Node) (i : Slot) (li : LinkId) :
    n.Unseeds s (n.migrateSession i li) := by
  unfold migrateSession
  extract_lets n₁ x n₂
  have h₁ : n.Unseeds s n₁ := unseeds_unflagOldLink n i
  have h₂ : n₁.Unseeds s (n₁.setSession i { x with link := some li }) := unseeds_setSession n₁ id
  exact h₁.trans (h₂.trans (unseeds_of_eq (by rfl)))

theorem unseeds_reapTurn (n : Node) (i : Slot) : n.Unseeds s (n.reapTurn i) := by
  unfold reapTurn
  extract_lets sess
  refine .ite (.refl n) ?_
  generalize flexReapDecide _ _ _ = r
  obtain ⟨verdict, badSince⟩ := r
  dsimp only
  have hbad : n.Unseeds s { n with reapBadSince := Function.update n.reapBadSince i badSince } :=
    unseeds_of_eq rfl
  split
  · exact hbad
  all_goals
    split
    · exact hbad.trans (unseeds_migrateSession _ i _)
    · exact hbad.trans (unseeds_reapSession _ i)
    · first | exact hbad | exact hbad.trans (unseeds_reapSession _ i)

theorem unseeds_flexNetNotePeerL2Restart (n : Node) (call : AxCall) (port : ℕ) :
    n.Unseeds s (n.flexNetNotePeerL2Restart call port) := by
  unfold flexNetNotePeerL2Restart
  split
  · exact .refl n
  · rename_i i _
    refine .ite (.refl n) ?_
    extract_lets x m y
    have hreset : m.Unseeds s (m.setSession i { y with sentRoutes := false }) :=
      unseeds_setSession m nofun
    exact (onlyPeers_setPeer n i _).unseeds.trans (hreset.trans (unseeds_of_eq rfl))

theorem unseeds_adoptSession (n : Node) (i : Slot) (l : LinkId) :
    n.Unseeds s (n.adoptSession i l) := by
  unfold adoptSession
  extract_lets n₁ x n₂ n₃ y
  have h₁ : n.Unseeds s n₁ := .ite (.refl n) (unseeds_unflagOldLink n i)
  have h₂ : n₁.Unseeds s (n₁.setSession i { x with link := some l }) := unseeds_setSession n₁ id
  have h₃ : (n₁.setSession i { x with link := some l }).Unseeds s n₃ := unseeds_of_eq rfl
  exact h₁.trans (h₂.trans (h₃.trans (unseeds_setSession n₃ id)))

theorem unseeds_flexNetTryAdoptSession (n : Node) (l : LinkId) (port : ℕ) :
    n.Unseeds s (n.flexNetTryAdoptSession l port).1 := by
  unfold flexNetTryAdoptSession
  dsimp only
  split_ifs
  · exact .refl n
  · refine .foldl (fun n i => ?_) slots n
    unfold closeReplaced
    dsimp only
    split
    · exact .refl n
    · exact .ite (unseeds_flexNetCloseSession n _) (.refl n)
  · exact .refl n
  · split
    · exact .refl n
    · exact unseeds_adoptSession n _ l

theorem unseeds_sabmAccepted (n : Node) (l : LinkId) (port : ℕ) :
    n.Unseeds s (n.sabmAccepted l port) := by
  unfold sabmAccepted
  dsimp only
  refine .ite (.refl n) (.trans (unseeds_of_eq (by rfl))
    ((unseeds_flexNetTryAdoptSession (n.flagLink l true) l port).trans (.ite (.refl _) ?_)))
  exact unseeds_flexNetInitSession _ l port

/-! ## Frames -/

theorem unseeds_flexNotePeerEstablished (n : Node) (i : Slot) :
    n.Unseeds s (n.flexNotePeerEstablished i) := by
  rcases flexNotePeerEstablished_sessions n i with h | h
  · exact unseeds_of_eq h
  · exact (unseeds_setSession (x := { n.sessions i with flexEstInferred := true }) n id).trans
      (unseeds_of_eq h)

theorem unseeds_flexLinkTimeSample (n : Node) (i : Slot) :
    n.Unseeds s (n.flexLinkTimeSample i) := by
  unfold flexLinkTimeSample
  dsimp only
  refine .ite (.refl n) (.ite (unseeds_setSession n id) (.ite (.trans ?_
    (unseeds_of_eq (linkTimeMoved_sessions _ i))) ?_))
  all_goals exact unseeds_setSession n id

theorem unseeds_handleLinkTime (n : Node) (i : Slot) (data : CStr) :
    n.Unseeds s (n.handleLinkTime i data) := by
  have hnoted : ∀ m : Node, m.Unseeds s (m.noteLinkTime i data) := fun m =>
    .ite (.refl m) (unseeds_setSession m id)
  exact (unseeds_flexNotePeerEstablished n i).trans ((unseeds_flexLinkTimeSample _ i).trans
    ((hnoted _).trans (unseeds_flexSendLinkTime _ i)))

theorem unseeds_handleCompact (n : Node) (i : Slot) (data : CStr) :
    n.Unseeds s (n.handleCompact i data) :=
  (unseeds_flexNotePeerEstablished n i).trans
    (.foldl (fun n r => unseeds_of_eq (flexDtableMerge_sessions n r i)) _ _)

/-- A keepalive up to the seed. -/
def heardKeepalive (n : Node) (i : Slot) (data : CStr) : Node :=
  let n := n.setSession i
    { n.sessions i with keepaliveCount := (n.sessions i).keepaliveCount + 1 }
  let n := (n.flexNotePeerEstablished i).noteKeepalive i data
  (n.echoKeepalive i).flexSendLinkTime i

/-- A `'3+'` up to its answer. -/
def heardStatusPos (n : Node) (i : Slot) : Node :=
  let n := n.flexNotePeerEstablished i
  if (n.peers i).pcfQuiesced then
    n.setPeer i { n.peers i with pcfQuiesced := false, quiescedSince := 0 }
  else n

theorem unseeds_heardKeepalive (n : Node) (i : Slot) (data : CStr) :
    n.Unseeds s (n.heardKeepalive i data) := by
  have hnoted : ∀ m : Node, m.Unseeds s (m.noteKeepalive i data) := fun m =>
    .ite (unseeds_setSession m id) (.refl m)
  unfold heardKeepalive
  extract_lets x n₁ n₂
  have h₁ : n.Unseeds s n₁ := unseeds_setSession n id
  have h₂ : n₁.Unseeds s n₂ := (unseeds_flexNotePeerEstablished n₁ i).trans (hnoted _)
  exact h₁.trans (h₂.trans ((unseeds_of_eq (echoKeepalive_fields n₂ i)).trans
    (unseeds_flexSendLinkTime _ i)))

/-! ## The tables that the view is made from -/

/-- What a destination would cost a peer is read from the same tables. -/
structure SameTables (n m : Node) : Prop where
  cfg : m.cfg = n.cfg
  links : m.links = n.links
  linkOpts : m.linkOpts = n.linkOpts
  routes : ∀ i, (m.learned i).routes = (n.learned i).routes
  sourcing : ∀ i, (m.sessions i).sourcing = (n.sessions i).sourcing

theorem SameTables.refl (n : Node) : n.SameTables n := ⟨rfl, rfl, rfl, fun _ => rfl, fun _ => rfl⟩

theorem SameTables.symm (h : n.SameTables m) : m.SameTables n :=
  ⟨h.cfg.symm, h.links.symm, h.linkOpts.symm, fun i => (h.routes i).symm,
    fun i => (h.sourcing i).symm⟩

theorem SameTables.trans (h : n.SameTables m) (h' : m.SameTables o) : n.SameTables o where
  cfg := h'.cfg.trans h.cfg
  links := h'.links.trans h.links
  linkOpts := h'.linkOpts.trans h.linkOpts
  routes i := (h'.routes i).trans (h.routes i)
  sourcing i := (h'.sourcing i).trans (h.sourcing i)

theorem SameTables.ite {c : Prop} [Decidable c] (h : n.SameTables m) (h' : n.SameTables o) :
    n.SameTables (if c then m else o) := by
  split_ifs
  exacts [h, h']

theorem SameTables.eligible {k : Key} (h : n.SameTables m) (hk : n.toEnv.Eligible s k) :
    m.toEnv.Eligible s k := by
  have hsource := fun i => Prod.ext_iff.mp (h.sourcing i)
  have hrest := fun i => Prod.ext_iff.mp (hsource i).2
  have hlast := fun i => Prod.ext_iff.mp (hrest i).2
  exact (hk.congr h.cfg h.links h.routes h.linkOpts (fun i => (hsource i).1) (fun i => (hrest i).1)
    (fun i => (hlast i).1) fun i => (hlast i).2).1

theorem OnlyPeers.sameTables (h : n.OnlyPeers m) : n.SameTables m := by
  rw [h]
  exact ⟨rfl, rfl, rfl, fun _ => rfl, fun _ => rfl⟩

theorem sameTables_setSession (n : Node) {i : Slot} {x : Session}
    (h : x.sourcing = (n.sessions i).sourcing) : n.SameTables (n.setSession i x) := by
  refine ⟨rfl, rfl, rfl, fun _ => rfl, fun j => ?_⟩
  by_cases hj : j = i
  · rw [hj, setSession_sessions_self, h]
  · rw [setSession_sessions_of_ne n x hj]

theorem sameTables_anchorAdvert (n : Node) (i : Slot) : n.SameTables (n.anchorAdvert i) := by
  refine ⟨rfl, rfl, rfl, fun j => ?_, fun _ => rfl⟩
  by_cases hj : j = i
  · subst hj
    simp [anchorAdvert, setLearned]
  · simp [anchorAdvert, setLearned, Function.update_of_ne hj]

theorem sameTables_flexAdvertiseSeedPeer (n : Node) (i : Slot) :
    n.SameTables (n.flexAdvertiseSeedPeer i) := by
  unfold flexAdvertiseSeedPeer
  refine .ite (.refl n) ((onlyPeers_walk n i false false).sameTables.trans ?_)
  exact (SameTables.ite (onlyPeers_setPeer _ i _).sameTables (.refl _)).trans
    (sameTables_anchorAdvert _ i)

theorem sameTables_seedIfUnsent (n : Node) (i : Slot) : n.SameTables (n.seedIfUnsent i) := by
  unfold seedIfUnsent
  refine .ite (.refl n) ?_
  extract_lets m
  have hsent : m.SameTables (m.setSession i { m.sessions i with sentRoutes := true }) :=
    sameTables_setSession m rfl
  exact (onlyPeers_setPeer n i _).sameTables.trans
    (hsent.trans (sameTables_flexAdvertiseSeedPeer _ i))

/-! ## The full view -/

/-- The own frame and the full view go out between `v` and `m`, for a peer that had not had them. -/
structure SeedsFrom (v : Node) (s : Slot) (m : Node) : Prop where
  unsent : (v.sessions s).sentRoutes = false
  same : v.SameTables m
  own : (∀ i, v.cfg.getBuff s i = true) → ∃ gained, (m.peers s).wire = (v.peers s).wire ++ gained ∧
    v.cfg.ownFrame.toList.map (.frame pidCE) ⊆ gained
  sound : (v.peers s).adv.Sound → (m.peers s).adv.Sound
  told : (v.peers s).adv.Sound → v.cfg.recordsAllowed (v.peers s) = true → ∀ k,
    v.toEnv.Eligible s k → (m.peers s).Retells k

variable {v w : Node}

/-- What follows may write other slots, and fields no cost is read from. -/
theorem SeedsFrom.spared (h : v.SeedsFrom s w) (hsame : w.SameTables m)
    (hpeer : m.peers s = w.peers s) : v.SeedsFrom s m where
  unsent := h.unsent
  same := h.same.trans hsame
  own := hpeer ▸ h.own
  sound := hpeer ▸ h.sound
  told := hpeer ▸ h.told

theorem sound_drain {e : Env} {p : Slot} {x : Peer} (hs : x.adv.Sound) :
    (e.flexAdvertiseDrain p x).adv.Sound := by
  obtain ⟨acts, hacts⟩ := Env.drain_run (g := False) (R := False) e p x
  exact hacts.invariant (I := fun v => v.peer.adv.Sound) (fun _ a h _ => View.sound_apply h a) hs

theorem sound_flexAdvertiseSeedPeer (hs : (w.peers s).adv.Sound) :
    ((w.flexAdvertiseSeedPeer s).peers s).adv.Sound := by
  have hwalk := w.sound_walk s false hs
  unfold flexAdvertiseSeedPeer
  dsimp only [flexAdvertiseWalkForPeer]
  split_ifs
  · exact hs
  · simp only [anchorAdvert, flexAdvertiseDrain, setLearned_peers, setPeer_peers_self]
    exact sound_drain hwalk
  · simp only [anchorAdvert, setLearned_peers, setPeer_peers_self]
    exact hwalk

/-- A drain may follow. -/
theorem SeedsFrom.drained (h : v.SeedsFrom s w) : v.SeedsFrom s (w.flexAdvertiseDrain s) := by
  have hpeer : (w.flexAdvertiseDrain s).peers s = w.toEnv.flexAdvertiseDrain s (w.peers s) :=
    setPeer_peers_self ..
  refine ⟨h.unsent, h.same.trans (onlyPeers_setPeer w s _).sameTables, fun hbuf => ?_, fun hs => ?_,
    fun hs hallow k hk => ?_⟩
  · obtain ⟨gained, hwire, hown⟩ := h.own hbuf
    obtain ⟨more, hmore, -⟩ := (calm_drain w s).mute s
    exact ⟨gained ++ more, by rw [hmore, hwire, List.append_assoc],
      List.subset_append_of_subset_left _ hown⟩
  · rw [hpeer]
    exact sound_drain (h.sound hs)
  · rw [hpeer]
    exact Env.retells_drain (h.sound hs) (h.told hs hallow k hk)

theorem ownRoutes_adv (e : Env) (p : Slot) (deferEob : Bool) (x : Peer) :
    (e.flexSendOwnRoutes p deferEob x).adv = x.adv ∧
      (e.flexSendOwnRoutes p deferEob x).pcfQuiesced = x.pcfQuiesced := by
  unfold Env.flexSendOwnRoutes
  cases e.cfg.ownFrame <;> cases deferEob <;> exact ⟨rfl, rfl⟩

/-- With a buffer at hand the own frame goes out. -/
theorem ownRoutes_gained {e : Env} {p : Slot} (hbuf : ∀ i, e.cfg.getBuff p i = true)
    (deferEob : Bool) (x : Peer) :
    ∃ gained, (e.flexSendOwnRoutes p deferEob x).wire = x.wire ++ gained ∧
      e.cfg.ownFrame.toList.map (.frame pidCE) ⊆ gained := by
  unfold Env.flexSendOwnRoutes
  cases e.cfg.ownFrame <;> cases deferEob <;> simp [Env.flexSendFrame, hbuf]

theorem seedsFrom_seedIfUnsent (hunsent : (v.sessions s).sentRoutes = false) :
    v.SeedsFrom s (v.seedIfUnsent s) := by
  have hsame := v.sameTables_seedIfUnsent s
  set u := v.flexSendOwnRoutes s false with hu
  set u' := u.setSession s { u.sessions s with sentRoutes := true } with hu'
  have hseed : v.seedIfUnsent s = u'.flexAdvertiseSeedPeer s := if_neg (by simp [hunsent])
  have hsent : v.SameTables u' :=
    (onlyPeers_setPeer v s _).sameTables.trans (sameTables_setSession u rfl)
  have hpeer : u'.peers s = v.toEnv.flexSendOwnRoutes s false (v.peers s) := setPeer_peers_self ..
  rw [hseed] at hsame ⊢
  obtain ⟨hadv, hlatch⟩ := ownRoutes_adv v.toEnv s false (v.peers s)
  have hsound : (v.peers s).adv.Sound → (u'.peers s).adv.Sound := fun hs => by
    rw [hpeer, hadv]
    exact hs
  refine ⟨hunsent, hsame, fun hbuf => ?_, fun hs => ?_, fun hs hallow k hk => ?_⟩
  · obtain ⟨gained, hwire, hown⟩ := ownRoutes_gained hbuf false (v.peers s)
    obtain ⟨more, hmore, -⟩ := (calm_flexAdvertiseSeedPeer u' s).mute s
    refine ⟨gained ++ more, ?_, List.subset_append_of_subset_left _ hown⟩
    rw [hmore, hpeer, hwire, List.append_assoc]
  · exact sound_flexAdvertiseSeedPeer (hsound hs)
  · refine retells_seedPeer (hsound hs) (hsent.eligible hk) ?_
    rw [hpeer, Config.recordsAllowed, hlatch]
    exact hallow

theorem sound_answerStatusPos (hs : (w.peers s).adv.Sound) :
    ((w.answerStatusPos s).peers s).adv.Sound := by
  have hwalk := w.sound_walk s true hs
  unfold answerStatusPos
  dsimp only [flexAdvertiseWalkForPeer]
  simp only [flexAdvertiseDrain, setPeer_peers_self]
  exact sound_drain (hwalk.congr rfl)

theorem onlyPeers_answerStatusPos (n : Node) (i : Slot) : n.OnlyPeers (n.answerStatusPos i) :=
  (onlyPeers_walk n i false true).trans
    ((onlyPeers_setPeer _ i _).trans (onlyPeers_setPeer _ i _))

theorem calm_answerStatusPos (n : Node) (i : Slot) : n.Calm (n.answerStatusPos i) := by
  refine (n.calm_walk i false true).trans (.trans ?_ (calm_drain _ i))
  exact calm_setPeer _ (.of_eq rfl)

/-- The answer to a `'3+'`, once the latch is lifted. -/
def answeredStatusPos (v : Node) (i : Slot) : Node :=
  let m := v.flexSendOwnRoutes i v.cfg.transit
  let o := if m.cfg.transit then m.answerStatusPos i else m
  o.setSession i { o.sessions i with sentRoutes := true }

theorem handleStatusPos_eq (n : Node) (i : Slot) :
    n.handleStatusPos i = (n.heardStatusPos i).answeredStatusPos i := rfl

theorem seedsFrom_answeredStatusPos (hunsent : (v.sessions s).sentRoutes = false) :
    v.SeedsFrom s (v.answeredStatusPos s) := by
  unfold answeredStatusPos
  extract_lets m o
  have hpeer : m.peers s = v.toEnv.flexSendOwnRoutes s v.cfg.transit (v.peers s) :=
    setPeer_peers_self ..
  obtain ⟨hadv, hlatch⟩ := ownRoutes_adv v.toEnv s v.cfg.transit (v.peers s)
  have hown : v.OnlyPeers m := onlyPeers_setPeer v s _
  have hanswered : m.OnlyPeers o := by
    simp only [o]
    split_ifs
    exacts [onlyPeers_answerStatusPos m s, .refl m]
  have hsound : (v.peers s).adv.Sound → (m.peers s).adv.Sound := fun hs => by
    rw [hpeer, hadv]
    exact hs
  suffices hseeds : v.SeedsFrom s o from
    hseeds.spared (m := o.setSession s { o.sessions s with sentRoutes := true })
      (sameTables_setSession o rfl) rfl
  refine ⟨hunsent, (hown.trans hanswered).sameTables, fun hbuf => ?_, fun hs => ?_,
    fun hs hallow k hk => ?_⟩
  · obtain ⟨gained, hwire, hframe⟩ := ownRoutes_gained hbuf v.cfg.transit (v.peers s)
    have hcalm : m.Calm o := .ite (calm_answerStatusPos m s) (.refl m)
    obtain ⟨more, hmore, -⟩ := hcalm.mute s
    refine ⟨gained ++ more, ?_, List.subset_append_of_subset_left _ hframe⟩
    rw [hmore, hpeer, hwire, List.append_assoc]
  · simp only [o]
    split_ifs
    exacts [sound_answerStatusPos (hsound hs), hsound hs]
  · simp only [o]
    rw [if_pos (show m.cfg.transit = true from hk.transit)]
    refine retells_answerStatusPos (hsound hs) (hown.sameTables.eligible hk) ?_
    rw [hpeer, Config.recordsAllowed, hlatch]
    exact hallow

/-! ## Frames -/

theorem unseeds_heardInit (n : Node) (i : Slot) (data : CStr) :
    n.Unseeds s (n.heardInit i data) := by
  have hinferred : ∀ m : Node, m.Unseeds s (m.inferFamily i data.length) := fun m => by
    unfold inferFamily
    refine .ite (.refl m) (.ite (.trans (unseeds_setSession m ?_) (onlyPeers_setPeer _ i _).unseeds)
      (unseeds_setSession m id))
    exact id
  unfold heardInit
  refine .trans (unseeds_setSession n ?_)
    ((unseeds_of_eq (flexAddNeighbourEntry_sessions _ i)).trans
    (hinferred _))
  exact id

theorem unseeds_answerReinit (n : Node) (i : Slot) : n.Unseeds s (n.answerReinit i) := by
  unfold answerReinit
  extract_lets m x m' y
  have hinit : n.Unseeds s m := (unseeds_flexSendInit n i).trans (onlyPeers_setPeer _ i _).unseeds
  have hreset : m.Unseeds s m' := unseeds_setSession m nofun
  exact hinit.trans (hreset.trans (unseeds_of_eq rfl))

theorem unseeds_heardStatusPos (n : Node) (i : Slot) : n.Unseeds s (n.heardStatusPos i) :=
  (unseeds_flexNotePeerEstablished n i).trans (.ite (onlyPeers_setPeer _ i _).unseeds (.refl _))

/-- An INIT up to the seed. -/
def readInit (n : Node) (i : Slot) (data : CStr) : Node :=
  if n.answersInit i then (n.heardInit i data).answerReinit i else n.heardInit i data

theorem unseeds_readInit (n : Node) (i : Slot) (data : CStr) : n.Unseeds s (n.readInit i data) :=
  .ite ((unseeds_heardInit n i data).trans (unseeds_answerReinit _ i)) (unseeds_heardInit n i data)

/-- What follows a keepalive. -/
def answeredKeepalive (v : Node) (i : Slot) : Node :=
  let m := if (v.sessions i).flexIsEstablished then v.seedIfUnsent i else v
  m.setSession i { m.sessions i with lastKeepalive := m.now }

theorem handleKeepalive_eq (n : Node) (i : Slot) (data : CStr) :
    n.handleKeepalive i data = (n.heardKeepalive i data).answeredKeepalive i := by
  unfold handleKeepalive heardKeepalive answeredKeepalive
  rfl

theorem unseeds_seedIfUnsent (n : Node) {i : Slot} (hi : s ≠ i) : n.Unseeds s (n.seedIfUnsent i) :=
  fun hsent => by rwa [seedIfUnsent_sessions_of_ne n hi] at hsent

theorem unseeds_answeredKeepalive (v : Node) {i : Slot} (hi : s ≠ i) :
    v.Unseeds s (v.answeredKeepalive i) := by
  unfold answeredKeepalive
  extract_lets m
  have hm : v.Unseeds s m := .ite (unseeds_seedIfUnsent v hi) (.refl v)
  exact hm.trans (unseeds_setSession m id)

theorem unseeds_answeredStatusPos (v : Node) {i : Slot} (hi : s ≠ i) :
    v.Unseeds s (v.answeredStatusPos i) := by
  unfold answeredStatusPos
  extract_lets m o
  have hm : v.OnlyPeers m := onlyPeers_setPeer v i _
  have ho : m.Unseeds s o := .ite (onlyPeers_answerStatusPos m i).unseeds (.refl m)
  refine hm.unseeds.trans (ho.trans fun hsent => ?_)
  rwa [setSession_sessions_of_ne _ _ hi] at hsent

/-- A frame on another slot. -/
theorem unseeds_handleFrame (n : Node) {i : Slot} (data : CStr) (hi : s ≠ i) :
    n.Unseeds s (n.handleFrame i data) := by
  unfold handleFrame
  split
  · exact (unseeds_readInit n i data).trans (unseeds_seedIfUnsent _ hi)
  · rw [handleKeepalive_eq]
    exact (unseeds_heardKeepalive n i data).trans (unseeds_answeredKeepalive _ hi)
  · exact unseeds_handleLinkTime n i data
  · exact (onlyPeers_setPeer n i _).unseeds
  · exact (unseeds_heardStatusPos n i).trans (unseeds_answeredStatusPos _ hi)
  · exact unseeds_handleCompact n i data
  · exact .refl n

/-- The gates of every peer are passed, whoever wakes. -/
abbrev Passes (n m : Node) : Prop := n.Advances True (fun _ => True) m

theorem passes_heardInit (n : Node) (i : Slot) (data : CStr) : n.Passes (n.heardInit i data) := by
  unfold heardInit
  set x : Session := { n.sessions i with gotPeerInit := true, peerMaxSsid := initSsid data } with hx
  have hset : n.Passes (n.setSession i x) :=
    advances_setSession n ⟨rfl, rfl, rfl⟩ fun _ => Session.answered_mono id fun _ => rfl
  exact hset.trans ((advances_flexAddNeighbourEntry _ i).trans (advances_inferFamily _ i _))

theorem passes_readInit (n : Node) (i : Slot) (data : CStr) : n.Passes (n.readInit i data) :=
  .ite ((passes_heardInit n i data).trans (advances_answerReinit _ i fun _ => trivial))
    (passes_heardInit n i data)

theorem passes_heardKeepalive (n : Node) (i : Slot) (data : CStr) :
    n.Passes (n.heardKeepalive i data) := by
  unfold heardKeepalive
  extract_lets x n₁ n₂
  have h₁ : n.Passes n₁ := advances_touchSession n ⟨rfl, rfl, rfl, rfl⟩
  have h₂ : n₁.Passes n₂ :=
    (advances_flexNotePeerEstablished n₁ i).trans (advances_noteKeepalive _ i data)
  exact h₁.trans (h₂.trans ((advances_echoKeepalive n₂ i).trans (advances_flexSendLinkTime _ i)))

theorem passes_heardStatusPos (n : Node) (i : Slot) : n.Passes (n.heardStatusPos i) :=
  (advances_flexNotePeerEstablished n i).trans
    (.ite (advances_release _ i fun _ => .inl trivial) (.refl _))

/-- Something between `n` and `m` sends the own frame and the full view to the peer of a slot. -/
def Seeds (n : Node) (s : Slot) (m : Node) : Prop := ∃ v, n.Passes v ∧ v.SeedsFrom s m

theorem Seeds.after (h : m.Seeds s o) (hpass : n.Passes m) : n.Seeds s o :=
  let ⟨v, hv, hseeds⟩ := h
  ⟨v, hpass.trans hv, hseeds⟩

/-- A flag that is off before and comes on afterwards. -/
def ComesOn (n : Node) (s : Slot) (m : Node) : Prop :=
  (n.sessions s).sentRoutes = false ∧ (m.sessions s).sentRoutes = true

theorem ComesOn.not_unseeds (h : n.ComesOn s m) (hkept : n.Unseeds s m) : False := by
  have hsent := hkept h.2
  rw [h.1] at hsent
  cases hsent

theorem ComesOn.from (h : n.ComesOn s o) (hkept : n.Unseeds s m) : m.ComesOn s o := by
  refine ⟨by_contra fun hsent => ?_, h.2⟩
  have hbefore := hkept (by simpa using hsent)
  rw [h.1] at hbefore
  cases hbefore

/-- Where a frame makes the flag come on, the full view goes out. -/
theorem seeds_handleFrame (data : CStr) (h : n.ComesOn s (n.handleFrame s data)) :
    n.Seeds s (n.handleFrame s data) := by
  unfold handleFrame at h ⊢
  split at h
  · have hunsent := (h.from (unseeds_readInit n s data)).1
    exact ⟨_, passes_readInit n s data, seedsFrom_seedIfUnsent hunsent⟩
  · rw [handleKeepalive_eq] at h ⊢
    have hv := h.from (unseeds_heardKeepalive n s data)
    refine ⟨_, passes_heardKeepalive n s data, ?_⟩
    generalize n.heardKeepalive s data = v at hv
    unfold answeredKeepalive at hv ⊢
    extract_lets m at hv
    extract_lets
    have hm : v.ComesOn s m := ⟨hv.1, by simpa using hv.2⟩
    suffices hseeds : v.SeedsFrom s m from
      hseeds.spared (sameTables_setSession m rfl) rfl
    simp only [m] at hm ⊢
    split_ifs at hm ⊢
    · exact seedsFrom_seedIfUnsent hm.1
    · exact (hm.not_unseeds (.refl v)).elim
  · exact (h.not_unseeds (unseeds_handleLinkTime n s data)).elim
  · exact (h.not_unseeds (onlyPeers_setPeer n s _).unseeds).elim
  · rw [handleStatusPos_eq] at h ⊢
    have hunsent := (h.from (unseeds_heardStatusPos n s)).1
    exact ⟨_, passes_heardStatusPos n s, seedsFrom_answeredStatusPos hunsent⟩
  · exact (h.not_unseeds (unseeds_handleCompact n s data)).elim
  · exact (h.not_unseeds (.refl n)).elim

theorem seeds_handled {i : Slot} (data : CStr) (h : n.ComesOn s (n.handleFrame i data)) :
    n.Seeds s (n.handleFrame i data) := by
  by_cases hi : s = i
  · subst hi
    exact seeds_handleFrame data h
  · exact (h.not_unseeds (unseeds_handleFrame n data hi)).elim

theorem seeds_flexNetProcessCE {l : LinkId} {data : CStr}
    (h : n.ComesOn s (n.flexNetProcessCE l data)) :
    n.Seeds s (n.flexNetProcessCE l data) := by
  unfold flexNetProcessCE at h ⊢
  split_ifs at h ⊢
  · exact (h.not_unseeds (.refl n)).elim
  split at h
  · exact seeds_handled data h
  · extract_lets m at h
    extract_lets
    have hm : m.ComesOn s _ := h.from (unseeds_flexNetInitSession n l _)
    have hpass : n.Passes m := advances_flexNetInitSession n l _
    split at hm
    · exact (seeds_handled data hm).after hpass
    · exact (hm.not_unseeds (.refl m)).elim

theorem seeds_ceReceived {l : LinkId} {port : ℕ} {data : CStr}
    (h : n.ComesOn s (n.ceReceived l port data)) : n.Seeds s (n.ceReceived l port data) := by
  unfold ceReceived at h ⊢
  extract_lets m at h
  extract_lets
  have hkept : n.Unseeds s m := .ite (unseeds_flexNetInitSession n l port) (.refl n)
  have hpass : n.Passes m := .ite (advances_flexNetInitSession n l port) (.refl n)
  have hm := h.from hkept
  split_ifs at hm ⊢
  · exact (seeds_flexNetProcessCE hm).after hpass
  · exact (hm.not_unseeds (.refl m)).elim

end Node

end FlexNet
