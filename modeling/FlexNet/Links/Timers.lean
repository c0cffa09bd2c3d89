import FlexNet.Routing.Machine

/-!
# Who touches the keeper's and the reaper's records

The keeper remembers a few numbers for each declared link, and the reaper one for each session.
`Node.Untouched` is what every function of the node but the keeper's and the reaper's turns does:
the declared links are as they were, and a session that is up has the grace timer it had, or one
that was set back.  One lemma for each function.
-/

namespace FlexNet

namespace Node

variable {n m o : Node} {s : Slot} {l : LinkId}

/-- A session that is up afterwards was up before with the grace timer it has, or has one that is
not running. -/
def GraceKept (n m : Node) (s : Slot) : Prop :=
  (m.sessions s).active = true →
    m.reapBadSince s = 0 ∨
      ((n.sessions s).active = true ∧ m.reapBadSince s = n.reapBadSince s)

/-- The records of the keeper and of the reaper are as they were, or set back. -/
structure Untouched (n m : Node) : Prop where
  now : m.now = n.now
  portLinks : m.portLinks = n.portLinks
  grace : ∀ s, n.GraceKept m s

theorem GraceKept.refl (n : Node) (s : Slot) : n.GraceKept n s := fun hup => .inr ⟨hup, rfl⟩

theorem GraceKept.trans (h : n.GraceKept m s) (h' : m.GraceKept o s) : n.GraceKept o s := by
  intro hup
  rcases h' hup with hzero | ⟨hup', hsame⟩
  · exact .inl hzero
  · rw [hsame]
    exact h hup'

theorem graceKept_of_eq (hup : (m.sessions s).active = (n.sessions s).active)
    (hbad : m.reapBadSince s = n.reapBadSince s) : n.GraceKept m s :=
  fun h => .inr ⟨hup ▸ h, hbad⟩

theorem Untouched.refl (n : Node) : n.Untouched n := ⟨rfl, rfl, fun s => .refl n s⟩

theorem Untouched.trans (h : n.Untouched m) (h' : m.Untouched o) : n.Untouched o :=
  ⟨h'.now.trans h.now, h'.portLinks.trans h.portLinks, fun s => (h.grace s).trans (h'.grace s)⟩

theorem Untouched.ite {c : Prop} [Decidable c] (h : n.Untouched m) (h' : n.Untouched o) :
    n.Untouched (if c then m else o) := by
  split_ifs
  exacts [h, h']

theorem Untouched.foldl {α : Type*} {f : Node → α → Node}
    (h : ∀ (n : Node) a, n.Untouched (f n a)) (as : List α) (n : Node) :
    n.Untouched (as.foldl f n) := by
  induction as generalizing n with
  | nil => exact .refl n
  | cons a as ih => exact (h n a).trans (ih _)

/-- A change of something else. -/
theorem untouched_of_eq (hnow : m.now = n.now) (hlinks : m.portLinks = n.portLinks)
    (hbad : m.reapBadSince = n.reapBadSince) (hsessions : m.sessions = n.sessions) :
    n.Untouched m :=
  ⟨hnow, hlinks, fun s => graceKept_of_eq (by rw [hsessions]) (by rw [hbad])⟩

theorem OnlyPeers.untouched (h : n.OnlyPeers m) : n.Untouched m := by
  rw [h]
  exact untouched_of_eq rfl rfl rfl rfl

theorem untouched_setPeer (n : Node) (p : Slot) (x : Peer) : n.Untouched (n.setPeer p x) :=
  (onlyPeers_setPeer n p x).untouched

theorem untouched_setLearned (n : Node) (s : Slot) (x : LearnedState) :
    n.Untouched (n.setLearned s x) := untouched_of_eq rfl rfl rfl rfl

theorem untouched_setLink (n : Node) (l : LinkId) (x : Link) : n.Untouched (n.setLink l x) :=
  untouched_of_eq rfl rfl rfl rfl

theorem untouched_dests (n : Node) (dests : List DestEntry) :
    n.Untouched { n with dests := dests } := untouched_of_eq rfl rfl rfl rfl

/-- A session that is up no more than it was. -/
theorem untouched_setSession (n : Node) {s : Slot} {x : Session}
    (h : x.active = true → (n.sessions s).active = true) : n.Untouched (n.setSession s x) := by
  refine ⟨rfl, rfl, fun i hup => .inr ⟨?_, rfl⟩⟩
  by_cases hi : i = s
  · subst hi
    rw [setSession_sessions_self] at hup
    exact h hup
  · rwa [setSession_sessions_of_ne n x hi] at hup

/-! ## Frames and walks -/

theorem untouched_flagLink (n : Node) (l : LinkId) (b : Bool) : n.Untouched (n.flagLink l b) :=
  n.untouched_setLink l _

theorem untouched_unflagOldLink (n : Node) (s : Slot) : n.Untouched (n.unflagOldLink s) := by
  unfold unflagOldLink
  split
  · exact .refl n
  · exact n.untouched_flagLink _ false

theorem untouched_flexSendInit (n : Node) (s : Slot) : n.Untouched (n.flexSendInit s) :=
  (n.untouched_setPeer s _).trans (untouched_setSession _ (by exact id))

theorem untouched_sendKeepalive (n : Node) (s : Slot) : n.Untouched (n.sendKeepalive s) :=
  n.untouched_setPeer s _

theorem untouched_flexSendLinkTime (n : Node) (s : Slot) : n.Untouched (n.flexSendLinkTime s) :=
  .ite (.refl n) ((n.untouched_setPeer s _).trans (untouched_setSession _ (by exact id)))

theorem untouched_triggerPeersAll (n : Node) (s : Slot) (keys : List Key) :
    n.Untouched (n.triggerPeersAll s keys) := (onlyPeers_triggerPeersAll n s keys).untouched

theorem untouched_flexAdvertisePoisonSession (n : Node) (s : Slot) :
    n.Untouched (n.flexAdvertisePoisonSession s) :=
  (Untouched.ite (n.untouched_setLearned s _) (.refl n)).trans
    (onlyPeers_poisonSession n s).untouched

theorem untouched_flexAdvertiseSeedPeer (n : Node) (p : Slot) :
    n.Untouched (n.flexAdvertiseSeedPeer p) :=
  .ite (.refl n) ((onlyPeers_walk n p false false).untouched.trans
    (.trans (.ite (untouched_setPeer _ p _) (.refl _)) (untouched_setLearned _ p _)))

theorem untouched_flexAdvertiseNeighbours (n : Node) (p : Slot) :
    n.Untouched (n.flexAdvertiseNeighbours p) :=
  .ite (.refl n) ((onlyPeers_walk n p true true).untouched.trans
    (.trans (.ite (untouched_setPeer _ p _) (.refl _)) (untouched_setLearned _ p _)))

theorem untouched_seedIfUnsent (n : Node) (s : Slot) : n.Untouched (n.seedIfUnsent s) :=
  .ite (.refl n) ((n.untouched_setPeer s _).trans
    ((untouched_setSession _ (by exact id)).trans (untouched_flexAdvertiseSeedPeer _ s)))

/-! ## Records -/

theorem untouched_flexLearnedAdd (n : Node) (s : Slot) (r : Record) :
    n.Untouched (n.flexLearnedAdd s r) :=
  (n.untouched_setLearned s _).trans (onlyPeers_flexLearnedAdd n s r).untouched

theorem untouched_flexDtableMerge (n : Node) (r : Record) (s : Slot) :
    n.Untouched (n.flexDtableMerge r s) := by
  obtain ⟨dests, hmerge | ⟨dests', hmerge⟩⟩ := n.flexDtableMerge_cases r s
  · rw [hmerge]
    exact n.untouched_dests dests
  · rw [hmerge]
    exact ((n.untouched_dests dests).trans (untouched_flexLearnedAdd _ s r)).trans
      (untouched_dests _ dests')

theorem untouched_flagDirect (n : Node) (s : Slot) (k : Key) : n.Untouched (n.flagDirect s k) := by
  unfold flagDirect
  split
  · exact .refl n
  · exact n.untouched_setLearned s _

theorem untouched_flexAddNeighbourEntry (n : Node) (s : Slot) :
    n.Untouched (n.flexAddNeighbourEntry s) := by
  have hentered : n.Untouched { n with nbrEntered := Function.update n.nbrEntered s true } :=
    untouched_of_eq rfl rfl rfl rfl
  refine .ite (.refl n) (.ite (.refl n) (hentered.trans ?_))
  exact (untouched_flexDtableMerge _ _ s).trans (.ite (untouched_flagDirect _ s _) (.refl _))

/-! ## Link time and link options -/

theorem untouched_linkTimeMoved (n : Node) (s : Slot) : n.Untouched (n.linkTimeMoved s) :=
  .ite (.refl n) (.ite (n.untouched_setLearned s _)
    ((n.untouched_setLearned s _).trans (untouched_triggerPeersAll _ s _)))

theorem untouched_flexLinkTimeSample (n : Node) (s : Slot) :
    n.Untouched (n.flexLinkTimeSample s) := by
  unfold flexLinkTimeSample
  extract_lets sess sample smoothed wire wire' m
  have hm : n.Untouched m := n.untouched_setSession (by exact id)
  exact .ite (.refl n) (.ite (n.untouched_setSession (by exact id))
    (.ite (hm.trans (untouched_linkTimeMoved m s)) hm))

theorem untouched_flexLinkOptsChanged (n : Node) (s : Slot) (opts : LinkOpts) :
    n.Untouched (n.flexLinkOptsChanged s opts) := by
  unfold flexLinkOptsChanged
  extract_lets old n₁ shift n₂ n₃
  have h₁ : n.Untouched n₁ := untouched_of_eq rfl rfl rfl rfl
  have h₂ : n₁.Untouched n₂ := .ite (.refl _) (n₁.untouched_dests _)
  have h₃ : n₂.Untouched n₃ := untouched_triggerPeersAll n₂ s _
  refine (h₁.trans h₂).trans (.ite (.refl _) (h₃.trans (.ite (.refl _) ?_)))
  exact (onlyPeers_walk n₃ s false false).untouched.trans (untouched_setPeer _ s _)

theorem untouched_flexLinkOptsPoll (n : Node) : n.Untouched n.flexLinkOptsPoll := by
  have hpolled : n.Untouched { n with linkOptsPolled := n.now } := untouched_of_eq rfl rfl rfl rfl
  refine .ite (.refl n) (hpolled.trans (.foldl (fun n s => ?_) slots _))
  unfold pollLinkOpts
  dsimp only
  split
  · exact .refl n
  · exact .ite (.refl n) (.ite (.refl n) (n.untouched_flexLinkOptsChanged s _))

/-! ## The session life cycle -/

theorem untouched_rehandshake (n : Node) (s : Slot) : n.Untouched (n.rehandshake s) :=
  (n.untouched_setSession (by exact id)).trans
    ((untouched_flexSendInit _ s).trans (untouched_sendKeepalive _ s))

theorem untouched_reenterSession (n : Node) (s : Slot) (l : LinkId) :
    n.Untouched (n.reenterSession s l) := by
  unfold reenterSession
  extract_lets x m
  have hm : n.Untouched m :=
    (n.untouched_flagLink l true).trans (untouched_setSession _ (by exact id))
  exact .ite hm (hm.trans (untouched_rehandshake m s))

theorem untouched_flexLearnedAdopt (n : Node) (s : Slot) (call : CStr) :
    n.Untouched (n.flexLearnedAdopt s call) := by
  unfold flexLearnedAdopt
  refine .ite (n.untouched_setLearned s _) ?_
  split
  · exact n.untouched_setLearned s _
  · exact .ite (n.untouched_setLearned s _)
      ((n.untouched_setLearned s _).trans (untouched_setLearned _ _ _))

/-- A session that starts has a grace timer that is not running. -/
theorem untouched_startSession (n : Node) (s : Slot) (l : LinkId) (port : ℕ) :
    n.Untouched (n.startSession s l port) := by
  unfold startSession
  extract_lets call newCall n₁ n₂ x n₃ n₄ n₅ st n₆ n₇ n₈ n₉ sess n₁₀
  have h₁ : n.Untouched n₁ := n.untouched_setSession (by simp)
  have h₂ : n₁.Untouched n₂ := untouched_of_eq rfl rfl rfl rfl
  have h₃ : n₂.Untouched n₃ := n₂.untouched_setPeer s _
  have h₄ : n₃.Untouched n₄ := n₃.untouched_setPeer s _
  have h₅ : n₄.Untouched n₅ := n₄.untouched_flexLearnedAdopt s newCall
  have h₆ : n₅.Untouched n₆ := n₅.untouched_setLearned s _
  have h₇ : n₆.Untouched n₇ := ⟨rfl, rfl, fun i hup => by
    by_cases hi : i = s
    · exact .inl (by rw [hi]; exact Function.update_self ..)
    · exact .inr ⟨hup, Function.update_of_ne hi ..⟩⟩
  have hset : n₇.reapBadSince s = 0 := Function.update_self ..
  have h₈ : n₇.Untouched n₈ := ⟨rfl, rfl, fun i hup => by
    by_cases hi : i = s
    · exact .inl (hi ▸ hset)
    · rw [setSession_sessions_of_ne _ _ hi] at hup
      exact .inr ⟨hup, rfl⟩⟩
  have h₉ : n₈.Untouched n₉ :=
    (n₈.untouched_flagLink l true).trans
      ((untouched_flexSendInit _ s).trans (untouched_sendKeepalive _ s))
  have h₁₀ : n₉.Untouched n₁₀ := n₉.untouched_setSession (by exact id)
  exact h₁.trans <| h₂.trans <| h₃.trans <| h₄.trans <| h₅.trans <| h₆.trans <| h₇.trans <|
    h₈.trans <| h₉.trans <| h₁₀.trans (untouched_of_eq rfl rfl rfl rfl)

theorem untouched_flexNetInitSession (n : Node) (l : LinkId) (port : ℕ) :
    n.Untouched (n.flexNetInitSession l port) := by
  unfold flexNetInitSession
  split
  · exact n.untouched_reenterSession _ l
  · split
    · split
      · exact .refl n
      · exact (n.untouched_flagLink _ false).trans (untouched_reenterSession _ _ l)
    · split
      · exact .refl n
      · exact n.untouched_startSession _ l port

theorem untouched_flexNetCloseSession (n : Node) (l : LinkId) :
    n.Untouched (n.flexNetCloseSession l) := by
  unfold flexNetCloseSession
  split
  · exact .refl n
  · exact (n.untouched_setLearned _ _).trans <| (untouched_setSession _ (by simp)).trans <|
      (untouched_flagLink _ l false).trans <| (untouched_dests _ _).trans <|
        untouched_flexAdvertisePoisonSession _ _

theorem untouched_flexNetNotePeerL2Restart (n : Node) (call : AxCall) (port : ℕ) :
    n.Untouched (n.flexNetNotePeerL2Restart call port) := by
  unfold flexNetNotePeerL2Restart
  split
  · exact .refl n
  · exact .ite (.refl n) ((n.untouched_setPeer _ _).trans
      ((untouched_setSession _ (by exact id)).trans (untouched_setPeer _ _ _)))

/-- A session that is carried over has a grace timer that is not running. -/
theorem untouched_adoptSession (n : Node) (s : Slot) (l : LinkId) :
    n.Untouched (n.adoptSession s l) := by
  unfold adoptSession
  extract_lets n₁ x n₂ n₃ y
  have h₁ : n.Untouched n₁ := .ite (.refl n) (n.untouched_unflagOldLink s)
  have h₂ : n₁.Untouched n₂ :=
    (n₁.untouched_setSession (by exact id)).trans (untouched_flagLink _ l true)
  have h₃ : n₂.Untouched n₃ := ⟨rfl, rfl, fun i hup => by
    by_cases hi : i = s
    · exact .inl (by rw [hi]; exact Function.update_self ..)
    · exact .inr ⟨hup, Function.update_of_ne hi ..⟩⟩
  exact h₁.trans (h₂.trans (h₃.trans (n₃.untouched_setSession (by exact id))))

theorem untouched_flexNetTryAdoptSession (n : Node) (l : LinkId) (port : ℕ) :
    n.Untouched (n.flexNetTryAdoptSession l port).1 := by
  have hclose : ∀ (n : Node) (i : Slot), n.Untouched (n.closeReplaced l port i) := fun n i => by
    unfold closeReplaced
    dsimp only
    split
    · exact .refl n
    · exact .ite (n.untouched_flexNetCloseSession _) (.refl n)
  unfold flexNetTryAdoptSession
  dsimp only
  split_ifs
  · exact .refl n
  · exact .foldl hclose slots n
  · exact .refl n
  · split
    · exact .refl n
    · exact n.untouched_adoptSession _ l

theorem untouched_sabmAccepted (n : Node) (l : LinkId) (port : ℕ) :
    n.Untouched (n.sabmAccepted l port) := by
  unfold sabmAccepted
  refine .ite (.refl n) ?_
  have hadopt := (n.untouched_flagLink l true).trans
    (untouched_flexNetTryAdoptSession (n.flagLink l true) l port)
  exact .ite hadopt (hadopt.trans (untouched_flexNetInitSession _ l port))

/-! ## Received frames -/

theorem untouched_flexNotePeerEstablished (n : Node) (s : Slot) :
    n.Untouched (n.flexNotePeerEstablished s) := by
  unfold flexNotePeerEstablished
  refine .ite (.refl n) ?_
  split
  · exact .refl n
  · exact .ite (.refl n)
      ((n.untouched_setSession (by exact id)).trans (untouched_flexAddNeighbourEntry _ s))

theorem untouched_answerReinit (n : Node) (s : Slot) : n.Untouched (n.answerReinit s) :=
  (n.untouched_flexSendInit s).trans <| (untouched_sendKeepalive _ s).trans <|
    (untouched_setSession _ (by exact id)).trans <| (untouched_setPeer _ s _).trans
      (untouched_setPeer _ s _)

theorem untouched_inferFamily (n : Node) (s : Slot) (len : ℕ) :
    n.Untouched (n.inferFamily s len) :=
  .ite (.refl n) (.ite ((n.untouched_setSession (by exact id)).trans (untouched_sendKeepalive _ s))
    (n.untouched_setSession (by exact id)))

theorem untouched_handleInit (n : Node) (s : Slot) (data : CStr) :
    n.Untouched (n.handleInit s data) := by
  unfold handleInit
  extract_lets sess reinit n₁ n₂
  have h₁ : n.Untouched n₁ := n.untouched_setSession (by exact id)
  have h₂ : n₁.Untouched n₂ :=
    (n₁.untouched_flexAddNeighbourEntry s).trans (untouched_inferFamily _ s _)
  exact h₁.trans (h₂.trans ((Untouched.ite (n₂.untouched_answerReinit s) (.refl n₂)).trans
    (untouched_seedIfUnsent _ s)))

theorem untouched_handleKeepalive (n : Node) (s : Slot) (data : CStr) :
    n.Untouched (n.handleKeepalive s data) := by
  unfold handleKeepalive
  extract_lets x n₁ n₂ n₃ n₄
  have h₁ : n.Untouched n₁ := n.untouched_setSession (by exact id)
  have h₂ : n₁.Untouched n₂ := (n₁.untouched_flexNotePeerEstablished s).trans
    (.ite (untouched_setSession _ (by exact id)) (.refl _))
  have hecho : n₂.Untouched (n₂.echoKeepalive s) := by
    have hstamp : n₂.Untouched { n₂ with kaEchoAt := Function.update n₂.kaEchoAt s n₂.now } :=
      untouched_of_eq rfl rfl rfl rfl
    exact .ite (.refl n₂) (hstamp.trans (untouched_sendKeepalive _ s))
  have h₃ : n₂.Untouched n₃ := hecho.trans (untouched_flexSendLinkTime _ s)
  have h₄ : n₃.Untouched n₄ := .ite (n₃.untouched_seedIfUnsent s) (.refl n₃)
  exact h₁.trans (h₂.trans (h₃.trans (h₄.trans (n₄.untouched_setSession (by exact id)))))

theorem untouched_handleLinkTime (n : Node) (s : Slot) (data : CStr) :
    n.Untouched (n.handleLinkTime s data) := by
  unfold handleLinkTime
  refine (n.untouched_flexNotePeerEstablished s).trans
    ((untouched_flexLinkTimeSample _ s).trans (.trans ?_ (untouched_flexSendLinkTime _ s)))
  exact .ite (.refl _) (untouched_setSession _ (by exact id))

theorem untouched_handleStatusPos (n : Node) (s : Slot) : n.Untouched (n.handleStatusPos s) := by
  unfold handleStatusPos
  extract_lets n₁ x n₂ n₃ n₄
  have h₁ : n.Untouched n₁ := n.untouched_flexNotePeerEstablished s
  have h₂ : n₁.Untouched n₂ := .ite (n₁.untouched_setPeer s _) (.refl n₁)
  have h₃ : n₂.Untouched n₃ := n₂.untouched_setPeer s _
  have h₄ : n₃.Untouched n₄ := .ite ((onlyPeers_walk n₃ s false true).untouched.trans
    ((untouched_setPeer _ s _).trans (untouched_setPeer _ s _))) (.refl n₃)
  exact h₁.trans (h₂.trans (h₃.trans (h₄.trans (n₄.untouched_setSession (by exact id)))))

theorem untouched_handleFrame (n : Node) (s : Slot) (data : CStr) :
    n.Untouched (n.handleFrame s data) := by
  unfold handleFrame
  split
  · exact n.untouched_handleInit s data
  · exact n.untouched_handleKeepalive s data
  · exact n.untouched_handleLinkTime s data
  · exact n.untouched_setPeer s _
  · exact n.untouched_handleStatusPos s
  · exact (n.untouched_flexNotePeerEstablished s).trans
      (.foldl (fun n r => n.untouched_flexDtableMerge r s) _ _)
  · exact .refl n

theorem untouched_flexNetProcessCE (n : Node) (l : LinkId) (data : CStr) :
    n.Untouched (n.flexNetProcessCE l data) := by
  unfold flexNetProcessCE
  refine .ite (.refl n) ?_
  split
  · exact n.untouched_handleFrame _ data
  · have hinit := n.untouched_flexNetInitSession l ((n.links l).port.getD 0)
    dsimp only
    split
    · exact hinit.trans (untouched_handleFrame _ _ data)
    · exact hinit

theorem untouched_ceReceived (n : Node) (l : LinkId) (port : ℕ) (data : CStr) :
    n.Untouched (n.ceReceived l port data) := by
  unfold ceReceived
  extract_lets m
  have hm : n.Untouched m := .ite (n.untouched_flexNetInitSession l port) (.refl n)
  exact hm.trans (.ite (m.untouched_flexNetProcessCE l data) (.refl m))

/-! ## The keeper, and the rest of the timer -/

/-- The reaper's records are as they were, or set back. -/
structure Graced (n m : Node) : Prop where
  now : m.now = n.now
  grace : ∀ s, n.GraceKept m s

theorem Graced.refl (n : Node) : n.Graced n := ⟨rfl, fun s => .refl n s⟩

theorem Graced.trans (h : n.Graced m) (h' : m.Graced o) : n.Graced o :=
  ⟨h'.now.trans h.now, fun s => (h.grace s).trans (h'.grace s)⟩

theorem Graced.ite {c : Prop} [Decidable c] (h : n.Graced m) (h' : n.Graced o) :
    n.Graced (if c then m else o) := by
  split_ifs
  exacts [h, h']

theorem Graced.foldl {α : Type*} {f : Node → α → Node} (h : ∀ (n : Node) a, n.Graced (f n a))
    (as : List α) (n : Node) : n.Graced (as.foldl f n) := by
  induction as generalizing n with
  | nil => exact .refl n
  | cons a as ih => exact (h n a).trans (ih _)

theorem Untouched.graced (h : n.Untouched m) : n.Graced m := ⟨h.now, h.grace⟩

theorem graced_setPortLink (n : Node) (i : ℕ) (pl : PortLink) : n.Graced (n.setPortLink i pl) :=
  ⟨rfl, fun _ => graceKept_of_eq rfl rfl⟩

theorem graced_keepPortLink (n : Node) (i : ℕ) : n.Graced (n.keepPortLink i) := by
  unfold keepPortLink
  split
  · exact .refl n
  · refine .ite (.refl n) ?_
    split
    · have hseen := n.graced_setPortLink i
      exact .ite (.refl n) (.ite ((hseen _).trans
        (untouched_flexNetInitSession _ _ _).graced) (hseen _))
    · refine .ite (n.graced_setPortLink i _) (.ite (.refl n) ?_)
      split
      · exact n.graced_setPortLink i _
      · exact (n.untouched_setLink _ _).graced.trans (graced_setPortLink _ i _)

theorem graced_flexPortLinksKeep (n : Node) : n.Graced n.flexPortLinksKeep := by
  have hscanned : n.Graced { n with portLinkScanned := n.now } :=
    ⟨rfl, fun _ => graceKept_of_eq rfl rfl⟩
  exact .ite (.refl n) (.ite (.refl n) (hscanned.trans (.foldl graced_keepPortLink _ _)))

/-! ## The reaper -/

/-- The reaper's verdict on a session, with the grace timer it leaves. -/
def reapVerdict (n : Node) (s : Slot) : ReapVerdict × ℤ :=
  flexReapDecide ((n.sessions s).link.map n.links) (n.reapBadSince s) n.now

/-- The reaper writes a session's grace timer. -/
def setBadSince (n : Node) (s : Slot) (t : ℤ) : Node :=
  { n with reapBadSince := Function.update n.reapBadSince s t }

theorem untouched_setBadSince_zero (n : Node) (s : Slot) : n.Untouched (n.setBadSince s 0) := by
  refine ⟨rfl, rfl, fun i hup => ?_⟩
  by_cases hi : i = s
  · exact .inl (by rw [hi]; exact Function.update_self ..)
  · exact .inr ⟨hup, Function.update_of_ne hi ..⟩

theorem untouched_migrateSession (n : Node) (s : Slot) (li : LinkId) :
    n.Untouched (n.migrateSession s li) := by
  unfold migrateSession
  extract_lets n₁ x n₂
  have h₁ : n.Untouched n₁ := n.untouched_unflagOldLink s
  have h₂ : n₁.Untouched n₂ :=
    (n₁.untouched_setSession (by exact id)).trans (untouched_flagLink _ li true)
  exact h₁.trans (h₂.trans (n₂.untouched_setBadSince_zero s))

theorem untouched_reapSession (n : Node) (s : Slot) : n.Untouched (n.reapSession s) := by
  unfold reapSession
  extract_lets n₁ n₂ st n₃ x n₄ n₅ n₆
  have h₁ : n.Untouched n₁ := n.untouched_setBadSince_zero s
  have h₂ : n₁.Untouched n₂ := n₁.untouched_unflagOldLink s
  have h₃ : n₂.Untouched n₃ := n₂.untouched_setLearned s _
  have h₄ : n₃.Untouched n₄ := n₃.untouched_setSession (by simp)
  have h₅ : n₄.Untouched n₅ :=
    (n₄.untouched_dests _).trans (untouched_flexAdvertisePoisonSession _ s)
  have h₆ : n₅.Untouched n₆ := n₅.untouched_setSession (by simp)
  exact h₁.trans (h₂.trans (h₃.trans (h₄.trans (h₅.trans (h₆.trans (n₆.untouched_setPeer s _))))))

/-- The row the reaper would move a session to. -/
def reapTarget (n : Node) (s : Slot) : Option LinkId :=
  if (n.sessions s).peerCallsign.isEmpty then none
  else (List.range n.cfg.maxLinks).find? (n.migrationTarget s)

theorem reapTurn_down (n : Node) (hdown : (n.sessions s).active = false) : n.reapTurn s = n :=
  if_pos (by simpa using hdown)

/-- What the reaper does with a session that is up. -/
theorem reapTurn_up (n : Node) (hup : (n.sessions s).active = true) :
    n.reapTurn s =
      let m := n.setBadSince s (n.reapVerdict s).2
      match (n.reapVerdict s).1, n.reapTarget s with
      | .keep, _ => m
      | _, some li => m.migrateSession s li
      | .now, none => m.reapSession s
      | .wait, none => m := by
  unfold reapTurn
  unfold reapVerdict
  dsimp only
  rw [if_neg (by simp [hup])]
  generalize flexReapDecide ((n.sessions s).link.map n.links) (n.reapBadSince s) n.now = v
  obtain ⟨verdict, bad⟩ := v
  -- the grace timer is no part of what makes a row a target
  have htarget : (if (n.sessions s).peerCallsign.isEmpty = true then none
      else (List.range n.cfg.maxLinks).find? ((n.setBadSince s bad).migrationTarget s)) =
        n.reapTarget s := rfl
  unfold setBadSince at htarget
  cases verdict with
  | keep => rfl
  | wait =>
      dsimp only
      rw [htarget]
      cases n.reapTarget s <;> rfl
  | now =>
      dsimp only
      rw [htarget]
      cases n.reapTarget s <;> rfl

/-- The reaper's turn on a session writes its grace timer, and touches nothing else of these. -/
theorem untouched_reapTurn (n : Node) (s : Slot) :
    (n.setBadSince s (if (n.sessions s).active then (n.reapVerdict s).2 else n.reapBadSince s)
      ).Untouched (n.reapTurn s) := by
  by_cases hup : (n.sessions s).active = true
  · rw [if_pos hup, n.reapTurn_up hup]
    dsimp only
    split
    · exact .refl _
    · exact untouched_migrateSession _ s _
    · exact untouched_reapSession _ s
    · exact .refl _
  · rw [if_neg hup, n.reapTurn_down (by simpa using hup), setBadSince, Function.update_eq_self]
    exact .refl n

theorem untouched_proactiveInit (n : Node) : n.Untouched n.proactiveInit := by
  have hscanned : n.Untouched { n with lastProactiveInitScan := n.now } :=
    untouched_of_eq rfl rfl rfl rfl
  exact .ite (.refl n) (hscanned.trans (.foldl (fun n li =>
    .ite (n.untouched_flexNetInitSession li _) (.refl n)) _ _))

theorem untouched_serveSession (n : Node) (s : Slot) : n.Untouched (n.serveSession s) := by
  refine .ite (.refl n) ?_
  have hkeepalive : n.Untouched (n.serveKeepalive s) :=
    .ite (.refl n) ((n.untouched_sendKeepalive s).trans
      ((untouched_flexSendLinkTime _ s).trans (untouched_setSession _ (by exact id))))
  refine hkeepalive.trans (.trans (.ite ?_ (.refl _)) (.trans (.ite ?_ (.refl _))
    (untouched_setPeer _ s _)))
  · exact (untouched_setLearned _ s _).trans
      ((untouched_setPeer _ s _).trans (untouched_flexAdvertiseNeighbours _ s))
  · exact untouched_seedIfUnsent _ s

theorem untouched_sendPath (n : Node) (s : Slot) (pid : UInt8) (data : CStr) :
    n.Untouched (n.sendPath s pid data) := .ite (n.untouched_setPeer s _) (.refl n)

theorem untouched_loadPathRow (n : Node) (k : Key) (path : List Callsign) (updated : ℤ) :
    n.Untouched (n.loadPathRow k path updated) := by
  unfold loadPathRow
  split
  · exact n.untouched_dests _
  · exact .ite (n.untouched_dests _) (.refl n)

/-- Every event but the clock and the timer leaves the records alone. -/
theorem event_untouched (n : Node) (e : Event) (hclock : ∀ t k, e ≠ .clock t k)
    (htimer : e ≠ .timer) : n.Untouched (n.event e) := by
  cases e with
  | clock t k => exact absurd rfl (hclock t k)
  | row l x => exact n.untouched_setLink l x
  | mapTable ports => exact untouched_of_eq rfl rfl rfl rfl
  | initSession l port => exact n.untouched_flexNetInitSession l port
  | closeSession l => exact n.untouched_flexNetCloseSession l
  | notePeerL2Restart call port => exact n.untouched_flexNetNotePeerL2Restart call port
  | tryAdoptSession l port => exact n.untouched_flexNetTryAdoptSession l port
  | sabm l port => exact n.untouched_sabmAccepted l port
  | processCE l data => exact n.untouched_flexNetProcessCE l data
  | ceReceived l port data => exact n.untouched_ceReceived l port data
  | timer => exact absurd rfl htimer
  | heal i => exact n.untouched_dests _
  | pathCache rows =>
      exact .foldl (fun n (row : Key × List Callsign × ℤ) =>
        n.untouched_loadPathRow row.1 row.2.1 row.2.2) rows n
  | pathFrame s reply body => exact n.untouched_sendPath s _ _
  | l3Frame s data => exact n.untouched_sendPath s _ _

end Node

end FlexNet
