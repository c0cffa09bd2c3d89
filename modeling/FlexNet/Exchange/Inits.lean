import FlexNet.Exchange.Stamps

/-!
# Who is answered with an INIT, and who starts with one

One lemma for each function of the node.  The calm ones send no INIT.  A session that starts, or
starts over, sends one, and its station has no other session as long as BPQ's rows tell the stations
of the sessions (`RowsTell`).
-/

namespace FlexNet

namespace Node

variable {n m o : Node} {s : Slot} {l : LinkId} {data : CStr}

/-! ## The session life cycle -/

/-- One slot is written, and its queue only grows. -/
structure OnlySlot (n : Node) (s : Slot) (m : Node) : Prop where
  now : m.now = n.now
  others : ∀ i, i ≠ s → m.peers i = n.peers i ∧ m.sessions i = n.sessions i
  wire : (n.peers s).wire <+: (m.peers s).wire

theorem OnlySlot.trans (h : n.OnlySlot s m) (h' : m.OnlySlot s o) : n.OnlySlot s o :=
  ⟨h'.now.trans h.now, fun i hi => ⟨(h'.others i hi).1.trans (h.others i hi).1,
    (h'.others i hi).2.trans (h.others i hi).2⟩, h.wire.trans h'.wire⟩

theorem onlySlot_of_eq (hnow : m.now = n.now) (hpeers : m.peers = n.peers)
    (hsessions : m.sessions = n.sessions) : n.OnlySlot s m :=
  ⟨hnow, fun _ _ => ⟨by rw [hpeers], by rw [hsessions]⟩, by rw [hpeers]⟩

theorem onlySlot_setSession (n : Node) (s : Slot) (x : Session) : n.OnlySlot s (n.setSession s x) :=
  ⟨rfl, fun _ hi => ⟨rfl, setSession_sessions_of_ne n x hi⟩, List.prefix_rfl⟩

theorem onlySlot_setPeer (n : Node) {s : Slot} {x : Peer} (h : (n.peers s).wire <+: x.wire) :
    n.OnlySlot s (n.setPeer s x) :=
  ⟨rfl, fun _ hi => ⟨setPeer_peers_of_ne n x hi, rfl⟩, by rw [setPeer_peers_self]; exact h⟩

/-- One slot has just sent an INIT, and the others are calm. -/
theorem OnlySlot.stampedAt (h : n.OnlySlot s m) (hstamp : (m.sessions s).lastInitTx = n.now)
    (i : Slot) : n.StampedAt m i := by
  by_cases hi : i = s
  · rw [hi]
    exact .inr ⟨h.wire, fun _ => hstamp⟩
  · obtain ⟨hpeer, hsession⟩ := h.others i hi
    exact .inl ⟨.of_eq (by rw [hpeer]), hsession ▸ .refl _⟩

/-- The session that sends is with the station it was with. -/
theorem OnlySlot.stamps (h : n.OnlySlot s m) (hstamp : (m.sessions s).lastInitTx = n.now)
    (hsame : KeepsStation (n.sessions s) (m.sessions s)) : n.Stamps m := by
  refine ⟨h.now, h.stampedAt hstamp, .of_same fun i => ?_⟩
  by_cases hi : i = s
  · exact hi ▸ hsame
  · rw [(h.others i hi).2]
    exact (Holds.refl _).1

/-- The session that sends is new, and its station has no other. -/
theorem OnlySlot.stamps_new (h : n.OnlySlot s m) (hstamp : (m.sessions s).lastInitTx = n.now)
    (hnew : ∀ i, i ≠ s → (n.sessions i).active = true →
      (n.sessions i).port = (m.sessions s).port → n.peerName i ≠ m.peerName s) : n.Stamps m := by
  refine ⟨h.now, h.stampedAt hstamp, fun hn i j hi hj hport hname => ?_⟩
  have hother : ∀ i, i ≠ s → (m.sessions i).active = true → (n.sessions i).active = true ∧
      (m.sessions i).port = (n.sessions i).port ∧ m.peerName i = n.peerName i := fun i his hi => by
    have hkept := (h.others i his).2
    exact ⟨hkept ▸ hi, congrArg _ hkept,
      congrArg (fun x => flexNormalizeCallsign (Session.peerCallsign x)) hkept⟩
  have hunlike : ∀ i, i ≠ s → (m.sessions i).active = true →
      (m.sessions i).port = (m.sessions s).port → m.peerName i ≠ m.peerName s :=
    fun i his hi hport hname => by
      obtain ⟨hup, hp, hnm⟩ := hother i his hi
      exact hnew i his hup (hp ▸ hport) (hnm ▸ hname)
  by_cases his : i = s
  · by_contra hij
    subst his
    exact hunlike j (Ne.symm hij) hj hport.symm hname.symm
  · by_cases hjs : j = s
    · subst hjs
      exact absurd hname (hunlike i his hi hport)
    · obtain ⟨hi', hpi, hni⟩ := hother i his hi
      obtain ⟨hj', hpj, hnj⟩ := hother j hjs hj
      exact hn i j hi' hj' (hpi ▸ hpj ▸ hport) (hni.symm.trans (hname.trans hnj))

theorem flexSendFrame_isPrefix (e : Env) (p : Slot) (pid : UInt8) (data : CStr) (x : Peer) :
    x.wire <+: (e.flexSendFrame p pid data x).wire := by
  unfold Env.flexSendFrame
  dsimp only
  split_ifs
  · exact List.prefix_append _ _
  · exact List.prefix_rfl

theorem onlySlot_flexSendInit (n : Node) (s : Slot) : n.OnlySlot s (n.flexSendInit s) :=
  (n.onlySlot_setPeer (flexSendFrame_isPrefix _ _ _ _ _)).trans (onlySlot_setSession _ s _)

theorem flexSendInit_stamp (n : Node) (s : Slot) :
    ((n.flexSendInit s).sessions s).lastInitTx = n.now :=
  congrArg Session.lastInitTx (setSession_sessions_self _ s _)

theorem flexSendInit_session (n : Node) (s : Slot) :
    (n.flexSendInit s).sessions s = { n.sessions s with lastInitTx := n.now } :=
  setSession_sessions_self _ s _

theorem stamps_flexSendInit (n : Node) (s : Slot) : n.Stamps (n.flexSendInit s) := by
  refine (n.onlySlot_flexSendInit s).stamps (n.flexSendInit_stamp s) ?_
  rw [flexSendInit_session]
  exact fun hup => ⟨hup, rfl, rfl⟩

theorem calm_flagLink (n : Node) (l : LinkId) (b : Bool) : n.Calm (n.flagLink l b) :=
  calm_of_eq rfl rfl rfl

theorem calm_unflagOldLink (n : Node) (s : Slot) : n.Calm (n.unflagOldLink s) := by
  unfold unflagOldLink
  split
  · exact .refl n
  · exact n.calm_flagLink _ false

theorem stamps_rehandshake (n : Node) (s : Slot) : n.Stamps (n.rehandshake s) := by
  unfold rehandshake
  extract_lets x m
  have hreset : n.Calm m := calm_setSession n (.of_eq rfl rfl rfl rfl)
  exact hreset.stamps.trans ((stamps_flexSendInit m s).trans (calm_sendKeepalive _ s).stamps)

/-- A session is met again on a row of its station. -/
theorem stamps_reenterSession (n : Node) (s : Slot) (l : LinkId)
    (hname : n.peerName s = n.rowName l) : n.Stamps (n.reenterSession s l) := by
  have hcalm : n.Calm ((n.flagLink l true).setSession s
      { n.sessions s with link := some l, peerCallsign := (n.links l).linkCall }) := by
    refine (n.calm_flagLink l true).trans (calm_setSession _ ?_)
    exact ⟨fun hup => ⟨hup, rfl, hname.symm⟩, fun _ => rfl⟩
  unfold reenterSession
  exact .ite hcalm.stamps (hcalm.stamps.trans (stamps_rehandshake _ s))

theorem flexLearnedAdopt_now (n : Node) (s : Slot) (call : CStr) :
    (n.flexLearnedAdopt s call).now = n.now := by
  unfold flexLearnedAdopt
  split_ifs
  · rfl
  · split
    · rfl
    · split_ifs <;> rfl

/-- A session is started: its slot alone is written, and it is stamped. -/
theorem startSession_onlySlot (n : Node) (s : Slot) (l : LinkId) (port : ℕ) :
    n.OnlySlot s (n.startSession s l port) ∧
      ((n.startSession s l port).sessions s).lastInitTx = n.now ∧
      ((n.startSession s l port).sessions s).port = port ∧
      (n.startSession s l port).peerName s = n.rowName l := by
  unfold startSession
  extract_lets call newCall n₁ n₂ x n₃ n₄ n₅ st n₆ n₇ n₈ n₉ sess n₁₀
  obtain ⟨hpeers, hsessions⟩ := flexLearnedAdopt_peers n₄ s newCall
  have h₁ : n.OnlySlot s n₁ := n.onlySlot_setSession s {}
  have h₂ : n₁.OnlySlot s n₂ := onlySlot_of_eq rfl rfl rfl
  have h₃ : n₂.OnlySlot s n₃ := n₂.onlySlot_setPeer List.prefix_rfl
  have h₄ : n₃.OnlySlot s n₄ := n₃.onlySlot_setPeer (List.prefix_append _ _)
  have h₅ : n₄.OnlySlot s n₅ := onlySlot_of_eq (flexLearnedAdopt_now n₄ s newCall) hpeers hsessions
  have h₇ : n₅.OnlySlot s n₇ := onlySlot_of_eq rfl rfl rfl
  have h₈ : n₇.OnlySlot s n₈ := n₇.onlySlot_setSession s _
  have hflag : n₈.OnlySlot s (n₈.flagLink l true) := onlySlot_of_eq rfl rfl rfl
  have hopened : n.OnlySlot s (n₈.flagLink l true) :=
    h₁.trans <| h₂.trans <| h₃.trans <| h₄.trans <| h₅.trans <| h₇.trans <| h₈.trans hflag
  have h₉ : (n₈.flagLink l true).OnlySlot s n₉ :=
    (onlySlot_flexSendInit _ s).trans (onlySlot_setPeer _ (flexSendFrame_isPrefix _ _ _ _ _))
  have hsent : n₉.sessions s = { n₈.sessions s with lastInitTx := n₈.now } :=
    flexSendInit_session (n₈.flagLink l true) s
  have hopen : n₈.sessions s = _ := setSession_sessions_self n₇ s _
  have hkept : n₁₀.sessions s = { sess with lastKeepalive := n₉.now } :=
    setSession_sessions_self n₉ s _
  have hend : n₁₀.OnlySlot s
      { n₁₀ with nbrEntered := Function.update n₁₀.nbrEntered s false } :=
    onlySlot_of_eq rfl rfl rfl
  refine ⟨hopened.trans (h₉.trans ((n₉.onlySlot_setSession s _).trans hend)), ?_, ?_, ?_⟩
  · exact (congrArg Session.lastInitTx hkept).trans ((congrArg Session.lastInitTx hsent).trans
      hopened.now)
  · exact (congrArg Session.port hkept).trans ((congrArg Session.port hsent).trans
      (congrArg Session.port hopen))
  · have hcall : (n₁₀.sessions s).peerCallsign = call :=
      (congrArg Session.peerCallsign hkept).trans ((congrArg Session.peerCallsign hsent).trans
        (congrArg Session.peerCallsign hopen))
    exact congrArg flexNormalizeCallsign hcall

/-- A session is started for a station that has none. -/
theorem stamps_startSession (n : Node) (s : Slot) (l : LinkId) (port : ℕ)
    (hnew : ∀ i, (n.sessions i).active = true → (n.sessions i).port = port →
      n.peerName i ≠ n.rowName l) : n.Stamps (n.startSession s l port) := by
  obtain ⟨honly, hstamp, hport, hname⟩ := n.startSession_onlySlot s l port
  refine honly.stamps_new hstamp fun i _ hup hp => ?_
  rw [hname]
  exact hnew i hup (hp.trans hport)

/-- The rows tell which sessions of a port are with the station in a row: those whose own rows have
its octets. -/
structure RowsTell (n : Node) (l : LinkId) (port : ℕ) : Prop where
  samePort : ∀ i, n.OnRow i l → (n.sessions i).port = port
  sameName : ∀ i, (n.sessions i).active = true → (n.sessions i).port = port →
    (n.peerName i = n.rowName l ↔
      ∃ l' ∈ (n.sessions i).link, (n.links l').linkCall = (n.links l).linkCall)

theorem stamps_flexNetInitSession (n : Node) (l : LinkId) (port : ℕ) (hrows : n.RowsTell l port) :
    n.Stamps (n.flexNetInitSession l port) := by
  unfold flexNetInitSession
  cases hon : slots.find? fun i => (n.sessions i).active && (n.sessions i).link == some l with
  | some i =>
      obtain ⟨hup, hlink⟩ : (n.sessions i).active = true ∧ (n.sessions i).link = some l := by
        simpa using List.find?_some hon
      exact stamps_reenterSession n i l ((hrows.sameName i hup (hrows.samePort i ⟨hup, hlink⟩)).mpr
        ⟨l, hlink, rfl⟩)
  | none =>
      dsimp only
      cases hsame : slots.find? (n.sameCallSession l port) with
      | some i =>
          dsimp only
          cases hlink : (n.sessions i).link with
          | none => exact .refl n
          | some old =>
              have hoctets := List.find?_some hsame
              simp only [sameCallSession, hlink, Bool.and_eq_true, beq_iff_eq] at hoctets
              have hname := (hrows.sameName i hoctets.1.1 hoctets.1.2).mpr ⟨old, hlink, hoctets.2.2⟩
              have hrow : (n.flagLink old false).rowName l = n.rowName l :=
                congrArg flexNormalizeCallsign (flagLink_linkCall n old false l)
              exact (calm_flagLink n old false).stamps.trans
                (stamps_reenterSession _ i l (hname.trans hrow.symm))
      | none =>
          dsimp only
          cases slots.find? fun i => !(n.sessions i).active with
          | none => exact .refl n
          | some s =>
              refine stamps_startSession n s l port fun i hup hport hname => ?_
              -- its own row has the octets, so the session would have been met
              obtain ⟨l', hl', hcall⟩ := (hrows.sameName i hup hport).mp hname
              have hl : l' ≠ l := by
                rintro rfl
                have := List.find?_eq_none.mp hon i (mem_slots i)
                simp [hup, Option.mem_def.mp hl'] at this
              have := List.find?_eq_none.mp hsame i (mem_slots i)
              simp [sameCallSession, hup, hport, Option.mem_def.mp hl', hl, hcall] at this

/-- Time stands still while a session is met or started, whatever the rows tell. -/
theorem flexNetInitSession_now (n : Node) (l : LinkId) (port : ℕ) :
    (n.flexNetInitSession l port).now = n.now := by
  have hreenter : ∀ (m : Node) s, (m.reenterSession s l).now = m.now := fun m s => by
    unfold reenterSession
    dsimp only
    split_ifs <;> rfl
  unfold flexNetInitSession
  split
  · exact hreenter n _
  · split
    · split
      · rfl
      · exact hreenter _ _
    · split
      · rfl
      · exact (n.startSession_onlySlot _ l port).1.now

/-- A session goes down, and the poison walk follows. -/
theorem calm_poison (n : Node) {s : Slot} {x : Session} (hdown : x.active = false) :
    n.Calm (((n.setSession s x).flexDestReelectVia s).flexAdvertisePoisonSession s) := by
  have hstopped : n.Calm ((n.setSession s x).flexDestReelectVia s) := by
    exact (n.calm_setSession (.of_down hdown)).trans (calm_of_eq rfl rfl rfl)
  exact hstopped.trans (calm_flexAdvertisePoisonSession _ s)

theorem calm_flexNetCloseSession (n : Node) (l : LinkId) : n.Calm (n.flexNetCloseSession l) := by
  unfold flexNetCloseSession
  split
  · exact .refl n
  · rename_i s _
    extract_lets st m
    have hdied : n.Calm m := n.calm_setLearned s _
    exact hdied.trans ((calm_flagLink m l false).trans (calm_poison _ rfl))

theorem calm_reapSession (n : Node) (s : Slot) : n.Calm (n.reapSession s) := by
  unfold reapSession
  extract_lets n₁ n₂ st n₃ x n₄ n₅ n₆ y
  have h₁ : n.Calm n₁ := calm_of_eq rfl rfl rfl
  have h₂ : n₁.Calm n₂ := calm_unflagOldLink n₁ s
  have h₃ : n₂.Calm n₃ := n₂.calm_setLearned s _
  have h₅ : n₃.Calm n₅ := calm_poison n₃ rfl
  have h₆ : n₅.Calm n₆ := calm_setSession n₅ (.of_down rfl)
  exact h₁.trans <| h₂.trans <| h₃.trans <| h₅.trans <| h₆.trans <| calm_release n₆ s

theorem calm_migrateSession (n : Node) (s : Slot) (li : LinkId) :
    n.Calm (n.migrateSession s li) := by
  unfold migrateSession
  extract_lets n₁ x n₂
  have h₁ : n.Calm n₁ := calm_unflagOldLink n s
  have h₂ : n₁.Calm n₂ := by
    refine .trans ?_ (calm_flagLink _ li true)
    exact calm_setSession n₁ (.of_eq rfl rfl rfl rfl)
  exact h₁.trans (h₂.trans (calm_of_eq rfl rfl rfl))

theorem calm_reapTurn (n : Node) (s : Slot) : n.Calm (n.reapTurn s) := by
  unfold reapTurn
  extract_lets sess
  refine .ite (.refl n) ?_
  generalize flexReapDecide _ _ _ = r
  obtain ⟨verdict, badSince⟩ := r
  dsimp only
  have hbad : n.Calm { n with reapBadSince := Function.update n.reapBadSince s badSince } :=
    calm_of_eq rfl rfl rfl
  split
  · exact hbad
  all_goals
    split
    · exact hbad.trans (calm_migrateSession _ s _)
    · exact hbad.trans (calm_reapSession _ s)
    · first | exact hbad | exact hbad.trans (calm_reapSession _ s)

theorem calm_flexNetNotePeerL2Restart (n : Node) (call : AxCall) (port : ℕ) :
    n.Calm (n.flexNetNotePeerL2Restart call port) := by
  unfold flexNetNotePeerL2Restart
  split
  · exact .refl n
  · rename_i i _
    refine .ite (.refl n) ((calm_release n i).trans (.trans ?_ (calm_clearAdvertised _ i)))
    exact calm_setSession _ (.of_eq rfl rfl rfl rfl)

/-- A session is carried over to a row whose callsign reads like its own. -/
theorem calm_adoptSession (n : Node) {i : Slot} {port : ℕ} (h : n.adoptsTo l port i = true) :
    n.Calm (n.adoptSession i l) := by
  have hcalls : flexNormalizeCallsign (n.sessions i).peerCallsign =
      flexNormalizeCallsign (n.links l).linkCall := by
    simp only [adoptsTo, Bool.and_eq_true, beq_iff_eq] at h
    exact h.2
  unfold adoptSession
  extract_lets n₁ x n₂ n₃ y
  have hroutes : n.SameRoutes n₁ := .ite (.refl n) (sameRoutes_unflagOldLink n i)
  have hsessions : n₁.sessions i = n.sessions i := by
    simp only [n₁]
    split_ifs
    · rfl
    · rw [unflagOldLink_sessions]
  have h₁ : n.Calm n₁ := .ite (.refl n) (calm_unflagOldLink n i)
  have h₂ : n₁.Calm n₂ := by
    refine .trans ?_ (calm_flagLink _ l true)
    exact calm_setSession n₁ (.of_eq rfl rfl rfl rfl)
  have h₃ : n₂.Calm n₃ := calm_of_eq rfl rfl rfl
  refine h₁.trans <| h₂.trans <| h₃.trans <|
    calm_setSession n₃ ⟨fun hup => ⟨hup, rfl, ?_⟩, fun _ => rfl⟩
  have hrow : (n₃.links l).linkCall = (n.links l).linkCall :=
    (flagLink_linkCall _ l true l).trans (hroutes.linkCall l)
  have hown : (n₃.sessions i).peerCallsign = (n.sessions i).peerCallsign := by
    have hmoved := congrArg Session.peerCallsign
      (setSession_sessions_self n₁ i { x with link := some l })
    have hkept : x.peerCallsign = (n.sessions i).peerCallsign :=
      congrArg Session.peerCallsign hsessions
    exact hmoved.trans hkept
  rw [hown]
  exact (congrArg flexNormalizeCallsign hrow).trans hcalls.symm

theorem calm_flexNetTryAdoptSession (n : Node) (l : LinkId) (port : ℕ) :
    n.Calm (n.flexNetTryAdoptSession l port).1 := by
  unfold flexNetTryAdoptSession
  dsimp only
  split_ifs
  · exact .refl n
  · refine Calm.foldl (f := fun n i => n.closeReplaced l port i) (fun n i => ?_) slots n
    unfold closeReplaced
    dsimp only
    split
    · exact .refl n
    · exact .ite (calm_flexNetCloseSession n _) (.refl n)
  · exact .refl n
  · split
    · exact .refl n
    · rename_i i hadopts
      exact n.calm_adoptSession (List.find?_some hadopts)

/-! ## Received frames -/

theorem calm_seedIfUnsent (n : Node) (s : Slot) : n.Calm (n.seedIfUnsent s) := by
  unfold seedIfUnsent
  refine .ite (.refl n) ((n.calm_flexSendOwnRoutes s false).trans
    (.trans ?_ (calm_flexAdvertiseSeedPeer _ s)))
  exact calm_setSession _ (.of_eq rfl rfl rfl rfl)

theorem calm_inferFamily (n : Node) (s : Slot) (len : ℕ) : n.Calm (n.inferFamily s len) := by
  unfold inferFamily
  refine .ite (.refl n) (.ite (.trans ?_ (calm_sendKeepalive _ s)) ?_)
  all_goals exact calm_setSession n (.of_eq rfl rfl rfl rfl)

/-- An INIT up to the answer it may get. -/
def heardInit (n : Node) (s : Slot) (data : CStr) : Node :=
  ((n.setSession s
    { n.sessions s with gotPeerInit := true, peerMaxSsid := initSsid data }).flexAddNeighbourEntry
      s).inferFamily s data.length

theorem calm_heardInit (n : Node) (s : Slot) (data : CStr) : n.Calm (n.heardInit s data) := by
  refine .trans (.trans ?_ (calm_flexAddNeighbourEntry _ s)) (calm_inferFamily _ s _)
  exact calm_setSession n (.of_eq rfl rfl rfl rfl)

/-- The answer of `FlexNet_ProcessCE` to an INIT is an INIT. -/
def answersInit (n : Node) (s : Slot) : Bool :=
  flexReinitAnswer (n.sessions s).flexIsEstablished (n.sessions s).lastInitTx n.now

theorem handleInit_eq (n : Node) (s : Slot) (data : CStr) : n.handleInit s data =
    (if n.answersInit s then (n.heardInit s data).answerReinit s
      else n.heardInit s data).seedIfUnsent s := rfl

/-- After its INIT, the answer is calm. -/
theorem calm_answerReinit (n : Node) (s : Slot) : (n.flexSendInit s).Calm (n.answerReinit s) := by
  unfold answerReinit
  extract_lets m x m' y
  have hsent : (n.flexSendInit s).Calm m := calm_sendKeepalive _ s
  have hkept : m.Calm m' := calm_setSession m (.of_eq rfl rfl rfl rfl)
  exact hsent.trans (hkept.trans ((calm_release m' s).trans (calm_clearAdvertised _ s)))

theorem stamps_handleInit (n : Node) (s : Slot) (data : CStr) : n.Stamps (n.handleInit s data) := by
  rw [handleInit_eq]
  refine (n.calm_heardInit s data).stamps.trans (.trans ?_ (calm_seedIfUnsent _ s).stamps)
  exact .ite ((stamps_flexSendInit _ s).trans (calm_answerReinit _ s).stamps) (.refl _)

theorem calm_handleKeepalive (n : Node) (s : Slot) (data : CStr) :
    n.Calm (n.handleKeepalive s data) := by
  have hecho : ∀ m : Node, m.Calm (m.echoKeepalive s) := fun m => by
    unfold echoKeepalive
    refine .ite (.refl m) (.trans ?_ (calm_sendKeepalive _ s))
    exact calm_of_eq rfl rfl rfl
  have hnote : ∀ m : Node, m.Calm (m.noteKeepalive s data) := fun m =>
    .ite (calm_setSession m (.of_eq rfl rfl rfl rfl)) (.refl m)
  unfold handleKeepalive
  extract_lets _ n₁ n₂ n₃ n₄ _
  have h₁ : n.Calm n₁ := calm_setSession n (.of_eq rfl rfl rfl rfl)
  have h₂ : n₁.Calm n₂ := (calm_flexNotePeerEstablished n₁ s).trans (hnote _)
  have h₃ : n₂.Calm n₃ := (hecho n₂).trans (calm_flexSendLinkTime _ s)
  have h₄ : n₃.Calm n₄ := .ite (calm_seedIfUnsent n₃ s) (.refl n₃)
  exact h₁.trans <| h₂.trans <| h₃.trans <| h₄.trans <| calm_setSession n₄ (.of_eq rfl rfl rfl rfl)

theorem calm_handleLinkTime (n : Node) (s : Slot) (data : CStr) :
    n.Calm (n.handleLinkTime s data) := by
  have hnote : ∀ m : Node, m.Calm (m.noteLinkTime s data) := fun m =>
    .ite (.refl m) (calm_setSession m (.of_eq rfl rfl rfl rfl))
  exact (((calm_flexNotePeerEstablished n s).trans (calm_flexLinkTimeSample _ s)).trans
    (hnote _)).trans (calm_flexSendLinkTime _ s)

theorem calm_handleStatusPos (n : Node) (s : Slot) : n.Calm (n.handleStatusPos s) := by
  have hanswer : ∀ m : Node, m.Calm (m.answerStatusPos s) := fun m => by
    have hwalk := m.calm_walk s false true
    unfold answerStatusPos
    generalize m.flexAdvertiseWalkForPeer s false true = r at hwalk
    obtain ⟨o, queued⟩ := r
    refine hwalk.trans (.trans ?_ (calm_drain _ s))
    exact calm_setPeer o (.of_eq rfl)
  unfold handleStatusPos
  extract_lets n₁ x n₂ n₃ n₄
  have h₁ : n.Calm n₁ := calm_flexNotePeerEstablished n s
  have h₂ : n₁.Calm n₂ := .ite (calm_release n₁ s) (.refl n₁)
  have h₃ : n₂.Calm n₃ := n₂.calm_flexSendOwnRoutes s _
  have h₄ : n₃.Calm n₄ := .ite (hanswer n₃) (.refl n₃)
  exact h₁.trans <| h₂.trans <| h₃.trans <| h₄.trans <| calm_setSession n₄ (.of_eq rfl rfl rfl rfl)

theorem calm_handleCompact (n : Node) (s : Slot) (data : CStr) : n.Calm (n.handleCompact s data) :=
  (calm_flexNotePeerEstablished n s).trans (.foldl (fun m r => m.calm_flexDtableMerge r s) _ _)

/-- A frame that is no INIT. -/
theorem calm_handleFrame (n : Node) (s : Slot) (data : CStr)
    (h : flexParseCeFrame n.cfg.lt3byte data ≠ some .init) : n.Calm (n.handleFrame s data) := by
  unfold handleFrame
  split
  · rename_i hparse
    exact absurd hparse h
  · exact n.calm_handleKeepalive s data
  · exact n.calm_handleLinkTime s data
  · rename_i hparse
    refine n.calm_flexSendFrame s ?_
    have hhead := (flexParseCeFrame_octets hparse).2.2.2.2 rfl
    simp [WireEvent.isInit, hhead]
  · exact n.calm_handleStatusPos s
  · exact n.calm_handleCompact s data
  · exact .refl n

theorem stamps_handleFrame (n : Node) (s : Slot) (data : CStr) :
    n.Stamps (n.handleFrame s data) := by
  by_cases hinit : flexParseCeFrame n.cfg.lt3byte data = some .init
  · have hhandled : n.handleFrame s data = n.handleInit s data := by
      unfold handleFrame
      rw [hinit]
    rw [hhandled]
    exact n.stamps_handleInit s data
  · exact (n.calm_handleFrame s data hinit).stamps

theorem flexNetProcessCE_now (n : Node) (l : LinkId) (data : CStr) :
    (n.flexNetProcessCE l data).now = n.now := by
  have hinit := n.flexNetInitSession_now l ((n.links l).port.getD 0)
  unfold flexNetProcessCE
  split_ifs
  · rfl
  · split
    · exact (n.stamps_handleFrame _ data).now
    · dsimp only
      generalize n.flexNetInitSession l _ = m at hinit ⊢
      split
      · exact ((m.stamps_handleFrame _ data).now).trans hinit
      · exact hinit

/-! ## The timer -/

/-- The row of declared link `i` tells. -/
def LinkTells (n : Node) (i : ℕ) : Prop :=
  ∀ pl li, n.portLinks[i]? = some pl → n.findLink pl.axcall n.cfg.myCall pl.port = .inl li →
    n.RowsTell li pl.port

theorem stamps_keepPortLink (n : Node) (i : ℕ) (htells : n.LinkTells i) :
    n.Stamps (n.keepPortLink i) := by
  have hset : ∀ (m : Node) pl, m.Stamps (m.setPortLink i pl) := fun m pl =>
    stamps_of_eq rfl rfl rfl
  unfold keepPortLink
  split
  · exact .refl n
  · rename_i pl hpl
    refine .ite (.refl n) ?_
    split
    · rename_i li hfound
      obtain ⟨hport, hname⟩ := htells pl li hpl hfound
      refine .ite (.refl n) ((hset n _).trans (.ite ?_ (.refl _)))
      exact stamps_flexNetInitSession _ li pl.port ⟨hport, hname⟩
    · refine .ite (hset n _) (.ite (.refl n) ?_)
      split
      · exact hset n _
      · exact stamps_of_eq rfl rfl rfl

theorem calm_serveSession (n : Node) (s : Slot) : n.Calm (n.serveSession s) := by
  have hkeepalive : ∀ m : Node, m.Calm (m.serveKeepalive s) := fun m => by
    unfold serveKeepalive
    refine .ite (.refl m) (((m.calm_sendKeepalive s).trans (calm_flexSendLinkTime _ s)).trans ?_)
    exact calm_setSession _ (.of_eq rfl rfl rfl rfl)
  have hrefresh : ∀ m : Node, m.Calm (m.serveRefresh s) := fun m => by
    unfold serveRefresh
    refine .ite (.trans ?_ (calm_flexAdvertiseNeighbours _ s)) (.refl m)
    exact (m.calm_setLearned s _).trans (calm_flexSendOwnRoutes _ s false)
  have hreseed : ∀ m : Node, m.Calm (m.serveReseed s) := fun m =>
    .ite (calm_seedIfUnsent m s) (.refl m)
  exact .ite (.refl n)
    (((hkeepalive n).trans ((hrefresh _).trans (hreseed _))).trans (calm_drain _ s))

/-! ## Events -/

theorem calm_sendPath (n : Node) (s : Slot) {pid : UInt8} {data : CStr}
    (h : (WireEvent.frame pid data).isInit = false) : n.Calm (n.sendPath s pid data) :=
  .ite (n.calm_flexSendFrame s h) (.refl n)

theorem calm_loadPathRow (n : Node) (k : Key) (path : List Callsign) (updated : ℤ) :
    n.Calm (n.loadPathRow k path updated) := by
  unfold loadPathRow
  split
  · exact calm_of_eq rfl rfl rfl
  · refine .ite ?_ (.refl n)
    exact calm_of_eq rfl rfl rfl

end Node

end FlexNet
