import FlexNet.Exchange.Gates

/-!
# A frame handled at a frozen clock

Each answer of `FlexNet_ProcessCE` on the link it came by, and the gate it stands behind.
-/

namespace FlexNet

namespace Node

variable {s : Slot}

/-! ## Saying something -/

theorem speaks_sendKeepalive (n : Node) (s : Slot) : n.Speaks s (n.sendKeepalive s) :=
  n.speaks_flexSendFrame s stake_keepalive

theorem speaks_flexSendInit (n : Node) (s : Slot) : n.Speaks s (n.flexSendInit s) :=
  (n.speaks_flexSendFrame s (stake_init n.cfg.initMax)).trans (speaks_setSession _ rfl rfl)

theorem speaks_flexSendOwnRoutes (n : Node) (s : Slot) (deferEob : Bool) :
    n.Speaks s (n.flexSendOwnRoutes s deferEob) :=
  n.speaks_setPeer ((n.gains_ownRoutes s deferEob (n.peers s)).mono fun _ hw => hw.stake)

theorem speaks_walk (n : Node) (s : Slot) (directOnly force : Bool) :
    n.Speaks s (n.flexAdvertiseWalkForPeer s directOnly force).1 :=
  n.speaks_setPeer (.of_eq (n.flexAdvertiseWalkForPeer_wire s directOnly force (n.peers s)))

theorem speaks_drain (n : Node) (s : Slot) : n.Speaks s (n.flexAdvertiseDrain s) :=
  n.speaks_setPeer ((n.gains_drain s (n.peers s)).mono fun _ hw => hw.stake)

theorem speaks_flexAdvertiseSeedPeer (n : Node) (s : Slot) :
    n.Speaks s (n.flexAdvertiseSeedPeer s) := by
  have hwalk := n.speaks_walk s false false
  unfold flexAdvertiseSeedPeer
  split_ifs
  · exact .refl n s
  · refine .trans ?_ (settles_setLearned _ s s _).toSpeaks
    split_ifs
    · exact hwalk.trans (speaks_drain _ s)
    · exact hwalk

theorem flexAdvertiseSeedPeer_fields (n : Node) (s : Slot) :
    (n.flexAdvertiseSeedPeer s).sessions = n.sessions ∧
      (n.flexAdvertiseSeedPeer s).kaEchoAt = n.kaEchoAt := by
  unfold flexAdvertiseSeedPeer
  split_ifs
  · exact ⟨rfl, rfl⟩
  · dsimp only
    split_ifs
    · exact ⟨rfl, rfl⟩
    · exact ⟨rfl, rfl⟩

theorem speaks_seedIfUnsent (n : Node) (s : Slot) : n.Speaks s (n.seedIfUnsent s) := by
  unfold seedIfUnsent
  split_ifs
  · exact .refl n s
  · refine (n.speaks_flexSendOwnRoutes s false).trans (.trans ?_ (speaks_flexAdvertiseSeedPeer _ s))
    exact speaks_setSession _ rfl rfl

theorem seedIfUnsent_fields (n : Node) (s : Slot) :
    (n.seedIfUnsent s).sessions s = { n.sessions s with sentRoutes := true } ∧
      (n.seedIfUnsent s).kaEchoAt = n.kaEchoAt := by
  unfold seedIfUnsent
  split_ifs with hsent
  · exact ⟨by rw [← hsent], rfl⟩
  · dsimp only
    rw [(flexAdvertiseSeedPeer_fields _ s).1, (flexAdvertiseSeedPeer_fields _ s).2,
      setSession_sessions_self]
    exact ⟨rfl, rfl⟩

/-! ## The gates -/

/-- The full view goes out once. -/
theorem settles_seedIfUnsent (n : Node) (s : Slot) : n.Settles s (n.seedIfUnsent s) := by
  have hspeaks := n.speaks_seedIfUnsent s
  obtain ⟨hsession, hecho⟩ := n.seedIfUnsent_fields s
  have hshut : ¬ (n.seedIfUnsent s).Open s .seed := by
    simp [Open, hsession]
  refine ⟨hspeaks, open_of_open hspeaks.now (.inl (by rw [hsession])) (.inr hshut)
    (.inl (by rw [hsession])) (.inl (by rw [hecho])) (.inl (by rw [hsession])), ?_⟩
  by_cases hsent : (n.sessions s).sentRoutes = true
  · left
    unfold seedIfUnsent
    rw [if_pos hsent]
  · exact .inr ⟨.seed, by simpa [Open] using hsent, hshut⟩

/-- An INIT on an established session is answered once, with the full view. -/
theorem settles_answerReinit (n : Node) (hnow : 0 < n.now) (hopen : n.Open s .reinit) :
    n.Settles s ((n.answerReinit s).seedIfUnsent s) := by
  have hanswer : n.Speaks s (n.answerReinit s) := by
    refine ((n.speaks_flexSendInit s).trans (speaks_sendKeepalive _ s)).trans
      (.trans ?_ (speaks_clearAdvertised _ s))
    refine .trans ?_ (speaks_setPeer _ (.of_eq rfl))
    exact speaks_setSession _ rfl rfl
  have hspeaks := hanswer.trans (speaks_seedIfUnsent _ s)
  obtain ⟨hsession, hecho⟩ := (n.answerReinit s).seedIfUnsent_fields s
  have hanswered : (n.answerReinit s).sessions s =
      { n.sessions s with lastInitTx := n.now, lastKeepalive := n.now, sentRoutes := false } := by
    simp [answerReinit, clearAdvertised, flexSendInit, sendKeepalive, flexSendFrame]
    rfl
  rw [hanswered] at hsession
  have hshut : ¬ ((n.answerReinit s).seedIfUnsent s).Open s .reinit := by
    simp only [Open, hsession, hspeaks.now, reinitGuard]
    omega
  refine ⟨hspeaks, open_of_open hspeaks.now (.inr hshut) (.inr (by simp [Open, hsession]))
    (.inl (by rw [hsession])) (.inl (by rw [hecho]; rfl)) (.inl (by rw [hsession])), ?_⟩
  exact .inr ⟨.reinit, hopen, hshut⟩

/-- A keepalive shows the family once. -/
theorem settles_inferFamily (n : Node) (s : Slot) (len : ℕ) :
    n.Settles s (n.inferFamily s len) := by
  unfold inferFamily
  dsimp only
  split_ifs with hknown hlen
  · exact .refl n s
  · set m := (n.setSession s { n.sessions s with
      peerKaLen := 201, peerKaTerm := 0x0D }).sendKeepalive s
    have hspeaks : n.Speaks s m := by
      refine .trans ?_ (speaks_sendKeepalive _ s)
      exact speaks_setSession n rfl rfl
    have hsession : m.sessions s = { n.sessions s with peerKaLen := 201, peerKaTerm := 0x0D } :=
      setSession_sessions_self n s _
    have hshut : ¬ m.Open s .shape := by
      simp [Open, hsession]
    refine ⟨hspeaks, open_of_open rfl (.inl (by rw [hsession])) (.inl (by rw [hsession]))
      (.inr hshut) (.inl rfl) (.inl (by rw [hsession])), .inr ⟨.shape, ?_, hshut⟩⟩
    exact not_not.mp hknown
  · exact n.settles_setSession rfl rfl rfl rfl (.inr (by simp)) rfl

theorem speaks_echoKeepalive (n : Node) (s : Slot) : n.Speaks s (n.echoKeepalive s) := by
  unfold echoKeepalive
  split_ifs
  · exact .refl n s
  · have hstamp : n.Speaks s { n with kaEchoAt := Function.update n.kaEchoAt s n.now } :=
      ⟨rfl, rfl, rfl, fun _ => rfl, fun _ => rfl, .refl _⟩
    exact hstamp.trans (speaks_sendKeepalive _ s)

theorem echoKeepalive_fields (n : Node) (s : Slot) :
    (n.echoKeepalive s).sessions = n.sessions := by
  unfold echoKeepalive
  split_ifs <;> rfl

/-- Except to PC/Flexnet the echo stands behind its gap. -/
theorem settles_echoKeepalive (n : Node) (hfamily : (n.sessions s).flexPeerIsPcf = false) :
    n.Settles s (n.echoKeepalive s) := by
  have hspeaks := n.speaks_echoKeepalive s
  have hsession := n.echoKeepalive_fields s
  by_cases hgap : n.now - n.kaEchoAt s < kaEchoGap
  · have hnone : n.echoKeepalive s = n := by
      unfold echoKeepalive
      rw [if_pos (by simp [hfamily, hgap])]
    rw [hnone]
    exact .refl n s
  · have hstamp : (n.echoKeepalive s).kaEchoAt s = n.now := by
      unfold echoKeepalive
      rw [if_neg (by simp [hgap])]
      exact Function.update_self ..
    have hshut : ¬ (n.echoKeepalive s).Open s .echo := by
      simp only [Open, hstamp, hspeaks.now, kaEchoGap]
      omega
    refine ⟨hspeaks, open_of_open hspeaks.now (.inl (by rw [hsession])) (.inl (by rw [hsession]))
      (.inl (by rw [hsession])) (.inr hshut) (.inl (by rw [hsession])), .inr ⟨.echo, ?_, hshut⟩⟩
    exact not_lt.mp hgap

/-- A link time is sent once an interval. -/
theorem settles_flexSendLinkTime (n : Node) (s : Slot) (hnow : 0 < n.now) :
    n.Settles s (n.flexSendLinkTime s) := by
  unfold flexSendLinkTime
  dsimp only
  split_ifs with hrate
  · exact .refl n s
  · set value := flexWireLtValue (n.sessions s).flexPeerIsPcf (n.sessions s).ltSampleCount
      (n.sessions s).ourLinkTime
    set m := (n.flexSendFrame s pidCE ([0x31] ++ decimalInt value ++ [0x0D])).setSession s
      { n.sessions s with lastLtTx := n.now, ltTxTick := n.ticks, ltTxPending := true }
    have hstake : stake ([0x31] ++ decimalInt value ++ [0x0D]) = 0 := by
      simp only [List.cons_append, List.nil_append]
      exact stake_of_head (by decide) (by decide) (by decide) (by simp [requestToken])
    have hspeaks : n.Speaks s m :=
      (n.speaks_flexSendFrame s hstake).trans (speaks_setSession _ rfl rfl)
    have hsession : m.sessions s =
        { n.sessions s with lastLtTx := n.now, ltTxTick := n.ticks, ltTxPending := true } :=
      setSession_sessions_self _ s _
    have hshut : ¬ m.Open s .linkTime := by
      simp only [Open, hsession, hspeaks.now]
      omega
    refine ⟨hspeaks, open_of_open hspeaks.now (.inl (by rw [hsession])) (.inl (by rw [hsession]))
      (.inl (by rw [hsession])) (.inl rfl) (.inr hshut), .inr ⟨.linkTime, ?_, hshut⟩⟩
    have hinterval : 20 ≤ ltInterval (n.sessions s) := by
      unfold ltInterval
      split_ifs
      · norm_num
      · exact le_rfl
    simp only [Open]
    omega

/-! ## One frame -/

theorem settles_handleInit (n : Node) (s : Slot) (data : CStr) (hnow : 0 < n.now) :
    n.Settles s (n.handleInit s data) := by
  set heard : Node := n.setSession s
    { n.sessions s with gotPeerInit := true, peerMaxSsid := initSsid data }
  have hheard : n.Settles s heard := n.settles_setSession rfl rfl rfl rfl (.inl rfl) rfl
  set entered : Node := heard.flexAddNeighbourEntry s
  have hentered : heard.Settles s entered := settles_flexAddNeighbourEntry heard s
  set m : Node := entered.inferFamily s data.length
  have hm : n.Settles s m :=
    (hheard.trans hentered).trans (settles_inferFamily entered s data.length)
  change n.Settles s ((if flexReinitAnswer (n.sessions s).flexIsEstablished
    (n.sessions s).lastInitTx n.now then m.answerReinit s else m).seedIfUnsent s)
  split_ifs with hreinit
  · -- the handshake state is the one before this INIT
    have hinit : (m.sessions s).lastInitTx = (n.sessions s).lastInitTx := by
      have hfamily : (m.sessions s).lastInitTx = (entered.sessions s).lastInitTx := by
        simp only [m, inferFamily]
        split_ifs <;> simp [sendKeepalive, flexSendFrame]
      rw [hfamily, flexAddNeighbourEntry_sessions, setSession_sessions_self]
    refine hm.trans (m.settles_answerReinit (hm.now ▸ hnow) ?_)
    simp only [flexReinitAnswer, Bool.and_eq_true, decide_eq_true_eq] at hreinit
    simp only [Open, hinit, hm.now]
    exact hreinit.2
  · exact hm.trans (settles_seedIfUnsent m s)

theorem length_flexBuildKeepalive : flexBuildKeepalive.length = 241 := by
  rw [flexBuildKeepalive, List.length_cons, List.length_replicate]

theorem last_flexBuildKeepalive : flexBuildKeepalive.getD (241 - 1) 0 = 0x20 := by
  rw [flexBuildKeepalive, List.getD_cons_succ, List.getD_eq_getElem?_getD,
    List.getElem?_replicate_of_lt (by omega), Option.getD_some]

/-- What a keepalive is answered with, once its shape is noted. -/
theorem handleKeepalive_speaks (n : Node) (s : Slot) (data : CStr) (hnow : 0 < n.now) :
    n.Speaks s (n.handleKeepalive s data) ∧
      (data = flexBuildKeepalive → n.Settles s (n.handleKeepalive s data)) := by
  unfold handleKeepalive
  extract_lets _ n₁ n₂ n₃ n₄ _
  have hnoted : n.Settles s n₂ := by
    refine .trans ?_ ((settles_flexNotePeerEstablished n₁ s).trans (settles_noteKeepalive _ s data))
    exact n.settles_setSession rfl rfl rfl rfl (.inl rfl) rfl
  have hseeded : n₃.Settles s n₄ := by
    simp only [n₄]
    split_ifs
    · exact settles_seedIfUnsent n₃ s
    · exact .refl n₃ s
  have hlast : n₄.Settles s (n₄.setSession s { n₄.sessions s with lastKeepalive := n₄.now }) :=
    settles_setSession n₄ rfl rfl rfl rfl (.inl rfl) rfl
  have hechoed := n₂.speaks_echoKeepalive s
  have hlinkTime : (n₂.echoKeepalive s).Settles s n₃ :=
    settles_flexSendLinkTime _ s (by rw [hechoed.now, hnoted.now]; exact hnow)
  have hafter := hlinkTime.trans (hseeded.trans hlast)
  refine ⟨hnoted.toSpeaks.trans (hechoed.trans hafter.toSpeaks), fun hdata => ?_⟩
  -- 241 octets that end in a space are (X)Net's
  have hfamily : (n₂.sessions s).flexPeerIsPcf = false := by
    simp only [n₂, noteKeepalive, hdata, length_flexBuildKeepalive, last_flexBuildKeepalive]
    rw [if_pos (by omega), setSession_sessions_self]
    rfl
  exact hnoted.trans ((n₂.settles_echoKeepalive hfamily).trans hafter)

theorem settles_handleLinkTime (n : Node) (s : Slot) (data : CStr) (hnow : 0 < n.now) :
    n.Settles s (n.handleLinkTime s data) := by
  have hnoted := ((n.settles_flexNotePeerEstablished s).trans
    (settles_flexLinkTimeSample _ s)).trans (settles_noteLinkTime _ s data)
  exact hnoted.trans (settles_flexSendLinkTime _ s (by rw [hnoted.now]; exact hnow))

theorem speaks_handleStatusPos (n : Node) (s : Slot) : n.Speaks s (n.handleStatusPos s) := by
  unfold handleStatusPos
  extract_lets n₁ x n₂ n₃ n₄
  have hreleased : n₁.Speaks s n₂ := by
    simp only [n₂]
    split_ifs
    · exact n₁.speaks_setPeer (.of_eq rfl)
    · exact .refl n₁ s
  have hanswered : n₃.Speaks s n₄ := by
    simp only [n₄]
    split_ifs
    · refine (n₃.speaks_walk s false true).trans (.trans ?_ (speaks_drain _ s))
      exact speaks_setPeer _ (.of_eq rfl)
    · exact .refl n₃ s
  refine (n.settles_flexNotePeerEstablished s).toSpeaks.trans (hreleased.trans ?_)
  refine (n₂.speaks_flexSendOwnRoutes s _).trans (hanswered.trans ?_)
  exact speaks_setSession n₄ rfl rfl

theorem settles_handleCompact (n : Node) (s : Slot) (data : CStr) :
    n.Settles s (n.handleCompact s data) := by
  unfold handleCompact
  have hestablished := n.settles_flexNotePeerEstablished s
  generalize n.flexNotePeerEstablished s = m at hestablished
  generalize flexParseCompactRecords data 64 = records
  induction records generalizing m with
  | nil => exact hestablished
  | cons r records ih => exact ih _ (hestablished.trans (settles_flexDtableMerge m r s))

theorem statusFrame_cases {data : CStr} {t : FrameType} (h : statusFrame data = some t) :
    t = .statusPos ∧ data = requestToken ∨ t = .statusNeg ∨ t = .status10 ∨ t = .status1n := by
  unfold statusFrame at h
  split at h
  · split_ifs at h with hpos
    · cases h
      rw [hpos.1, hpos.2]
      exact .inl ⟨rfl, rfl⟩
    · cases h
      exact .inr (.inl rfl)
    · cases h
      exact .inr (.inr (.inl rfl))
    · cases h
      exact .inr (.inr (.inr rfl))
  · cases h

/-- The octets the types that have a stake are told by. -/
theorem flexParseCeFrame_octets {lt3byte : Bool} {data : CStr} {t : FrameType}
    (h : flexParseCeFrame lt3byte data = some t) :
    (t = .keepalive → data.head? = some 0x32) ∧ (t = .statusPos → data = requestToken) ∧
      (t = .pathReq → data.head? = some 0x36) ∧ (t = .pathRep → data.head? = some 0x37) ∧
      (t = .token → data.head? = some 0x34) := by
  cases data with
  | nil => cases h
  | cons c rest =>
      unfold flexParseCeFrame at h
      dsimp only at h
      by_cases hkeepalive : c = 0x32 ∧ rest.head? = some 0x20
      · rw [if_pos hkeepalive] at h
        cases h
        exact ⟨fun _ => by rw [hkeepalive.1]; rfl, nofun, nofun, nofun, nofun⟩
      rw [if_neg hkeepalive] at h
      split at h
      · cases h
        exact ⟨nofun, nofun, nofun, nofun, nofun⟩
      split at h
      · rename_i t' hstatus
        cases h
        rcases statusFrame_cases hstatus with ⟨rfl, hdata⟩ | rfl | rfl | rfl
        · exact ⟨nofun, fun _ => hdata, nofun, nofun, nofun⟩
        · exact ⟨nofun, nofun, nofun, nofun, nofun⟩
        · exact ⟨nofun, nofun, nofun, nofun, nofun⟩
        · exact ⟨nofun, nofun, nofun, nofun, nofun⟩
      · split_ifs at h with hinit hlt htoken hreq hrep hcompact <;> cases h
        · exact ⟨nofun, nofun, nofun, nofun, nofun⟩
        · exact ⟨nofun, nofun, nofun, nofun, nofun⟩
        · exact ⟨nofun, nofun, nofun, nofun, fun _ => congrArg some htoken.1⟩
        · exact ⟨nofun, nofun, fun _ => congrArg some hreq, nofun, nofun⟩
        · exact ⟨nofun, nofun, nofun, fun _ => congrArg some hrep, nofun⟩
        · exact ⟨nofun, nofun, nofun, nofun, nofun⟩

/-- Any frame but a token is answered with frames that have no stake, and a frame without a stake
only through a gate. -/
theorem handleFrame_speaks (n : Node) (s : Slot) (data : CStr) (hnow : 0 < n.now)
    (htoken : flexParseCeFrame n.cfg.lt3byte data ≠ some .token) :
    n.Speaks s (n.handleFrame s data) ∧ (stake data = 0 → n.Settles s (n.handleFrame s data)) := by
  have hsettles : ∀ m, n.Settles s m → n.Speaks s m ∧ (stake data = 0 → n.Settles s m) :=
    fun m hm => ⟨hm.toSpeaks, fun _ => hm⟩
  unfold handleFrame
  split
  · exact hsettles _ (n.settles_handleInit s data hnow)
  · rename_i hparse
    refine ⟨(n.handleKeepalive_speaks s data hnow).1, fun hstake =>
      (n.handleKeepalive_speaks s data hnow).2 ?_⟩
    have hhead := (flexParseCeFrame_octets hparse).1 rfl
    by_contra hshape
    simp [stake, hhead, hshape] at hstake
  · exact hsettles _ (n.settles_handleLinkTime s data hnow)
  · rename_i hparse
    exact absurd hparse htoken
  · rename_i hparse
    refine ⟨n.speaks_handleStatusPos s, fun hstake => ?_⟩
    rw [(flexParseCeFrame_octets hparse).2.1 rfl] at hstake
    exact absurd hstake (by decide)
  · exact hsettles _ (n.settles_handleCompact s data)
  · exact hsettles _ (.refl n s)

end Node

end FlexNet
