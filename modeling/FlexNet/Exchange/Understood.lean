import FlexNet.Exchange.Inits
import FlexNet.Path.OwnAnswers
import FlexNet.Setup.InitRange

/-!
# What we build is understood

Every CE frame this code builds is taken by `flex_parse_ce_frame` for what it is, and its receiver
gets out of it what was put in.  The exception is a link time of one digit: `1n` and a carriage
return is a status frame unless `FLEXNETLT3BYTE` is on (`ce_frames_understood`).
-/

namespace FlexNet

/-- `flex_build_link_time`. -/
def flexBuildLinkTime (value : ℤ) : CStr := [0x31] ++ decimalInt value ++ [0x0D]

/-! ## The classifier -/

/-- A frame of more than three octets is no status frame. -/
theorem statusFrame_long {data : CStr} (h : 3 < data.length) :
    shortLinkTime data = false ∧ statusFrame data = none := by
  constructor
  · unfold shortLinkTime
    split
    · simp at h
    · rfl
  · unfold statusFrame
    split
    · simp at h
    · rfl

/-! ## Link times -/

theorem flexWireLtValue_bounds (pcf : Bool) (samples : UInt32) (ourLt : ℤ) :
    1 ≤ Node.flexWireLtValue pcf samples ourLt ∧ Node.flexWireLtValue pcf samples ourLt ≤ 4095 := by
  unfold Node.flexWireLtValue Node.wireLt
  split_ifs <;> omega

/-- A link time is read as one, but for a single digit where `FLEXNETLT3BYTE` is off. -/
theorem frameType_linkTime {lt3byte : Bool} {value : ℤ} (hpos : 1 ≤ value) :
    flexParseCeFrame lt3byte (flexBuildLinkTime value) =
      some (if lt3byte = true ∨ 10 ≤ value then .linkTime else .status1n) := by
  by_cases hsmall : value < 10
  · interval_cases value <;> cases lt3byte <;> decide
  · have htwo : 1 < (decimalInt value).length := by
      rw [decimalInt_of_nonneg (by omega)]
      unfold decimal
      rw [if_neg (by omega), List.length_map, List.length_reverse]
      by_contra hone
      have hlt := (Nat.digits_length_le_iff (by norm_num) value.toNat).mp (not_lt.mp hone)
      omega
    have hlong : 3 < (flexBuildLinkTime value).length := by
      simp only [flexBuildLinkTime, List.length_append, List.length_singleton]
      omega
    obtain ⟨hshort, hstatus⟩ := statusFrame_long hlong
    rw [if_pos (.inr (not_lt.mp hsmall))]
    have hcons : flexBuildLinkTime value = 0x31 :: (decimalInt value ++ [0x0D]) := rfl
    rw [hcons] at hlong hshort hstatus ⊢
    unfold flexParseCeFrame
    dsimp only
    rw [if_neg (by simp), hshort, Bool.and_false, if_neg (by simp), hstatus]
    dsimp only
    rw [if_neg (by simp), if_pos ⟨rfl, hlong⟩]

/-- The receiver reads the value that was sent. -/
theorem digits_linkTime {value : ℤ} (hpos : 1 ≤ value) (hle : value ≤ 4095) :
    (((flexBuildLinkTime value).drop 1).take 14).takeWhile isDigit = decimal value.toNat := by
  have hshort : (decimal value.toNat).length ≤ 4 := length_decimal_le (by norm_num) (by omega)
  have hdrop : (flexBuildLinkTime value).drop 1 = decimal value.toNat ++ [0x0D] := by
    rw [flexBuildLinkTime, decimalInt_of_nonneg (by omega)]
    rfl
  rw [hdrop, List.take_of_length_le
    (by simp only [List.length_append, List.length_singleton]; omega),
    List.takeWhile_append_of_pos fun b hb => isDigit_of_mem_decimal hb]
  exact List.append_nil _

/-! ## Records -/

/-- A frame of packed records has them all. -/
theorem flexBuildOwnFrame_some {buflen : ℕ} {base : CStr} {lo hi : ℤ} {locals : List LocalCall}
    {frame : CStr} (h : flexBuildOwnFrame buflen base lo hi locals = some frame) :
    ∃ rs, rs ≠ [] ∧ frame = recordsFrame rs := by
  have hpacked : ∀ (keys : List Key) (body out : CStr),
      keys.foldlM (fun body k => (flexBuildRouteRec (buflen - body.length - 1) k 1).map (body ++ ·))
        body = some out → out = body ++ recordsOctets (keys.map fun k => (k, 1)) := by
    intro keys
    induction keys with
    | nil =>
        intro body out hfold
        rw [List.foldlM_nil] at hfold
        cases hfold
        simp [recordsOctets]
    | cons k keys ih =>
        intro body out hfold
        rw [List.foldlM_cons] at hfold
        obtain ⟨next, hnext, hfold⟩ := Option.bind_eq_some_iff.mp hfold
        obtain ⟨octets, hrec, rfl⟩ := Option.map_eq_some_iff.mp hnext
        unfold flexBuildRouteRec at hrec
        split_ifs at hrec
        cases hrec
        rw [ih _ out hfold]
        simp [recordsOctets]
  unfold flexBuildOwnFrame at h
  dsimp only at h
  split_ifs at h
  obtain ⟨body, hbody, rfl⟩ := Option.map_eq_some_iff.mp h
  refine ⟨_, ?_, by rw [hpacked _ _ _ hbody]; rfl⟩
  simp

/-- What an event a drain puts on the wire can be. -/
def DrainEvent (ev : WireEvent) : Prop :=
  (∃ rs, rs ≠ [] ∧ ev = .frame pidCE (recordsFrame rs)) ∨ ev = .frame pidCE releaseToken

/-- The frame loop puts frames of records on the wire. -/
theorem Env.drainFrames_events (e : Env) (p : Slot) (isPcf : Bool) (turns : ℕ) {x : Peer}
    (hs : x.adv.Sound) :
    ∃ gained, (e.drainFrames p isPcf turns x).1.wire = x.wire ++ gained ∧
      ∀ ev ∈ gained, DrainEvent ev := by
  have hnone : ∀ y : Peer, ∃ gained, y.wire = y.wire ++ gained ∧ ∀ ev ∈ gained, DrainEvent ev :=
    fun y => ⟨[], (List.append_nil _).symm, fun _ hev => absurd hev List.not_mem_nil⟩
  induction turns generalizing x with
  | zero => exact hnone x
  | succ turns ih =>
      unfold drainFrames
      rcases e.emitFrame_cases p isPcf hs with ⟨-, hidle⟩ | ⟨picks, st, hne, -, hpacked, hsent⟩
      · rw [hidle]
        exact hnone x
      · rw [hsent]
        dsimp only
        have hwire : ∀ y : Peer, y.wire = x.wire → y.adv.Sound →
            let z := e.flexSendFrame p pidCE (recordsFrame (pickRecords picks)) y
            z.adv.Sound ∧ (z.wire = x.wire ++ [.frame pidCE (recordsFrame (pickRecords picks))] ∨
              z.wire = x.wire) := by
          intro y hy hsound
          refine ⟨hsound, ?_⟩
          unfold flexSendFrame
          dsimp only
          split_ifs
          · exact .inl (by rw [hy])
          · exact .inr hy
        obtain ⟨hsound, hgain⟩ := hwire { x with adv := { st with tokens := st.tokens - 1 } } rfl
          (hpacked.sound.congr rfl)
        obtain ⟨rest, hrest, hevents⟩ := ih hsound
        rcases hgain with hgain | hgain
        · refine ⟨.frame pidCE (recordsFrame (pickRecords picks)) :: rest, ?_, ?_⟩
          · rw [hrest, hgain, List.append_assoc]
            rfl
          · intro ev hev
            rcases List.mem_cons.mp hev with rfl | hev
            · exact .inl ⟨_, by simpa [pickRecords] using hne, rfl⟩
            · exact hevents ev hev
        · exact ⟨rest, hrest.trans (by rw [hgain]), hevents⟩

/-- What a drain puts on the wire: frames of records, and perhaps the `'3-'` it owed. -/
theorem Env.drain_events (e : Env) (p : Slot) {x : Peer} (hs : x.adv.Sound) :
    ∃ gained, (e.flexAdvertiseDrain p x).wire = x.wire ++ gained ∧
      ∀ ev ∈ gained, DrainEvent ev := by
  have hnone : ∃ gained, x.wire = x.wire ++ gained ∧ ∀ ev ∈ gained, DrainEvent ev :=
    ⟨[], by simp, fun _ hev => absurd hev List.not_mem_nil⟩
  unfold flexAdvertiseDrain
  split_ifs
  · exact hnone
  · exact hnone
  · dsimp only
    set isPcf := (e.sessions p).flexPeerIsPcf
    set z : Peer := { x with adv := x.adv.refill isPcf e.now } with hz
    have hsound : z.adv.Sound := hs.congr AdvertisedState.advs_refill
    obtain ⟨gained, hwire, hevents⟩ := e.drainFrames_events p isPcf
      (if e.cfg.recordsAllowed z = true then z.adv.tokens.floor.toNat else 0) hsound
    generalize e.drainFrames p isPcf _ z = r at hwire ⊢
    obtain ⟨y, frames⟩ := r
    rcases View.drainEob_wire e isPcf frames y with hend | hend
    · exact ⟨gained, hend.trans hwire, hevents⟩
    · refine ⟨gained ++ [.frame pidCE releaseToken], ?_, ?_⟩
      · rw [hend, hwire, List.append_assoc]
      · intro ev hev
        rcases List.mem_append.mp hev with hev | hev
        · exact hevents ev hev
        · exact .inr (List.mem_singleton.mp hev)

/-- The frames of a drain are records that were on the queue, side by side. -/
theorem drain_frame {e : Env} {p : Slot} {x : Peer} {gained : List WireEvent} {frame : CStr}
    (hs : x.adv.Sound) (hq : ∀ a ∈ x.adv.queue, a.key.Encodable)
    (hwire : (e.flexAdvertiseDrain p x).wire = x.wire ++ gained)
    (hframe : .frame pidCE frame ∈ gained) (hdata : frame ≠ releaseToken) :
    ∃ g, g <:+: x.adv.queue ∧ FrameOf g ∧ frame = recordsFrame (pickRecords g) := by
  have hcarry : Carriable x.adv.queue := fun a ha => by
    obtain ⟨hmem, hpending⟩ := AdvertisedState.mem_queue.mp ha
    exact ⟨hq a ha, (hs.entries a hmem).queued hpending⟩
  obtain ⟨packed, sent, y, h, -, hend⟩ := e.drain_queue p hs.distinct hcarry
  have hmem : WireEvent.frame pidCE frame ∈ groupFrames sent := by
    rw [hwire, h.wire] at hend
    rcases hend with hend | hend
    · exact List.append_cancel_left hend ▸ hframe
    · rw [List.append_assoc] at hend
      rw [List.append_cancel_left hend] at hframe
      rcases List.mem_append.mp hframe with hsent | htoken
      · exact hsent
      · rw [List.mem_singleton, WireEvent.frame.injEq] at htoken
        exact absurd htoken.2 hdata
  obtain ⟨g, hg, heq⟩ := List.mem_map.mp hmem
  rw [WireEvent.frame.injEq] at heq
  have hpacked : g ∈ packed := h.sublist.mem hg
  refine ⟨g, ?_, h.frames g hpacked, heq.2.symm⟩
  obtain ⟨before, after, rfl⟩ := List.append_of_mem hpacked
  refine ⟨before.flatten, after.flatten ++ y.adv.queue, ?_⟩
  rw [h.queue]
  simp

/-! ## What the senders build -/

/-- The frames of the senders of this code, and what each is. -/
inductive Built : CStr → FrameType → Prop
  | init (max : ℤ) : Built (flexBuildInit max) .init
  | keepalive : Built flexBuildKeepalive .keepalive
  | linkTime (pcf : Bool) (samples : UInt32) (ourLt : ℤ) :
      Built (flexBuildLinkTime (Node.flexWireLtValue pcf samples ourLt)) .linkTime
  | ownFrame {buflen : ℕ} {base : CStr} {lo hi : ℤ} {locals : List LocalCall} {frame : CStr}
      (hframe : flexBuildOwnFrame buflen base lo hi locals = some frame) : Built frame .compact
  | drain {e : Env} {p : Slot} {x : Peer} {gained : List WireEvent} {frame : CStr}
      (hsound : x.adv.Sound) (hwire : (e.flexAdvertiseDrain p x).wire = x.wire ++ gained)
      (hframe : .frame pidCE frame ∈ gained) (hdata : frame ≠ releaseToken) : Built frame .compact
  | pathReq {buflen : ℕ} {qso : ℤ} {trace : Bool} {origin next target frame : CStr}
      (hframe : flexBuildPathReq buflen qso trace origin next target = some frame) :
      Built frame .pathReq
  | forwarded {next target data frame : CStr} {f : PathFrame} (hrequest : data.head? = some 0x36)
      (hframe : PathNode.forwardedFrame next target f data = some frame) : Built frame .pathReq
  | pathRep {buflen : ℕ} {qso : ℤ} {trace : Bool} {hops : List CStr} {frame : CStr}
      (hframe : flexBuildPathRep buflen qso trace hops = some frame) : Built frame .pathRep

/-- A link time a receiver without `FLEXNETLT3BYTE` takes for a status frame. -/
def OneDigit (frame : CStr) : Prop :=
  ∃ value : ℤ, 1 ≤ value ∧ value < 10 ∧ frame = flexBuildLinkTime value

/-- Frames are taken for what they are, but for link times of one digit. -/
theorem Built.frameType {frame : CStr} {type : FrameType} {lt3byte : Bool} (h : Built frame type)
    (hdigit : lt3byte = true ∨ ¬ OneDigit frame) : flexParseCeFrame lt3byte frame = some type := by
  cases h with
  | init => cases lt3byte <;> rfl
  | keepalive => rfl
  | linkTime pcf samples ourLt =>
      obtain ⟨hpos, -⟩ := flexWireLtValue_bounds pcf samples ourLt
      rw [frameType_linkTime hpos, if_pos]
      refine hdigit.imp_right fun hlong => ?_
      by_contra hsmall
      exact hlong ⟨_, hpos, not_le.mp hsmall, rfl⟩
  | ownFrame hframe =>
      obtain ⟨rs, hne, rfl⟩ := flexBuildOwnFrame_some hframe
      exact frameType_recordsFrame hne
  | @drain e p x gained frame hsound hwire hframe hdata =>
      obtain ⟨gained', hwire', hevents⟩ := e.drain_events p hsound
      rw [List.append_cancel_left (hwire.symm.trans hwire')] at hframe
      rcases hevents _ hframe with ⟨rs, hne, heq⟩ | heq
      · rw [WireEvent.frame.injEq] at heq
        rw [heq.2]
        exact frameType_recordsFrame hne
      · rw [WireEvent.frame.injEq] at heq
        exact absurd heq.2 hdata
  | pathReq hframe =>
      rw [flexBuildPathReq_some hframe]
      exact frameType_path.1 rfl
  | forwarded hrequest hframe =>
      exact frameType_path.1 (PathNode.head_forwardedFrame hrequest hframe)
  | pathRep hframe =>
      unfold flexBuildPathRep at hframe
      split_ifs at hframe
      exact frameType_path.2 (head_appendCalls rfl hframe)

/-! ## What the receiver makes of them -/

/-- The link-time filter of a session: how many round trips it has had, their smoothed length, and
the link time that comes of it. -/
def Session.filter (x : Session) : UInt32 × UInt32 × ℤ :=
  (x.ltSampleCount, x.ltSmoothed10ms, x.ourLinkTime)

/-- A round trip folded into the filter. -/
def Session.folded (x : Session) (sample : UInt32) : UInt32 × UInt32 × ℤ :=
  let smoothed := if x.ltSampleCount == 0 then sample else (x.ltSmoothed10ms * 3 + sample) / 4
  let wire := (smoothed + 5) / 10
  (x.ltSampleCount + 1, smoothed,
    (if wire < 1 then 1 else if 4095 < wire then 4095 else wire : UInt32).toNat)

namespace Node

variable {n m : Node} {s : Slot} {l : LinkId}

theorem OnlyPeers.sessions_ticks (h : n.OnlyPeers m) :
    m.sessions = n.sessions ∧ m.ticks = n.ticks := by
  unfold OnlyPeers at h
  rw [h]
  exact ⟨rfl, rfl⟩

theorem flexDtableMerge_ticks (n : Node) (r : Record) (s : Slot) :
    (n.flexDtableMerge r s).ticks = n.ticks := by
  obtain ⟨dests, h | ⟨dests', h⟩⟩ := n.flexDtableMerge_cases r s <;> rw [h]
  exact (onlyPeers_flexLearnedAdd ({ n with dests := dests } : Node) s r).sessions_ticks.2

theorem flexAddNeighbourEntry_ticks (n : Node) (s : Slot) :
    (n.flexAddNeighbourEntry s).ticks = n.ticks := by
  unfold flexAddNeighbourEntry
  dsimp only
  split_ifs
  · rfl
  · rfl
  · unfold flagDirect
    split
    · exact flexDtableMerge_ticks _ _ s
    · exact flexDtableMerge_ticks _ _ s
  · exact flexDtableMerge_ticks _ _ s

/-- A session that is established by traffic keeps its filter. -/
theorem flexNotePeerEstablished_kept (n : Node) (s : Slot) :
    (∃ b, (n.flexNotePeerEstablished s).sessions s =
      { n.sessions s with flexEstInferred := b }) ∧
      (n.flexNotePeerEstablished s).ticks = n.ticks := by
  constructor
  · rcases flexNotePeerEstablished_sessions n s with h | h <;> rw [h]
    · exact ⟨_, rfl⟩
    · exact ⟨true, setSession_sessions_self n s _⟩
  · unfold flexNotePeerEstablished
    dsimp only
    split
    · rfl
    split
    · rfl
    split
    · rfl
    · exact flexAddNeighbourEntry_ticks _ s

/-- An INIT leaves the SSID it declares. -/
theorem handleInit_peerMaxSsid (n : Node) (s : Slot) (data : CStr) :
    ((n.handleInit s data).sessions s).peerMaxSsid = initSsid data := by
  have hheard : ((n.heardInit s data).sessions s).peerMaxSsid = initSsid data := by
    unfold heardInit
    set declared := n.setSession s
      { n.sessions s with gotPeerInit := true, peerMaxSsid := initSsid data }
    have hentered :
        ((declared.flexAddNeighbourEntry s).sessions s).peerMaxSsid = initSsid data := by
      rw [flexAddNeighbourEntry_sessions]
      exact congrArg Session.peerMaxSsid (setSession_sessions_self n s _)
    have hinferred : ∀ m : Node, ((m.inferFamily s data.length).sessions s).peerMaxSsid =
        (m.sessions s).peerMaxSsid := fun m => by
      unfold inferFamily
      dsimp only
      split_ifs
      · rfl
      · simp [sendKeepalive, flexSendFrame]
      · simp
    exact (hinferred _).trans hentered
  rw [handleInit_eq, (seedIfUnsent_fields _ s).1]
  split_ifs
  · refine Eq.trans ?_ hheard
    simp [answerReinit, clearAdvertised, flexSendInit, sendKeepalive, flexSendFrame]
  · exact hheard

/-- The link time that moved is the peers' business. -/
theorem linkTimeMoved_sessions (n : Node) (s : Slot) :
    (n.linkTimeMoved s).sessions = n.sessions := by
  unfold linkTimeMoved
  dsimp only
  split_ifs
  · rfl
  · rfl
  · exact (onlyPeers_triggerPeersAll _ s _).sessions_ticks.1

/-- The answer to a link time of ours is folded into the filter, unless it comes within the tick or
later than a minute. -/
theorem flexLinkTimeSample_filter (n : Node) (s : Slot) :
    ((n.flexLinkTimeSample s).sessions s).filter =
      if (n.sessions s).ltTxPending = true ∧ n.ticks - (n.sessions s).ltTxTick ≠ 0 ∧
          n.ticks - (n.sessions s).ltTxTick ≤ 6000 then
        (n.sessions s).folded (n.ticks - (n.sessions s).ltTxTick)
      else (n.sessions s).filter := by
  unfold flexLinkTimeSample
  dsimp only
  by_cases hpending : (n.sessions s).ltTxPending = true
  swap
  · rw [if_pos (by simp [hpending]), if_neg fun h => hpending h.1]
  rw [if_neg (by simp [hpending])]
  by_cases hrange : (n.ticks - (n.sessions s).ltTxTick == 0 ||
      decide (6000 < n.ticks - (n.sessions s).ltTxTick)) = true
  · rw [if_pos hrange, if_neg, setSession_sessions_self]
    · rfl
    · rintro ⟨-, hne, hle⟩
      rw [Bool.or_eq_true, beq_iff_eq, decide_eq_true_eq] at hrange
      rcases hrange with heq | hlt
      · exact hne heq
      · exact absurd hle (UInt32.not_le.mpr hlt)
  · have hcond : (n.sessions s).ltTxPending = true ∧ n.ticks - (n.sessions s).ltTxTick ≠ 0 ∧
        n.ticks - (n.sessions s).ltTxTick ≤ 6000 := by
      rw [Bool.or_eq_true, beq_iff_eq, decide_eq_true_eq, not_or] at hrange
      exact ⟨hpending, hrange.1, UInt32.not_lt.mp hrange.2⟩
    have hmoved : ∀ (m : Node) (c : Bool),
        (if c then m.linkTimeMoved s else m).sessions = m.sessions := fun m c => by
      cases c
      · rfl
      · exact m.linkTimeMoved_sessions s
    rw [if_neg hrange, if_pos hcond, hmoved, setSession_sessions_self]
    rfl

/-- A link time leaves its value, and is folded. -/
theorem handleLinkTime_kept (n : Node) (s : Slot) {value : ℤ} (hpos : 1 ≤ value)
    (hle : value ≤ 4095) :
    ((n.handleLinkTime s (flexBuildLinkTime value)).sessions s).peerLinkTime = value ∧
      ((n.handleLinkTime s (flexBuildLinkTime value)).sessions s).filter =
        if (n.sessions s).ltTxPending = true ∧ n.ticks - (n.sessions s).ltTxTick ≠ 0 ∧
            n.ticks - (n.sessions s).ltTxTick ≤ 6000 then
          (n.sessions s).folded (n.ticks - (n.sessions s).ltTxTick)
        else (n.sessions s).filter := by
  obtain ⟨⟨b, hsession⟩, hticks⟩ := n.flexNotePeerEstablished_kept s
  have hsample := (n.flexNotePeerEstablished s).flexLinkTimeSample_filter s
  rw [hsession, hticks] at hsample
  unfold handleLinkTime
  generalize (n.flexNotePeerEstablished s).flexLinkTimeSample s = m at hsample ⊢
  have hnoted : ((m.noteLinkTime s (flexBuildLinkTime value)).sessions s).peerLinkTime = value ∧
      ((m.noteLinkTime s (flexBuildLinkTime value)).sessions s).filter = (m.sessions s).filter := by
    unfold noteLinkTime
    dsimp only
    rw [digits_linkTime hpos hle, if_neg (by simp [decimal_ne_nil]), setSession_sessions_self,
      digitsValue_decimal]
    exact ⟨Int.toNat_of_nonneg (by omega), rfl⟩
  generalize m.noteLinkTime s (flexBuildLinkTime value) = o at hnoted ⊢
  have hsent : ((o.flexSendLinkTime s).sessions s).peerLinkTime = (o.sessions s).peerLinkTime ∧
      ((o.flexSendLinkTime s).sessions s).filter = (o.sessions s).filter := by
    unfold flexSendLinkTime
    dsimp only
    split_ifs
    · exact ⟨rfl, rfl⟩
    · rw [setSession_sessions_self]
      exact ⟨rfl, rfl⟩
  exact ⟨(congrArg Nat.cast hsent.1).trans hnoted.1, hsent.2.trans (hnoted.2.trans hsample)⟩

/-! ## Understood -/

/-- What comes of the frames of the senders at session `s` of a row. -/
structure Understands (n : Node) (l : LinkId) (s : Slot) : Prop where
  init : ∀ max : ℤ, 0 ≤ max → max ≤ 15 →
    ((n.flexNetProcessCE l (flexBuildInit max)).sessions s).peerMaxSsid = max
  linkTime : ∀ (pcf : Bool) (samples : UInt32) (ourLt : ℤ),
    n.cfg.lt3byte = true ∨ 10 ≤ flexWireLtValue pcf samples ourLt →
    let x :=
      (n.flexNetProcessCE l (flexBuildLinkTime (flexWireLtValue pcf samples ourLt))).sessions s
    x.peerLinkTime = flexWireLtValue pcf samples ourLt ∧
      x.filter =
        if (n.sessions s).ltTxPending = true ∧ n.ticks - (n.sessions s).ltTxTick ≠ 0 ∧
            n.ticks - (n.sessions s).ltTxTick ≤ 6000 then
          (n.sessions s).folded (n.ticks - (n.sessions s).ltTxTick)
        else (n.sessions s).filter
  ownFrame : ∀ (cfg : Config) (base : CStr) (ssid : ℕ) (frame : CStr), cfg.Hosts base ssid →
    cfg.ownFrame = some frame →
    n.flexNetProcessCE l frame = (cfg.ownRecords.map fun k => (⟨k, 1, false⟩ : Record)).foldl
      (fun n r => n.flexDtableMerge r s) (n.flexNotePeerEstablished s)
  drain : ∀ (e : Env) (p : Slot) (x : Peer) (gained : List WireEvent) (frame : CStr), x.adv.Sound →
    (∀ a ∈ x.adv.queue, a.key.Encodable) → (e.flexAdvertiseDrain p x).wire = x.wire ++ gained →
    .frame pidCE frame ∈ gained → frame ≠ releaseToken →
    ∃ g, g ≠ [] ∧ g <:+: x.adv.queue ∧ n.flexNetProcessCE l frame =
      (g.map AdvRoute.carried).foldl (fun n r => n.flexDtableMerge r s)
        (n.flexNotePeerEstablished s)

/-- A frame that is not empty is handled at the session of the row. -/
theorem flexNetProcessCE_eq (hfind : n.flexFindSession l = some s) {data : CStr}
    (hdata : data ≠ []) :
    n.flexNetProcessCE l data = n.handleFrame s data := by
  unfold flexNetProcessCE
  rw [if_neg (by simpa using hdata), hfind]

/-- A frame of records is merged record by record. -/
theorem flexNetProcessCE_records (hfind : n.flexFindSession l = some s) {rs : List (Key × ℤ)}
    (hne : rs ≠ []) :
    n.flexNetProcessCE l (recordsFrame rs) = (flexParseCompactRecords (recordsFrame rs) 64).foldl
      (fun n r => n.flexDtableMerge r s) (n.flexNotePeerEstablished s) := by
  have hcons : recordsFrame rs ≠ [] := List.cons_ne_nil _ _
  rw [flexNetProcessCE_eq hfind hcons, handleFrame, frameType_recordsFrame hne]
  rfl

theorem understands (hfind : n.flexFindSession l = some s) : n.Understands l s where
  init := by
    intro max hlo hhi
    have hcons : flexBuildInit max ≠ [] := List.cons_ne_nil _ _
    have hdigit : ¬ OneDigit (flexBuildInit max) := by
      rintro ⟨value, -, -, heq⟩
      exact absurd (List.head_eq_of_cons_eq heq) (by decide)
    rw [flexNetProcessCE_eq hfind hcons, handleFrame, (Built.init max).frameType (.inr hdigit)]
    dsimp only
    rw [handleInit_peerMaxSsid]
    interval_cases max <;> decide
  linkTime := by
    intro pcf samples ourLt hlong
    obtain ⟨hpos, hle⟩ := flexWireLtValue_bounds pcf samples ourLt
    have hcons : flexBuildLinkTime (flexWireLtValue pcf samples ourLt) ≠ [] :=
      List.cons_ne_nil _ _
    dsimp only
    rw [flexNetProcessCE_eq hfind hcons, handleFrame, frameType_linkTime hpos, if_pos hlong]
    exact handleLinkTime_kept n s hpos hle
  ownFrame := by
    intro cfg base ssid frame hosts hframe
    have hbase : cfg.ownBaseCall.1 ≠ [] := by
      rw [Config.ownBaseCall_names hosts.myCall]
      exact hosts.myCall.isBase.nonempty
    rw [Config.ownFrame_eq hbase hosts.listed, Option.some.injEq] at hframe
    rw [← hframe, flexNetProcessCE_records hfind (by simp [Config.ownRecords]),
      hosts.parse_ownFrame]
  drain := by
    intro e p x gained frame hs hq hwire hframe hdata
    obtain ⟨g, hinfix, hg, rfl⟩ := drain_frame hs hq hwire hframe hdata
    refine ⟨g, hg.nonempty, hinfix, ?_⟩
    rw [flexNetProcessCE_records hfind (by simpa [pickRecords] using hg.nonempty), hg.parse]

end Node

/-- Every frame the senders build is taken for what it is, and its receiver recovers what it says,
unless it is a link time of one digit and the receiver has no `FLEXNETLT3BYTE`. -/
theorem ce_frames_understood (lt3byte : Bool) :
    (∀ frame type, Built frame type → lt3byte = true ∨ ¬ OneDigit frame →
      flexParseCeFrame lt3byte frame = some type) ∧
    ∀ (n : Node) (l : LinkId) (s : Slot), n.flexFindSession l = some s → n.Understands l s :=
  ⟨fun _ _ hbuilt hdigit => hbuilt.frameType hdigit, fun _ _ _ hfind => Node.understands hfind⟩

namespace Bench

/-- With `FLEXNETLT3BYTE` on, the link time 5 is one; the session with `A` understands its
frames. -/
theorem ce_frames_understood_five :
    flexParseCeFrame true (flexBuildLinkTime 5) = some .linkTime ∧
      (node false).Understands 0 slotA := by
  obtain ⟨htype, hunderstood⟩ := ce_frames_understood true
  refine ⟨htype _ _ (.linkTime true 0 0) (.inl rfl), hunderstood _ 0 slotA ?_⟩
  decide +kernel

/-- `A` sent a link time, and got ours in answer. -/
def answeredA : Node := (node false).after [.processCE 0 (flexBuildLinkTime 50)]

set_option maxRecDepth 10000 in
/-- The link time 5 is a status frame to a node with the default settings, and the answer that
comes within the tick is not folded. -/
theorem not_always_understood :
    (¬ ∀ (lt3byte : Bool) (frame : CStr) (type : FrameType), Built frame type →
      flexParseCeFrame lt3byte frame = some type) ∧
    (answeredA.sessions slotA).ltTxPending = true ∧
    ((answeredA.flexNetProcessCE 0 (flexBuildLinkTime 50)).sessions slotA).filter =
      (answeredA.sessions slotA).filter := by
  refine ⟨fun hall => ?_, by decide +kernel, by decide +kernel⟩
  have htype := hall false _ _ (.linkTime true 0 0)
  exact absurd htype (by decide)

end Bench

end FlexNet
