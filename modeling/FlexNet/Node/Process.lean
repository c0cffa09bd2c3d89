import FlexNet.Node.Sessions
import FlexNet.Wire.Frames

/-!
# Received frames and the timer

`FlexNet_ProcessCE` dispatches a CE frame of a link, and `FlexNet_Timer` is called by BPQ's
main loop: it keeps declared links up, polls link options, reaps and migrates sessions, starts
sessions with mapped peers, and serves every session.
-/

namespace FlexNet

/-- `FLEXNET_REINIT_GUARD`. -/
def reinitGuard : ℤ := 60

/-- `flex_reinit_answer`: an INIT on an established session means the peer restarted. -/
def flexReinitAnswer (established : Bool) (lastInitTx now : ℤ) : Bool :=
  established && decide (lastInitTx = 0 ∨ now < lastInitTx ∨ reinitGuard ≤ now - lastInitTx)

/-- `FLEXNET_KA_ECHO_GAP`. -/
def kaEchoGap : ℤ := 60

/-- `FLEXNET_ADVERT_INTERVAL`. -/
def advertInterval : ℤ := 120

/-- `FLEXNET_PROACTIVE_INIT_INTERVAL`. -/
def proactiveInitInterval : ℤ := 30

namespace Node

variable (n : Node)

/-! ## Frame handlers -/

/-- `flex_note_peer_established`: traffic on a connected link stands in for a missed INIT. -/
def flexNotePeerEstablished (s : Slot) : Node :=
  let sess := n.sessions s
  if sess.gotPeerInit || sess.flexEstInferred then n
  else match sess.link with
    | none => n
    | some l =>
      if !(n.links l).flexL2Connected then n
      else (n.setSession s { sess with flexEstInferred := true }).flexAddNeighbourEntry s

/-- The node's own frame, then the full view, to a peer that has not had them. -/
def seedIfUnsent (s : Slot) : Node :=
  if (n.sessions s).sentRoutes then n
  else
    let n := n.flexSendOwnRoutes s false
    (n.setSession s { n.sessions s with sentRoutes := true }).flexAdvertiseSeedPeer s

/-- The answer to an INIT on an established session: the peer's view restarted. -/
def answerReinit (s : Slot) : Node :=
  let n := (n.flexSendInit s).sendKeepalive s
  let n := n.setSession s { n.sessions s with lastKeepalive := n.now, sentRoutes := false }
  let n := n.setPeer s { n.peers s with pcfQuiesced := false, quiescedSince := 0 }
  n.clearAdvertised s

/-- The family of a peer whose keepalive is not known yet, from the length of its INIT. -/
def inferFamily (s : Slot) (len : ℕ) : Node :=
  let sess := n.sessions s
  if sess.peerKaLen ≠ 0 then n
  else if 6 ≤ len then
    (n.setSession s { sess with peerKaLen := 201, peerKaTerm := 0x0D }).sendKeepalive s
  else n.setSession s { sess with peerKaLen := 241, peerKaTerm := 0x20 }

/-- The highest SSID an INIT declares, clamped to `0..15`. -/
def initSsid (data : CStr) : ℤ :=
  match data[1]? with
  | none => 15
  | some b => max 0 (min 15 ((b.toNat : ℤ) - 0x30))

/-- `CE_FRAME_INIT`. -/
def handleInit (s : Slot) (data : CStr) : Node :=
  let sess := n.sessions s
  -- "established" is judged before this INIT
  let reinit := flexReinitAnswer sess.flexIsEstablished sess.lastInitTx n.now
  let n := n.setSession s
    { sess with gotPeerInit := true, peerMaxSsid := initSsid data }
  let n := (n.flexAddNeighbourEntry s).inferFamily s data.length
  (if reinit then n.answerReinit s else n).seedIfUnsent s

/-- The shape of the peer's keepalive. -/
def noteKeepalive (s : Slot) (data : CStr) : Node :=
  if 2 ≤ data.length ∧ data.length ≤ 241 then
    n.setSession s { n.sessions s with
      peerKaLen := data.length
      peerKaTerm := data.getD (data.length - 1) 0 }
  else n

/-- The echo of a keepalive, at most one a gap except to PC/Flexnet
(`flex_ka_should_echo`). -/
def echoKeepalive (s : Slot) : Node :=
  if !(n.sessions s).flexPeerIsPcf && decide (n.now - n.kaEchoAt s < kaEchoGap) then n
  else ({ n with kaEchoAt := Function.update n.kaEchoAt s n.now }).sendKeepalive s

/-- `CE_FRAME_KEEPALIVE`. -/
def handleKeepalive (s : Slot) (data : CStr) : Node :=
  let n := n.setSession s
    { n.sessions s with keepaliveCount := (n.sessions s).keepaliveCount + 1 }
  let n := (n.flexNotePeerEstablished s).noteKeepalive s data
  let n := (n.echoKeepalive s).flexSendLinkTime s
  let n := if (n.sessions s).flexIsEstablished then n.seedIfUnsent s else n
  n.setSession s { n.sessions s with lastKeepalive := n.now }

/-- The link time a peer reports, when the frame has one. -/
def noteLinkTime (s : Slot) (data : CStr) : Node :=
  let digits := ((data.drop 1).take 14).takeWhile isDigit
  if digits.isEmpty then n
  else n.setSession s { n.sessions s with
    peerLinkTime := digitsValue digits
    peerLtCount := (n.sessions s).peerLtCount + 1 }

/-- `CE_FRAME_LINK_TIME`. -/
def handleLinkTime (s : Slot) (data : CStr) : Node :=
  (((n.flexNotePeerEstablished s).flexLinkTimeSample s).noteLinkTime s data).flexSendLinkTime s

/-- The walk that answers a `'3+'`, with the `'3-'` it owes. -/
def answerStatusPos (s : Slot) : Node :=
  let (n, _) := n.flexAdvertiseWalkForPeer s false true
  let n := n.setPeer s
    { n.peers s with adv := { (n.peers s).adv with eobPending := true } }
  n.flexAdvertiseDrain s

/-- `CE_FRAME_STATUS_POS`: the peer asks for the whole table. -/
def handleStatusPos (s : Slot) : Node :=
  let n := n.flexNotePeerEstablished s
  let n :=
    if (n.peers s).pcfQuiesced then
      n.setPeer s { n.peers s with pcfQuiesced := false, quiescedSince := 0 }
    else n
  let n := n.flexSendOwnRoutes s n.cfg.transit
  let n := if n.cfg.transit then n.answerStatusPos s else n
  n.setSession s { n.sessions s with sentRoutes := true }

/-- `CE_FRAME_COMPACT`: every record of the frame is merged in turn. -/
def handleCompact (s : Slot) (data : CStr) : Node :=
  (flexParseCompactRecords data 64).foldl (fun n r => n.flexDtableMerge r s)
    (n.flexNotePeerEstablished s)

/-- The dispatch of `FlexNet_ProcessCE` on the type of the frame.  Path requests and replies go
to the path layer, which has its own tables. -/
def handleFrame (s : Slot) (data : CStr) : Node :=
  match flexParseCeFrame n.cfg.lt3byte data with
  | some .init => n.handleInit s data
  | some .keepalive => n.handleKeepalive s data
  | some .linkTime => n.handleLinkTime s data
  | some .token => n.flexSendFrame s pidCE data
  | some .statusPos => n.handleStatusPos s
  | some .compact => n.handleCompact s data
  | _ => n

/-- `FlexNet_ProcessCE`: `data` is the frame after its PID octet. -/
def flexNetProcessCE (l : LinkId) (data : CStr) : Node :=
  if data.isEmpty then n
  else match n.flexFindSession l with
    | some s => n.handleFrame s data
    | none =>
      let n := n.flexNetInitSession l ((n.links l).port.getD 0)
      match n.flexFindSession l with
      | some s => n.handleFrame s data
      | none => n

/-- The dispatch of a CE frame in `L2Code.c`. -/
def ceReceived (l : LinkId) (port : ℕ) (data : CStr) : Node :=
  let n :=
    if !(n.links l).flexNetLink && n.flexNetIsPeerFlexNetMapped (n.links l).linkCall port then
      n.flexNetInitSession l port
    else n
  if (n.links l).flexNetLink then n.flexNetProcessCE l data else n

/-! ## The link keeper -/

/-- `FindLink` of `Cmd.c`: the row of a pair of calls on a port, or the first spare row. -/
def findLink (linkCall ourCall : AxCall) (port : ℕ) : LinkId ⊕ Option LinkId :=
  match (List.range n.cfg.maxLinks).find? fun li =>
      !(n.links li).linkCall.isEmpty && (n.links li).port == some port &&
        (n.links li).linkCall.same linkCall && (n.links li).ourCall.same ourCall with
  | some li => .inl li
  | none => .inr ((List.range n.cfg.maxLinks).find? fun li => (n.links li).linkCall.isEmpty)

/-- `FLEXNET_PORTLINK_REOPEN`, `FLEXNET_PORTLINK_RETRY`, `FLEXNET_PORTLINK_RETRY_MAX`. -/
def portLinkReopen : ℤ := 10
/-- Seconds after an unanswered run of SABMs. -/
def portLinkRetry : ℤ := 60
/-- The cap of the doubling. -/
def portLinkRetryMax : ℤ := 900

/-- `flex_port_link_open`: the row of a link being opened. -/
def openLink (pl : PortLink) (li : LinkId) : Node :=
  n.setLink li { n.links li with
    port := some pl.port, l2State := 2, linkCall := pl.axcall, ourCall := n.cfg.myCall }

/-- Write one declared link. -/
def setPortLink (i : ℕ) (pl : PortLink) : Node :=
  { n with portLinks := n.portLinks.set i pl }

/-- One declared link's turn of `flex_port_links_keep`. -/
def keepPortLink (i : ℕ) : Node :=
  match n.portLinks[i]? with
  | none => n
  | some pl =>
    if !pl.usable then n
    else match n.findLink pl.axcall n.cfg.myCall pl.port with
      | .inl li =>
        if !(n.links li).flexL2Connected then n
        else
          let n := n.setPortLink i { pl with wasUp := true, backoff := 0 }
          if !(n.links li).flexNetLink && !(n.links li).hasDigis then
            n.flexNetInitSession li pl.port
          else n
      | .inr spare =>
        if pl.wasUp then
          n.setPortLink i { pl with wasUp := false, nextTry := n.now + portLinkReopen }
        else if n.now < pl.nextTry then n
        else match spare with
          | none => n.setPortLink i { pl with nextTry := n.now + portLinkRetry }
          | some li =>
            let backoff := min (if pl.backoff = 0 then portLinkRetry else pl.backoff * 2)
              portLinkRetryMax
            (n.openLink pl li).setPortLink i
              { pl with backoff := backoff, nextTry := n.now + backoff }

/-- `flex_port_links_keep`. -/
def flexPortLinksKeep : Node :=
  if n.portLinks.isEmpty then n
  else if n.now - n.portLinkScanned < 1 then n
  else (List.range n.portLinks.length).foldl keepPortLink { n with portLinkScanned := n.now }

/-! ## The timer -/

/-- The reaper's pass over the sessions. -/
def reapSessions : Node := slots.foldl reapTurn n

/-- A row the proactive scan starts a session on: a connected direct link of the node call to
a mapped peer. -/
def wantsInit (li : LinkId) : Bool :=
  let l := n.links li
  !l.linkCall.isEmpty && l.flexL2Connected && !l.flexNetLink &&
    l.ourCall.call == n.cfg.myCall.call && !l.hasDigis &&
    match l.port with
    | none => false
    | some port => n.flexNetIsPeerFlexNetMapped l.linkCall port

/-- The proactive INIT scan. -/
def proactiveInit : Node :=
  if n.now - n.lastProactiveInitScan < proactiveInitInterval then n
  else (List.range n.cfg.maxLinks).foldl
    (fun n li => if n.wantsInit li then n.flexNetInitSession li ((n.links li).port.getD 0) else n)
    { n with lastProactiveInitScan := n.now }

/-- A keepalive and a link time when the peer's cadence asks for them. -/
def serveKeepalive (s : Slot) : Node :=
  let sess := n.sessions s
  if n.now - sess.lastKeepalive < (if sess.peerKaTerm == 0x0D then 29 else 300) then n
  else
    let n := (n.sendKeepalive s).flexSendLinkTime s
    n.setSession s { n.sessions s with lastKeepalive := n.now }

/-- The 120 s refresh of the own record and the direct neighbours. -/
def serveRefresh (s : Slot) : Node :=
  if n.cfg.transit && (n.sessions s).sentRoutes && n.cfg.recordsAllowed (n.peers s) &&
      !(n.peers s).adv.eobPending &&
      decide (advertInterval ≤ n.now - (n.learned s).lastAdvert) then
    ((n.anchorAdvert s).flexSendOwnRoutes s false).flexAdvertiseNeighbours s
  else n

/-- The re-seed of an established peer that has not been sent our table. -/
def serveReseed (s : Slot) : Node :=
  if n.cfg.transit && (n.sessions s).flexIsEstablished then n.seedIfUnsent s else n

/-- One session's turn of the service loop. -/
def serveSession (s : Slot) : Node :=
  if !(n.sessions s).active || (n.sessions s).link.isNone then n
  else (((n.serveKeepalive s).serveRefresh s).serveReseed s).flexAdvertiseDrain s

/-- `FlexNet_Timer`, less what it does for the path layer. -/
def flexNetTimer : Node :=
  let n := n.flexPortLinksKeep.flexLinkOptsPoll
  slots.foldl serveSession n.reapSessions.proactiveInit

end Node

end FlexNet
