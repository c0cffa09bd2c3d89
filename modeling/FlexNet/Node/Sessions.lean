import FlexNet.Node.LinkTime

/-!
# Session life cycle

How a session starts (`FlexNet_InitSession`), is carried over to another link row
(`FlexNet_TryAdoptSession`, the reaper's migration), is told that its peer restarted
(`FlexNet_NotePeerL2Restart`), and ends (`FlexNet_CloseSession`, the reaper).  A session is
found by its link row, by the callsign bytes of a row, by the callsign it stashed, or by the
text of a callsign, as the source has it in each place.
-/

namespace FlexNet

/-! ## Frames of the session layer -/

/-- `flex_build_init` for a highest SSID. -/
def flexBuildInit (maxSsid : ℤ) : CStr :=
  [0x30, ssidOctet maxSsid, 0x25, 0x21, 0x0D]

/-- `flex_build_keepalive`: 241 octets whatever the peer sends. -/
def flexBuildKeepalive : CStr :=
  0x32 :: List.replicate 240 0x20

/-- The highest SSID the node's INIT declares. -/
def Config.initMax (cfg : Config) : ℤ :=
  match cfg.ssidRange with
  | some (_, hi) => hi
  | none => ((cfg.myCall.ssid >>> 1) &&& 0x0F).toNat

/-- `flex_is_established`. -/
def Session.flexIsEstablished (s : Session) : Bool :=
  s.gotPeerInit || s.flexEstInferred

/-- `flex_l2_connected`. -/
def Link.flexL2Connected (l : Link) : Bool :=
  decide (5 ≤ l.l2State)

/-- `FLEXNET_LEARNED_ADOPT_MAX_AGE`. -/
def learnedAdoptMaxAge : ℤ := 600

namespace Node

variable (n : Node)

/-- `flex_send_init`. -/
def flexSendInit (s : Slot) : Node :=
  let n := n.flexSendFrame s pidCE (flexBuildInit n.cfg.initMax)
  n.setSession s { n.sessions s with lastInitTx := n.now }

/-- A keepalive to the peer of a session. -/
def sendKeepalive (s : Slot) : Node :=
  n.flexSendFrame s pidCE flexBuildKeepalive

/-- `LINK->FlexNetLink = b`. -/
def flagLink (l : LinkId) (b : Bool) : Node :=
  n.setLink l { n.links l with flexNetLink := b }

/-- `flex_find_session`. -/
def flexFindSession (l : LinkId) : Option Slot :=
  slots.find? fun i => decide (i.val < n.sessionCount) && (n.sessions i).active &&
    (n.sessions i).link == some l

/-! ## Starting a session -/

/-- `flex_learned_adopt` may take the table of slot `si` for `peerCall`. -/
def adoptable (fresh : Slot) (peerCall : CStr) (si : Slot) : Bool :=
  let old := n.learned si
  (decide (si = fresh) || !(n.sessions si).active) && !old.routes.isEmpty &&
    strcasecmp old.peerCall peerCall &&
    !decide (old.diedAt ≠ 0 ∧ learnedAdoptMaxAge < n.now - old.diedAt)

/-- `flex_learned_adopt`, and the `memset` of its caller where nothing is adopted. -/
def flexLearnedAdopt (fresh : Slot) (peerCall : CStr) : Node :=
  if peerCall.isEmpty then n.setLearned fresh {}
  else match slots.find? (n.adoptable fresh peerCall) with
    | none => n.setLearned fresh {}
    | some si =>
      if si = fresh then n.setLearned fresh { n.learned fresh with diedAt := 0 }
      else (n.setLearned fresh { n.learned si with diedAt := 0 }).setLearned si {}

/-- The handshake of a session that was never established starts over. -/
def rehandshake (s : Slot) : Node :=
  let n := n.setSession s { n.sessions s with
    sentRoutes := false
    gotPeerInit := false
    flexEstInferred := false
    keepaliveCount := 0
    sessionStart := n.now
    lastKeepalive := n.now }
  (n.flexSendInit s).sendKeepalive s

/-- A session met again: the row is flagged, the stashed callsign refreshed, and an established
session left alone. -/
def reenterSession (s : Slot) (l : LinkId) : Node :=
  let n := (n.flagLink l true).setSession s
    { n.sessions s with link := some l, peerCallsign := (n.links l).linkCall }
  if (n.sessions s).flexIsEstablished then n else n.rehandshake s

/-- A session in a free slot. -/
def startSession (s : Slot) (l : LinkId) (port : ℕ) : Node :=
  let call := (n.links l).linkCall
  let newCall := flexNormalizeCallsign call
  let n := n.setSession s {}
  let n := { n with kaEchoAt := Function.update n.kaEchoAt s 0 }
  let n := n.setPeer s { n.peers s with pcfQuiesced := false, quiescedSince := 0 }
  let n := n.clearAdvertised s
  let n := n.flexLearnedAdopt s newCall
  let n := n.setLearned s { n.learned s with peerCall := newCall.take 19, diedAt := 0 }
  let n := { n with
    linkOpts := Function.update n.linkOpts s ((n.flexNetPeerLinkOpts call port).getD {})
    reapBadSince := Function.update n.reapBadSince s 0
    sessionCount := if n.sessionCount < 8 then n.sessionCount + 1 else n.sessionCount }
  let n := n.setSession s
    { link := some l, port := port, active := true, ourLinkTime := 2, sessionStart := n.now,
      peerCallsign := call }
  let n := ((n.flagLink l true).flexSendInit s).sendKeepalive s
  let n := n.setSession s { n.sessions s with lastKeepalive := n.now }
  { n with nbrEntered := Function.update n.nbrEntered s false }

/-- The session of another link row with the same callsign octets on this port. -/
def sameCallSession (l : LinkId) (port : ℕ) (i : Slot) : Bool :=
  (n.sessions i).active && (n.sessions i).port == port &&
    match (n.sessions i).link with
    | none => false
    | some l' => decide (l' ≠ l) && (n.links l').linkCall == (n.links l).linkCall

/-- `FlexNet_InitSession`: by link row, then by callsign on the port, then a free slot. -/
def flexNetInitSession (l : LinkId) (port : ℕ) : Node :=
  match slots.find? fun i => (n.sessions i).active && (n.sessions i).link == some l with
  | some i => n.reenterSession i l
  | none =>
    match slots.find? (n.sameCallSession l port) with
    | some i =>
      match (n.sessions i).link with
      | none => n
      | some old => (n.flagLink old false).reenterSession i l
    | none =>
      match slots.find? fun i => !(n.sessions i).active with
      | none => n
      | some i => n.startSession i l port

/-! ## Ending a session -/

/-- `FlexNet_CloseSession`. -/
def flexNetCloseSession (l : LinkId) : Node :=
  match n.flexFindSession l with
  | none => n
  | some s =>
    let n := n.setLearned s { n.learned s with diedAt := n.now }
    let n := n.setSession s { n.sessions s with active := false, link := none }
    let n := n.flagLink l false
    (n.flexDestReelectVia s).flexAdvertisePoisonSession s

/-- `FLEXNET_REAP_GRACE`. -/
def reapGrace : ℤ := 5

/-- `FLEX_REAP_KEEP`, `FLEX_REAP_WAIT`, `FLEX_REAP_NOW`. -/
inductive ReapVerdict
  | keep | wait | now
deriving DecidableEq

/-- `flex_reap_decide`, with the new value of `bad_since`. -/
def flexReapDecide (link : Option Link) (badSince now : ℤ) : ReapVerdict × ℤ :=
  match link with
  | none => (.now, badSince)
  | some l =>
    if l.flexL2Connected && !l.linkCall.isEmpty then (.keep, 0)
    else
      let badSince := if badSince = 0 then now else badSince
      (if reapGrace ≤ now - badSince then .now else .wait, badSince)

/-- A row the reaper may migrate session `s` to: another connected row of the same callsign on
the session's port. -/
def migrationTarget (s : Slot) (li : LinkId) : Bool :=
  let sess := n.sessions s
  let l := n.links li
  decide (sess.link ≠ some li) && l.flexL2Connected && !l.linkCall.isEmpty &&
    l.port == some sess.port && !(flexNormalizeCallsign l.linkCall).isEmpty &&
    flexNormalizeCallsign l.linkCall == flexNormalizeCallsign sess.peerCallsign

/-- The old row of a session loses its flag. -/
def unflagOldLink (s : Slot) : Node :=
  match (n.sessions s).link with
  | none => n
  | some l => n.flagLink l false

/-- The reaper moves a session to another row. -/
def migrateSession (s : Slot) (li : LinkId) : Node :=
  let n := (n.unflagOldLink s)
  let n := (n.setSession s { n.sessions s with link := some li }).flagLink li true
  { n with reapBadSince := Function.update n.reapBadSince s 0 }

/-- The reaper ends a session. -/
def reapSession (s : Slot) : Node :=
  let n := { n with reapBadSince := Function.update n.reapBadSince s 0 }
  let n := n.unflagOldLink s
  let n := n.setLearned s { n.learned s with diedAt := n.now }
  let n := n.setSession s { n.sessions s with active := false }
  let n := (n.flexDestReelectVia s).flexAdvertisePoisonSession s
  let n := n.setSession s {}
  n.setPeer s { n.peers s with pcfQuiesced := false, quiescedSince := 0 }

/-- One session's turn of the reaper. -/
def reapTurn (s : Slot) : Node :=
  let sess := n.sessions s
  if !sess.active then n
  else
    let (verdict, badSince) :=
      flexReapDecide (sess.link.map n.links) (n.reapBadSince s) n.now
    let n := { n with reapBadSince := Function.update n.reapBadSince s badSince }
    match verdict with
    | .keep => n
    | .wait | .now =>
      let target :=
        if sess.peerCallsign.isEmpty then none
        else (List.range n.cfg.maxLinks).find? (n.migrationTarget s)
      match target, verdict with
      | some li, _ => n.migrateSession s li
      | none, .now => n.reapSession s
      | none, _ => n

/-! ## Carrying a session over -/

/-- `FlexNet_NotePeerL2Restart`: a quiesced session of the station is released, and its table
cleared. -/
def flexNetNotePeerL2Restart (call : AxCall) (port : ℕ) : Node :=
  match slots.find? fun i => (n.sessions i).active && (n.sessions i).port == port &&
      (n.sessions i).peerCallsign.same call with
  | none => n
  | some i =>
    if !(n.peers i).pcfQuiesced then n
    else
      let n := n.setPeer i { n.peers i with pcfQuiesced := false, quiescedSince := 0 }
      (n.setSession i { n.sessions i with sentRoutes := false }).clearAdvertised i

/-- A session a `FLEXNETLINK` neighbour's new link replaces is closed. -/
def closeReplaced (l : LinkId) (port : ℕ) (i : Slot) : Node :=
  let old := n.sessions i
  match old.link with
  | none => n
  | some ol =>
    if old.active && old.port == port && old.peerCallsign.same (n.links l).linkCall then
      n.flexNetCloseSession ol
    else n

/-- A session `FlexNet_TryAdoptSession` carries over to row `l`. -/
def adoptsTo (l : LinkId) (port : ℕ) (i : Slot) : Bool :=
  let sess := n.sessions i
  sess.active && sess.port == port && !sess.peerCallsign.isEmpty &&
    !(flexNormalizeCallsign sess.peerCallsign).isEmpty &&
    flexNormalizeCallsign sess.peerCallsign == flexNormalizeCallsign (n.links l).linkCall

/-- The session moves to row `l`, as it is. -/
def adoptSession (s : Slot) (l : LinkId) : Node :=
  let n := if (n.sessions s).link = some l then n else n.unflagOldLink s
  let n := (n.setSession s { n.sessions s with link := some l }).flagLink l true
  let n := { n with reapBadSince := Function.update n.reapBadSince s 0 }
  n.setSession s { n.sessions s with peerCallsign := (n.links l).linkCall }

/-- `FlexNet_TryAdoptSession`, with whether a session was adopted. -/
def flexNetTryAdoptSession (l : LinkId) (port : ℕ) : Node × Bool :=
  let call := (n.links l).linkCall
  if call.isEmpty then (n, false)
  else if (flexPortLinkFind n.portLinks call port).isSome then
    (slots.foldl (fun n i => n.closeReplaced l port i) n, false)
  else if (flexNormalizeCallsign call).isEmpty then (n, false)
  else
    match slots.find? (n.adoptsTo l port) with
    | none => (n, false)
    | some i => (n.adoptSession i l, true)

/-- The hook on an accepted SABM of a FlexNet neighbour. -/
def sabmAccepted (l : LinkId) (port : ℕ) : Node :=
  if !n.flexNetIsPeerFlexNetMapped (n.links l).linkCall port then n
  else
    let n := n.flagLink l true
    let (m, adopted) := n.flexNetTryAdoptSession l port
    if adopted then m else m.flexNetInitSession l port

end Node

end FlexNet
