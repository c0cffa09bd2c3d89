import FlexNet.Path.Frames
import FlexNet.Node.Events

/-!
# The path layer

The probes a node has outstanding, the requests it has parked, and the functions of
`FlexNetCode.c` that send, forward, answer and relay path frames.  A `PathNode` is a node with
these tables; the cached chains are the `path` fields of its destination table.  Log lines and the
counters of the status display are left out; the ring of results for the sysop is in
`FlexNet.Path.Sysop`.
-/

namespace FlexNet

/-! ## Callsigns in a chain -/

/-- `toupper` on ASCII. -/
def toUpper (b : UInt8) : UInt8 :=
  if 0x61 ≤ b ∧ b ≤ 0x7A then b - 0x20 else b

/-- `flex_split_call`: an upper-cased base of one to six letters and digits, and an SSID of 0 to
15. -/
def flexSplitCall (call : CStr) : Option (CStr × ℤ) :=
  let base := call.takeWhile (· != 0x2D)
  if base.length = 0 ∨ 6 < base.length ∨ base.all isAlnum = false then none
  else match call.drop base.length with
    | [] => some (base.map toUpper, 0)
    | _ :: digits =>
      if digits.isEmpty ∨ digits.all isDigit = false ∨ 15 < digitsValue digits then none
      else some (base.map toUpper, digitsValue digits)

/-- `flex_call_in_range`: the call is `base` with an SSID in `lo..hi`. -/
def flexCallInRange (call base : CStr) (lo hi : ℤ) : Bool :=
  !base.isEmpty && (flexSplitCall call).any fun (b, ssid) =>
    strcasecmp b base && decide (lo ≤ ssid ∧ ssid ≤ hi)

/-- `flex_chain_ends_at`: a chain is an answer only for the destination it ends at. -/
def flexChainEndsAt (chain : List Callsign) (k : Key) : Bool :=
  chain.getLast?.any fun last => flexCallInRange last.bytes k.call.bytes k.lo k.hi

/-- `flex_chain_has_call`. -/
def flexChainHasCall (chain : List Callsign) (call : CStr) : Bool :=
  !call.isEmpty && chain.any fun hop => !hop.isEmpty && strcasecmp hop.bytes call

/-- `flex_base_call`. -/
def flexBaseCall (call : CStr) : CStr := (call.takeWhile (· != 0x2D)).take 19

/-- `"CALL-0"` is `"CALL"`; the other suffixes stay. -/
def stripZeroSsid (call : CStr) : CStr :=
  if 2 < call.length ∧ call.drop (call.length - 2) = [0x2D, 0x30] then call.take (call.length - 2)
  else call

/-- Which call of ours a target is: `FLEX_TARGET_NODE` or `FLEX_TARGET_LOCAL`. -/
inductive TargetUs
  | node | localCall
deriving DecidableEq

namespace Config

variable (cfg : Config)

/-- The node's callsign as path frames spell it. -/
def pathCall : CStr := flexNormalizeCallsign cfg.myCall

/-- `flex_local_find` on the advertised calls. -/
def localFind (call : CStr) : Bool :=
  (flexSplitCall call).any fun (base, ssid) =>
    cfg.locals.any fun l => l.state == .bound && decide (l.ssid = ssid) && l.base == base

/-- `flex_target_is_us`. -/
def flexTargetIsUs (target : CStr) : Option TargetUs :=
  if cfg.localFind target then some .localCall
  else if strcasecmp cfg.pathCall target then some .node
  else if flexCallInRange target cfg.ownBaseCall.1 cfg.ownSsidRange.1 cfg.ownSsidRange.2 then
    some .node
  else none

end Config

/-! ## The tables -/

/-- An index into `FlexNetPathProbes[]`; `FLEXNET_MAX_PATH_PROBES` is 8. -/
abbrev ProbeSlot := Fin 8

/-- An index into `FlexNetDeferred[]`; `FLEXNET_MAX_DEFERRED_REQ` is 8. -/
abbrev DeferredSlot := Fin 8

theorem sessions_pos : 0 < 8 := by decide

/-- The slot a zeroed parked request names. -/
def firstSession : Slot := ⟨0, sessions_pos⟩

/-- Where the ring of targets probed on demand starts. -/
def ondemandStart : Fin 32 := 0

/-- `struct FLEXNET_PATH_PROBE`. -/
structure PathProbe where
  active : Bool := false
  qso : ℤ := 0
  targetCall : Callsign := .empty
  targetSsid : ℤ := 0
  destIndex : Option ℕ := none
  sentTime : ℤ := 0
  replyHops : List Callsign := []
  gotReply : Bool := false
deriving DecidableEq

/-- `struct FLEXNET_DEFERRED_REQ`. -/
structure DeferredReq where
  inUse : Bool := false
  peer : Slot := firstSession
  targetBase : CStr := []
  frame : CStr := []
  parkedAt : ℤ := 0
deriving DecidableEq

/-- `FLEXNET_DEFERRED_REQ_TTL`. -/
def deferredReqTtl : ℤ := 20
/-- `FLEXNET_DEFERRED_FRAME_MAX`. -/
def deferredFrameMax : ℕ := 96
/-- `FLEXNET_ONDEMAND_PROBE_GAP`. -/
def ondemandProbeGap : ℤ := 3
/-- `FLEXNET_ONDEMAND_PROBE_REPEAT`. -/
def ondemandProbeRepeat : ℤ := 120
/-- `FLEXNET_PATH_CACHE_TTL`. -/
def pathCacheTtl : ℤ := 14400
/-- `FLEXNET_L2_MAX_DIGIS`. -/
def l2MaxDigis : ℕ := 8

/-- A node with its path layer.  `portMaxDigis` is `PORTMAXDIGIS` of BPQ's ports, 0 when it is not
set; `ondemandRecent` is the ring of targets probed on demand. -/
structure PathNode extends Node where
  pathForward : Bool
  portMaxDigis : ℕ → ℕ
  probes : ProbeSlot → PathProbe := fun _ => {}
  qsoCounter : UInt16 := 0
  ondemandRecent : Fin 32 → CStr × ℤ := fun _ => ([], 0)
  ondemandNext : Fin 32 := ondemandStart
  lastOndemandProbe : ℤ := 0
  deferred : DeferredSlot → DeferredReq := fun _ => {}
  replaying : Bool := false

/-- Why `flex_send_path_req_ex` sent nothing. -/
inductive ProbeErr
  | full | noNbr | build
deriving DecidableEq

/-- The QSO numbers in turn: 0 is skipped. -/
def nextQso (counter : UInt16) : UInt16 :=
  if counter + 1 = 0 then 1 else counter + 1

/-- The search for a QSO number that is not taken. -/
def freshQso (taken : ℤ → Bool) : ℕ → UInt16 → UInt16 × Option ℤ
  | 0, counter => (counter, none)
  | tries + 1, counter =>
    if taken (nextQso counter).toNat then freshQso taken tries (nextQso counter)
    else (nextQso counter, some (nextQso counter).toNat)

namespace PathNode

variable (n : PathNode)

/-- A CE frame to the link of a session. -/
def sendCe (s : Slot) (data : CStr) : PathNode :=
  { n with toNode := n.toNode.flexSendFrame s pidCE data }

/-- `active && LINK`. -/
def live (s : Slot) : Bool := (n.sessions s).active && (n.sessions s).link.isSome

/-- One of our own probes waits for the number. -/
def pendingQso (qso : ℤ) : Bool :=
  (List.finRange 8).any fun i => (n.probes i).active && decide ((n.probes i).qso = qso)

/-! ## Who carries a target -/

/-- `flex_target_is_direct_peer`. -/
def flexTargetIsDirectPeer (target : CStr) : Bool :=
  !target.isEmpty && slots.any fun s =>
    n.live s && !(n.sessPeerCall s).isEmpty && strcasecmp (n.sessPeerCall s) (stripZeroSsid target)

/-- `flex_find_best_dest`: the cheapest finite row that covers the call. -/
def flexFindBestDest (base : CStr) (ssid : ℤ) : Option ℕ :=
  ((List.range n.dests.length).foldl (fun (best : Option ℕ × ℤ) i =>
    match n.dests[i]? with
    | none => best
    | some d =>
      if rttInfinity ≤ d.rtt ∨ strcasecmp d.key.call.bytes base = false ∨
          (0 ≤ ssid ∧ (ssid < d.key.lo ∨ d.key.hi < ssid)) then best
      else
        let cost := n.flexDestCostHere d.rtt d.viaSession
        if cost < best.2 then (some i, cost) else best) (none, rttInfinity)).1

/-- `flex_find_dest_for_target`. -/
def flexFindDestForTarget (target : CStr) : Option ℕ :=
  if target.isEmpty then none
  else
    let (base, suffix) := splitFirstDash target
    n.flexFindBestDest base ((suffix.map atoi).getD (-1))

/-- `flex_probe_session`: the row's neighbour, healed when its session is gone, else the target when
it is a neighbour itself. -/
def flexProbeSession (dest : Option ℕ) (target : CStr) : PathNode × Option Slot :=
  let direct := (n.flexSessionForCall (stripZeroSsid target)).filter fun s =>
    (n.sessions s).link.isSome
  match dest, dest.bind fun i => n.dests[i]? with
  | some i, some d =>
    match d.viaSession.filter n.live with
    | some v => (n, some v)
    | none =>
      match (n.flexSessionForCall d.viaCallsign.bytes).filter fun s =>
          (n.sessions s).link.isSome with
      | some s =>
        ({ n with dests := n.dests.modify i fun d => { d with viaSession := some s } }, some s)
      | none => (n, direct)
  | _, _ => (n, direct)

/-! ## Probes of our own -/

/-- The frame of a probe and its entry in the table. -/
def sendProbe (p : ProbeSlot) (s : Slot) (qso : ℤ) (dest : Option ℕ) (call : Callsign) (ssid : ℤ)
    (frame : CStr) : PathNode :=
  { n.sendCe s frame with
    probes := Function.update n.probes p {
      active := true, qso := qso, targetCall := call, targetSsid := ssid, destIndex := dest,
      sentTime := n.now } }

/-- The target of a probe as it is asked for. -/
def probeTarget (call : Callsign) (ssid : ℤ) : CStr :=
  (if 0 ≤ ssid then call.bytes ++ 0x2D :: decimalInt ssid else call.bytes).take 13

/-- `flex_send_path_req_ex`. -/
def flexSendPathReqEx (dest : Option ℕ) (call : Callsign) (ssid : ℤ) :
    PathNode × Except ProbeErr ProbeSlot :=
  match (List.finRange 8).find? fun i => !(n.probes i).active with
  | none => (n, .error .full)
  | some p =>
    let target := probeTarget call ssid
    match n.flexProbeSession dest target with
    | (n, none) => (n, .error .noNbr)
    | (n, some s) =>
      match freshQso n.pendingQso 65536 n.qsoCounter with
      | (counter, none) => ({ n with qsoCounter := counter }, .error .build)
      | (counter, some qso) =>
        let n := { n with qsoCounter := counter }
        match flexBuildPathReq 128 qso false n.cfg.pathCall (n.sessPeerCall s) target with
        | none => (n, .error .build)
        | some frame => (n.sendProbe p s qso dest call ssid frame, .ok p)

/-- `flex_ondemand_probe`. -/
def flexOndemandProbe (dest : ℕ) (target : CStr) : PathNode × Bool :=
  if n.now - n.lastOndemandProbe < ondemandProbeGap then (n, false)
  else
    let recent := (List.finRange 32).find? fun i =>
      !(n.ondemandRecent i).1.isEmpty && strcasecmp (n.ondemandRecent i).1 target
    if recent.any fun i => decide (n.now - (n.ondemandRecent i).2 < ondemandProbeRepeat) then
      (n, false)
    else match n.dests[dest]? with
      | none => (n, false)
      | some d =>
        match n.flexSendPathReqEx (some dest) d.key.call d.key.lo with
        | (n, .error _) => (n, false)
        | (n, .ok _) =>
          ({ n with
              lastOndemandProbe := n.now
              ondemandRecent := Function.update n.ondemandRecent n.ondemandNext
                (target.take 19, n.now)
              ondemandNext := n.ondemandNext + 1 }, true)

/-- `flex_defer_path_req`. -/
def flexDeferPathReq (peer : Slot) (target data : CStr) : PathNode :=
  if n.replaying then n
  else if data.isEmpty ∨ deferredFrameMax < data.length then n
  else match (List.finRange 8).find? fun i => !(n.deferred i).inUse ||
      decide (deferredReqTtl < n.now - (n.deferred i).parkedAt) with
    | none => n
    | some i =>
      let d : DeferredReq := ⟨true, peer, flexBaseCall target, data, n.now⟩
      { n with deferred := Function.update n.deferred i d }

/-! ## Requests of others -/

/-- The frame a traversal goes on as: the next hop before the target, and the hop octet bumped. -/
def forwardedFrame (nextHop target : CStr) (f : PathFrame) (data : CStr) : Option CStr :=
  (appendCalls 256 1 false true
    (f.origin.bytes :: (f.hops.dropLast.map Callsign.bytes ++ [nextHop, target]))
    ((data.take pathHeaderLen).modify 1 (· + 1))).map (· ++ [0x0D])

/-- `flex_forward_path_req`. -/
def flexForwardPathReq (asker : Slot) (target : CStr) (dest : Option ℕ) (f : PathFrame)
    (data : CStr) : PathNode × Bool :=
  if !n.pathForward then (n, false)
  else if data.length < pathHeaderLen ∨ f.hops.length < 1 then (n, false)
  else match dest.bind fun i => n.dests[i]? with
    | none => (n, false)
    | some d =>
      match (n.healedVia d).filter n.live with
      | none => (n, false)
      | some via =>
        let hop := n.sessPeerCall via
        if via = asker then (n, false)
        else if hop.isEmpty then (n, false)
        else if strcasecmp f.origin.bytes hop then (n, false)
        else if f.hops.any fun h => strcasecmp h.bytes hop then (n, false)
        else if maxPathHops ≤ f.hops.length + 1 then (n, false)
        else match forwardedFrame hop target f data with
          | none => (n, false)
          | some frame => (n.sendCe via frame, true)

/-- The cached chain of a row may be given out: it is not empty, does not lead back through us, ends
at its destination, and is fresh. -/
def cacheUsable (d : DestEntry) : Bool :=
  !d.path.isEmpty && decide (d.pathUpdated ≠ 0) &&
    !(flexChainHasCall d.path n.cfg.pathCall || !flexChainEndsAt d.path d.key) &&
    decide (n.now - d.pathUpdated ≤ pathCacheTtl)

/-- The digipeaters an answer on a link may have. -/
def digiCap (s : Slot) : ℕ :=
  match (n.sessions s).link.bind fun l => (n.links l).port with
  | none => l2MaxDigis
  | some port =>
      if n.portMaxDigis port = 0 then l2MaxDigis else min (n.portMaxDigis port) l2MaxDigis

/-- A chain that can be given out goes back to the peer that asked; one with too many digipeaters
does not, the traversal goes on instead. -/
def answerPathReq (s : Slot) (target : CStr) (f : PathFrame) (data : CStr) (chain : List CStr) :
    PathNode :=
  if n.digiCap s < chain.length - 2 then
    (n.flexForwardPathReq s target (n.flexFindDestForTarget target) f data).1
  else match flexBuildPathRep 256 f.qso f.trace chain with
    | none => n
    | some frame => if frame.isEmpty then n else n.sendCe s frame

/-- A target that is neither ours, adjacent nor cached: the traversal goes on, or the request is
parked behind a probe of our own. -/
def passPathReq (s : Slot) (target : CStr) (dest : ℕ) (f : PathFrame) (data : CStr) : PathNode :=
  match n.flexForwardPathReq s target (some dest) f data with
  | (n, true) => n
  | (n, false) =>
    match n.flexOndemandProbe dest target with
    | (n, true) => n.flexDeferPathReq s target data
    | (n, false) => n

/-- A request for a target that is not ours. -/
def transitPathReq (s : Slot) (target : CStr) (f : PathFrame) (data : CStr) : PathNode :=
  if !n.cfg.transit then n
  else match n.flexFindDestForTarget target with
    | none => n
    | some i =>
      match n.dests[i]? with
      | none => n
      | some d =>
        if n.flexTargetIsDirectPeer target then
          n.answerPathReq s target f data [f.origin.bytes, n.cfg.pathCall, target]
        else if n.cacheUsable d then
          n.answerPathReq s target f data ([f.origin.bytes, n.cfg.pathCall] ++
            ((d.path.filter fun h => !h.isEmpty).take (maxPathHops - 2)).map Callsign.bytes)
        else n.passPathReq s target i f data

/-- `flex_handle_path_req`. -/
def flexHandlePathReq (s : Slot) (data : CStr) : PathNode :=
  match flexParsePathFrame data with
  | none => n
  | some f =>
    if f.isReply then n
    else match f.hops.getLast? with
      | none => n
      | some last =>
        match n.cfg.flexTargetIsUs last.bytes with
        | none => n.transitPathReq s last.bytes f data
        | some .node => n.answerPathReq s last.bytes f data [f.origin.bytes, n.cfg.pathCall]
        | some .localCall =>
          n.answerPathReq s last.bytes f data [f.origin.bytes, n.cfg.pathCall, last.bytes]

/-! ## Answers -/

/-- Who sits before us in the chain of an answer; nobody when it starts with us or we are not in
it. -/
def relayTo (f : PathFrame) : Option Callsign :=
  if n.cfg.pathCall.isEmpty || strcasecmp f.origin.bytes n.cfg.pathCall then none
  else (f.hops.findIdx? fun h => strcasecmp h.bytes n.cfg.pathCall).map fun me =>
    if me = 0 then f.origin else f.hops.getD (me - 1) .empty

/-- `flex_relay_path_rep`. -/
def flexRelayPathRep (f : PathFrame) (data : CStr) : PathNode :=
  if !n.pathForward then n
  else if f.hops.length < 1 ∨ data.isEmpty then n
  else match n.relayTo f with
    | none => n
    | some prev =>
      match (n.flexSessionForCall prev.bytes).filter n.live with
      | none => n
      | some via => n.sendCe via data

/-- The outstanding probe an answer is matched to. -/
def matchedProbe (qso : ℤ) : Option ProbeSlot :=
  (List.finRange 8).find? fun i => (n.probes i).active && decide ((n.probes i).qso = qso)

/-- The chain of an answer is the path to the probe's destination. -/
def cacheAnswer (probe : PathProbe) (hops : List Callsign) : PathNode :=
  match probe.destIndex with
  | none => n
  | some i =>
    match n.dests[i]? with
    | none => n
    | some d =>
      if flexChainHasCall hops n.cfg.pathCall || !flexChainEndsAt hops d.key then n
      else
        { n with dests := n.dests.modify i fun d => { d with path := hops, pathUpdated := n.now } }

/-- One parked request, when the probe for its target has been answered. -/
def replayDeferred (base : CStr) (n : PathNode) (i : DeferredSlot) : PathNode :=
  let d := n.deferred i
  if !d.inUse then n
  else if deferredReqTtl < n.now - d.parkedAt then
    { n with deferred := Function.update n.deferred i { d with inUse := false } }
  else if !strcasecmp d.targetBase base then n
  else
    let n := { n with deferred := Function.update n.deferred i { d with inUse := false } }
    if !n.live d.peer then n
    else
      { ({ n with replaying := true }.flexHandlePathReq d.peer d.frame) with replaying := false }

/-- An answer to a probe of our own: the chain is cached, the probe is done, and the requests parked
for its target are handled again. -/
def acceptAnswer (p : ProbeSlot) (f : PathFrame) : PathNode :=
  let probe := n.probes p
  let n := n.cacheAnswer probe f.hops
  let done := { probe with active := false, qso := 0, gotReply := true, replyHops := f.hops }
  let n := { n with probes := Function.update n.probes p done }
  (List.finRange 8).foldl (replayDeferred (flexBaseCall probe.targetCall.bytes)) n

/-- `flex_handle_path_rep`. -/
def flexHandlePathRep (data : CStr) : PathNode :=
  match flexParsePathFrame data with
  | none => n
  | some f =>
    if !f.isReply then n
    else match n.matchedProbe f.qso with
      | none => n.flexRelayPathRep f data
      | some p => n.acceptAnswer p f

/-- `FlexNet_ProcessCE`, the path frames included. -/
def flexNetProcessCE (l : LinkId) (data : CStr) : PathNode :=
  let n := { n with toNode := n.toNode.flexNetProcessCE l data }
  match n.flexFindSession l with
  | none => n
  | some s =>
    match flexParseCeFrame n.cfg.lt3byte data with
    | some .pathReq => n.flexHandlePathReq s data
    | some .pathRep => n.flexHandlePathRep data
    | _ => n

end PathNode

end FlexNet
