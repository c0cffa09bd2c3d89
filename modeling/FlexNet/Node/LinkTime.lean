import FlexNet.Node.Dests

/-!
# Link time and link options

The two quantities of a link that every cost learned over it depends on, and what a change of
either triggers: `flex_link_time_sample` folds a round trip into the smoothed link time, and
`flex_link_opts_poll` re-reads the options of live sessions.
-/

namespace FlexNet

/-! ## Which peers speak FlexNet -/

/-- `flex_port_link_find`. -/
def flexPortLinkFind (portLinks : List PortLink) (call : AxCall) (port : ℕ) : Option PortLink :=
  portLinks.find? fun pl => pl.usable && pl.port == port && pl.axcall.same call

/-- The F-flagged MAP entry of a peer on a port. -/
def flexMapFind (axipPorts : List AxipPort) (call : AxCall) (port : ℕ) : Option ArpEntry :=
  (axipPorts.filter fun ap => ap.port == port).findSome? fun ap =>
    ap.arpTable.find? fun a => a.flexNetFlag && a.callsign.same call

namespace Node

variable (n : Node)

/-- `FlexNet_PeerLinkOpts`: the options of the MAP entry, else of the `FLEXNETLINK`
declaration. -/
def flexNetPeerLinkOpts (call : AxCall) (port : ℕ) : Option LinkOpts :=
  match flexMapFind n.axipPorts call port with
  | some a => some a.flexNetOpts
  | none => (flexPortLinkFind n.portLinks call port).map PortLink.opts

/-- `FlexNet_IsPeerFlexNetMapped`. -/
def flexNetIsPeerFlexNetMapped (call : AxCall) (port : ℕ) : Bool :=
  (n.flexNetPeerLinkOpts call port).isSome

/-! ## Link options -/

/-- `FLEXNET_LINK_OPTS_POLL`. -/
def linkOptsPoll : ℤ := 5

/-- A `'+'` that came or went shifts what the destination table holds via the link. -/
def shiftDest (s : Slot) (shift : ℤ) (d : DestEntry) : DestEntry :=
  if d.viaSession = some s ∧ d.isInfinity = false ∧ 0 < d.rtt ∧ d.rtt < rttInfinity then
    { d with rtt := min (max (d.rtt + shift) 1) (rttInfinity - 1) }
  else d

/-- `flex_link_opts_changed`. -/
def flexLinkOptsChanged (s : Slot) (opts : LinkOpts) : Node :=
  let old := n.linkOpts s
  let n := { n with linkOpts := Function.update n.linkOpts s opts }
  let shift :=
    (if opts.penalty then linkPenalty else 0) - (if old.penalty then linkPenalty else 0)
  let n := if shift = 0 then n else { n with dests := n.dests.map (shiftDest s shift) }
  if !n.cfg.transit then n
  else
    let n := n.triggerPeersAll s (n.learned s).keys
    if old.ownOnly = opts.ownOnly then n
    else ((n.flexAdvertiseWalkForPeer s false false).1).flexAdvertiseDrain s

/-- One session's turn of `flex_link_opts_poll`. -/
def pollLinkOpts (s : Slot) : Node :=
  let sess := n.sessions s
  match sess.link with
  | none => n
  | some l =>
    if !sess.active || (n.links l).linkCall.isEmpty then n
    else
      let opts := (n.flexNetPeerLinkOpts (n.links l).linkCall sess.port).getD {}
      if opts = n.linkOpts s then n else n.flexLinkOptsChanged s opts

/-- `flex_link_opts_poll`. -/
def flexLinkOptsPoll : Node :=
  if n.now - n.linkOptsPolled < linkOptsPoll then n
  else slots.foldl pollLinkOpts { n with linkOptsPolled := n.now }

/-! ## Link time -/

/-- `FLEXNET_WIRE_LT`. -/
def wireLt : ℤ := 5

/-- `flex_wire_lt_value`. -/
def flexWireLtValue (pcf : Bool) (samples : UInt32) (ourLt : ℤ) : ℤ :=
  if pcf || samples == 0 then wireLt else max 1 (min ourLt 4095)

/-- `FLEXNET_LT_INTERVAL_PCF` and `FLEXNET_LT_INTERVAL_XNET`. -/
def ltInterval (s : Session) : ℤ := if s.peerKaTerm == 0x0D then 320 else 20

/-- `flex_send_link_time`: our link time to the peer, rate-limited; it stamps the round trip. -/
def flexSendLinkTime (s : Slot) : Node :=
  let sess := n.sessions s
  if sess.lastLtTx ≠ 0 ∧ n.now - sess.lastLtTx < ltInterval sess then n
  else
    let value := flexWireLtValue sess.flexPeerIsPcf sess.ltSampleCount sess.ourLinkTime
    (n.flexSendFrame s pidCE ([0x31] ++ decimalInt value ++ [0x0D])).setSession s
      { sess with lastLtTx := n.now, ltTxTick := n.ticks, ltTxPending := true }

/-- Trigger (b): a link time that moved re-runs the rule for everything learned over the
link. -/
def linkTimeMoved (s : Slot) : Node :=
  let st := n.learned s
  let ourLinkTime := (n.sessions s).ourLinkTime
  if ourLinkTime = st.ltAnchor then n
  else
    let n := n.setLearned s { st with ltAnchor := ourLinkTime }
    if st.routes.isEmpty then n else n.triggerPeersAll s st.keys

/-- `flex_link_time_sample`: fold the round trip since our last link time into the smoothed
value. -/
def flexLinkTimeSample (s : Slot) : Node :=
  let sess := n.sessions s
  if !sess.ltTxPending then n
  else
    let sample := n.ticks - sess.ltTxTick
    if sample == 0 || 6000 < sample then n.setSession s { sess with ltTxPending := false }
    else
      let smoothed :=
        if sess.ltSampleCount == 0 then sample else (sess.ltSmoothed10ms * 3 + sample) / 4
      let wire := (smoothed + 5) / 10
      let wire : UInt32 := if wire < 1 then 1 else if 4095 < wire then 4095 else wire
      let n := n.setSession s { sess with
        ltSmoothed10ms := smoothed
        ltSampleCount := sess.ltSampleCount + 1
        ourLinkTime := wire.toNat
        ltTxPending := false }
      if n.cfg.transit then n.linkTimeMoved s else n

end Node

end FlexNet
