import FlexNet.Path.Parked

/-!
# The sysop's path queries

`FLEXPROBE` sends a probe for the sysop and returns; its outcome is kept in a ring of eight entries,
apart from the probes, whose slots are free again by the time the sysop asks.  A `SysopNode` is a
node with that ring, the functions that fill and close it, and the timeout of the probes.
-/

namespace FlexNet

/-! ## The ring of the sysop's queries -/

/-- `FLEXNET_PATH_PROBE_TIMEOUT`. -/
def pathProbeTimeout : ℤ := 15
/-- `FLEXNET_SYSOP_PROBE_GAP`. -/
def sysopProbeGap : ℤ := 5
/-- `FLEXNET_SYSOP_PROBE_RING`. -/
def sysopProbeRing : ℕ := 8

/-- An index into `FlexNetSysopProbes[]`. -/
abbrev RingSlot := Fin sysopProbeRing

/-- The states of an entry, `FLEX_SPROBE_*`. -/
inductive SysopState
  | pending | answered | loop | wrongEnd | timeout
deriving DecidableEq

/-- `struct FLEXNET_SYSOP_PROBE`. -/
structure SysopProbe where
  inUse : Bool := false
  qso : ℤ := 0
  state : SysopState := .pending
  target : CStr := []
  via : CStr := []
  sent : ℤ := 0
  elapsed : ℤ := 0
  hops : List Callsign := []

/-- The entry waits for its outcome. -/
def SysopProbe.waits (r : SysopProbe) : Bool := r.inUse && r.state == .pending

theorem ring_pos : 0 < sysopProbeRing := by decide

/-- Where the ring starts. -/
def ringStart : RingSlot := ⟨0, ring_pos⟩

/-- `(i + 1) % FLEXNET_SYSOP_PROBE_RING`. -/
def ringNext (i : RingSlot) : RingSlot := ⟨(i + 1) % sysopProbeRing, Nat.mod_lt _ ring_pos⟩

/-- A node with the ring of its sysop's queries.  `sysopRing` is the field `sysop_ring` of its
probes: an index into the ring counted from 1, 0 for a probe that is not the sysop's. -/
structure SysopNode extends PathNode where
  sysopRing : ProbeSlot → ℕ := fun _ => 0
  sysopProbes : RingSlot → SysopProbe := fun _ => {}
  sysopProbeNext : RingSlot := ringStart
  lastSysopProbe : ℤ := 0

/-- What `flex_cmd_probe_send` replies, with what its text shows. -/
inductive ProbeReply
  | wait (seconds : ℤ)
  | noRoute (call : CStr)
  | thisNode (target : CStr)
  | full
  | noNeighbour (target : CStr)
  | notBuilt (target : CStr)
  | sent (target via : CStr) (qso : ℤ)

namespace SysopNode

variable (n : SysopNode)

/-- `flex_sysop_probe_add`: the oldest entry is overwritten. -/
def flexSysopProbeAdd (target via : CStr) (qso now : ℤ) : SysopNode × ℕ :=
  let i := n.sysopProbeNext
  ({ n with
      sysopProbeNext := ringNext i
      sysopProbes := Function.update n.sysopProbes i {
        inUse := true, qso := qso, sent := now
        target := target.take (maxCallsign + 3), via := via.take 19 } }, i + 1)

/-- `flex_sysop_probe_close`: nothing happens for an entry that was closed or used again. -/
def flexSysopProbeClose (ring : ℕ) (qso : ℤ) (state : SysopState) (hops : List Callsign)
    (now : ℤ) : SysopNode :=
  if h : ring < 1 ∨ sysopProbeRing < ring then n
  else
    let i : RingSlot := ⟨ring - 1, by omega⟩
    let r := n.sysopProbes i
    if r.inUse = false ∨ r.qso ≠ qso ∨ r.state ≠ .pending then n
    else
      { n with sysopProbes := Function.update n.sysopProbes i { r with
          state := state, elapsed := now - r.sent, hops := hops.take maxPathHops } }

/-- `flex_send_path_req_ex`; the `memset` of its slot makes the probe nobody's. -/
def flexSendPathReqEx (dest : Option ℕ) (call : Callsign) (ssid : ℤ) :
    SysopNode × Except ProbeErr ProbeSlot :=
  match n.toPathNode.flexSendPathReqEx dest call ssid with
  | (m, .error e) => ({ n with toPathNode := m }, .error e)
  | (m, .ok p) =>
    ({ n with toPathNode := m, sysopRing := Function.update n.sysopRing p 0 }, .ok p)

/-- The neighbour a probe is sent to, `via_out`. -/
def probeVia (dest : Option ℕ) (call : Callsign) (ssid : ℤ) : CStr :=
  ((n.flexProbeSession dest (PathNode.probeTarget call ssid)).2.map n.sessPeerCall).getD []

/-- `flex_cmd_probe_send`. -/
def flexCmdProbeSend (call : CStr) (ssid : ℤ) : SysopNode × ProbeReply :=
  let wait := sysopProbeGap - (n.now - n.lastSysopProbe)
  if n.lastSysopProbe ≠ 0 ∧ 0 < wait then (n, .wait wait)
  else match n.flexFindBestDest call ssid with
    | none => (n, .noRoute call)
    | some di =>
      match n.dests[di]? with
      | none => (n, .noRoute call)
      | some d =>
        let useSsid := if 0 ≤ ssid then ssid else d.key.lo
        let target :=
          (if useSsid = 0 then d.key.call.bytes
            else d.key.call.bytes ++ 0x2D :: decimalInt useSsid).take (maxCallsign + 3)
        if strcasecmp target n.cfg.pathCall then (n, .thisNode target)
        else
          let via := n.probeVia (some di) d.key.call useSsid
          match n.flexSendPathReqEx (some di) d.key.call useSsid with
          | (n, .error .full) => (n, .full)
          | (n, .error .noNbr) => (n, .noNeighbour target)
          | (n, .error .build) => (n, .notBuilt target)
          | (n, .ok p) =>
            let (m, ring) := n.flexSysopProbeAdd target via (n.probes p).qso n.now
            ({ m with
                sysopRing := Function.update m.sysopRing p ring
                lastSysopProbe := n.now }, .sent target via (n.probes p).qso)

/-- What an answer says of its probe. -/
def answerState (probe : PathProbe) (hops : List Callsign) : SysopState :=
  if flexChainHasCall hops n.cfg.pathCall then .loop
  else if (probe.destIndex.bind fun i => n.dests[i]?).any fun d => !flexChainEndsAt hops d.key then
    .wrongEnd
  else .answered

/-- `flex_handle_path_rep` on an answer to the probe of a slot, up to the parked requests. -/
def answerProbe (p : ProbeSlot) (f : PathFrame) : SysopNode :=
  let m := n.flexSysopProbeClose (n.sysopRing p) f.qso (n.answerState (n.probes p) f.hops) f.hops
    n.now
  { m with toPathNode := n.noteAnswer p f }

/-- One turn of the loop of `FlexNet_Timer` that ends the probes nobody answered. -/
def expirePathProbe (p : ProbeSlot) : SysopNode :=
  if (n.probes p).active ∧ pathProbeTimeout < n.now - (n.probes p).sentTime then
    let m := n.flexSysopProbeClose (n.sysopRing p) (n.probes p).qso .timeout [] n.now
    { m with probes := Function.update m.probes p { n.probes p with active := false, qso := 0 } }
  else n

end SysopNode

end FlexNet
