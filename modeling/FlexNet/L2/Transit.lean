import FlexNet.L2.Frames

/-!
# L2 forwarding

`FlexNet_L2Transit` and the circuit table behind it.  A frame that lists the node as its next
digipeater gets the next hop towards its destination put behind the node, and the circuit (user,
destination, arrival port) remembers which hop that was; on the way back the hop is taken out again.

The table is the source's array: a search goes through the slots in their order, and drops what has
expired as it comes by.
-/

namespace FlexNet

/-! ## Circuits -/

/-- An index into `FlexNetL2Transit[]`; `FLEXNET_MAX_L2_TRANSIT` is 128. -/
abbrev L2Slot := Fin 128

/-- The slots in the order the source's loops visit them. -/
def l2Slots : List L2Slot := List.finRange 128

/-- The `FLEX_L2K_*` classes of a control octet. -/
inductive L2Kind
  | other | sabm | disc | ua | dm
deriving DecidableEq

/-- `flex_l2_ctl_kind`. -/
def flexL2CtlKind (ctl : UInt8) : L2Kind :=
  if ctl &&& 0x01 = 0 then .other
  else if ctl &&& 0x03 = 0x01 then .other
  else if ctl &&& 0xEF = 0x2F ∨ ctl &&& 0xEF = 0x6F then .sabm
  else if ctl &&& 0xEF = 0x43 then .disc
  else if ctl &&& 0xEF = 0x63 then .ua
  else if ctl &&& 0xEF = 0x0F then .dm
  else .other

/-- The `FLEX_L2S_*` states of a slot. -/
inductive L2SlotState
  | live | evictable | expired
deriving DecidableEq

/-- `FLEXNET_L2_TRANSIT_LINGER`, `FLEXNET_L2_TRANSIT_EVICT` and `FLEXNET_L2_TRANSIT_IDLE`. -/
def l2Linger : ℤ := 120
def l2Evict : ℤ := 900
def l2Idle : ℤ := 7200

/-- `flex_l2_slot_state`. -/
def flexL2SlotState (now lastUsed closedAt : ℤ) : L2SlotState :=
  if closedAt ≠ 0 ∧ l2Linger < now - closedAt then .expired
  else if l2Idle < now - lastUsed then .expired
  else if closedAt ≠ 0 ∨ l2Evict < now - lastUsed then .evictable
  else .live

/-- `flex_l2_must_repin`. -/
def flexL2MustRepin (closed : Bool) (kind : L2Kind) (pinnedLive : Bool) : Bool :=
  !pinnedLive || (closed && kind == .sabm)

/-- `struct FLEXNET_L2_TRANSIT`. -/
structure L2Circuit where
  active : Bool := false
  user : AxCall := .zero
  dest : AxCall := .zero
  appended : AxCall := .zero
  prevAppended : AxCall := .zero
  port : ℕ := 0
  outPort : ℕ := 0
  prevOutPort : ℕ := 0
  closing : Bool := false
  closedAt : ℤ := 0
  lastUsed : ℤ := 0
deriving DecidableEq

namespace L2Circuit

variable (e : L2Circuit)

/-- The slot state of a circuit. -/
def state (now : ℤ) : L2SlotState := flexL2SlotState now e.lastUsed e.closedAt

/-- `flex_l2_out_eff`. -/
def outEff : ℕ := if e.outPort = 0 then e.port else e.outPort

/-- `flex_l2_is_our_hop`. -/
def isOurHop (prev : L2Addr) : Bool :=
  prev.repeated &&
    ((!e.appended.isEmpty && prev.toAxCall.same e.appended) ||
      (!e.prevAppended.isEmpty && prev.toAxCall.same e.prevAppended))

/-- `flex_l2_note_ctl`. -/
def noteCtl (kind : L2Kind) (now : ℤ) : L2Circuit :=
  match kind with
  | .sabm => { e with closing := false, closedAt := 0 }
  | .disc => { e with closing := true }
  | .ua => if e.closing && e.closedAt == 0 then { e with closedAt := now } else e
  | .dm => if e.closedAt = 0 then { e with closedAt := now } else e
  | .other => e

/-- The circuit of a forward frame. -/
def ofPair (user dest : AxCall) (port : ℕ) : Bool :=
  e.active && e.port == port && e.user.same user && e.dest.same dest

/-- The circuit of a returning frame. -/
def returns (now : ℤ) (user dest : AxCall) (port : ℕ) : Bool :=
  e.active && e.state now != .expired && e.user.same user && e.dest.same dest &&
    (e.outEff == port || (!e.prevAppended.isEmpty && e.prevOutPort == port))

end L2Circuit

/-- The circuit table. -/
abbrev L2Table := L2Slot → L2Circuit

/-! ### Lookups -/

/-- What the search for a circuit has come across. -/
structure L2Scan where
  circuits : L2Table
  spare : Option L2Slot := none
  closed : Option L2Slot := none
  oldest : Option L2Slot := none

namespace L2Scan

/-- A circuit that a full table may give up: the first that was closed, else the one silent for the
longest. -/
def reclaim (a : L2Scan) (i : L2Slot) : L2Scan :=
  let e := a.circuits i
  if e.closedAt ≠ 0 then
    if a.closed.all fun c => decide (e.closedAt < (a.circuits c).closedAt) then
      { a with closed := some i }
    else a
  else if a.oldest.all fun o => decide (e.lastUsed < (a.circuits o).lastUsed) then
    { a with oldest := some i }
  else a

/-- A slot that the search goes past. -/
def pass (a : L2Scan) (st : L2SlotState) (i : L2Slot) : L2Scan :=
  if !(a.circuits i).active then { a with spare := a.spare <|> some i }
  else if st ≠ .evictable then a
  else a.reclaim i

/-- An expired circuit is dropped as the search comes by. -/
def sweep (a : L2Scan) (now : ℤ) (i : L2Slot) : L2Scan :=
  let e := a.circuits i
  if e.active && e.state now == .expired then
    { a with circuits := Function.update a.circuits i { e with active := false } }
  else a

end L2Scan

/-- The loop of `flex_l2_find`. -/
def flexL2FindLoop (now : ℤ) (user dest : AxCall) (port : ℕ) :
    List L2Slot → L2Scan → L2Scan × Option L2Slot
  | [], a => (a, none)
  | i :: rest, a =>
    let st := (a.circuits i).state now
    let a := a.sweep now i
    if (a.circuits i).ofPair user dest port then (a, some i)
    else flexL2FindLoop now user dest port rest (a.pass st i)

/-- A new circuit. -/
def L2Circuit.fresh (now : ℤ) (user dest : AxCall) (port : ℕ) : L2Circuit :=
  { active := true, user := user, dest := dest, port := port, lastUsed := now }

/-- `flex_l2_find`. -/
def flexL2Find (t : L2Table) (now : ℤ) (user dest : AxCall) (port : ℕ) (create : Bool) :
    L2Table × Option L2Slot :=
  match flexL2FindLoop now user dest port l2Slots { circuits := t } with
  | (a, some i) => (a.circuits, some i)
  | (a, none) =>
    if !create then (a.circuits, none)
    else match a.spare <|> a.closed <|> a.oldest with
      | none => (a.circuits, none)
      | some i => (Function.update a.circuits i (.fresh now user dest port), some i)

/-- `flex_l2_find_rev`. -/
def flexL2FindRev (t : L2Table) (now : ℤ) (user dest : AxCall) (port : ℕ) : Option L2Slot :=
  l2Slots.find? fun i => (t i).returns now user dest port

/-- `flex_l2_out_port`. -/
def flexL2OutPort (arrive revPort fwdOut extPort peerPort : ℕ) : ℕ :=
  if revPort ≠ 0 then revPort
  else if fwdOut ≠ 0 then fwdOut
  else if extPort ≠ 0 then extPort
  else if peerPort ≠ 0 then peerPort
  else arrive

/-! ## The node -/

namespace Config

variable (cfg : Config)

/-- `flex_external_port`: the port of an advertised `FLEXNETEXTERNAL` station. -/
def flexExternalPort (call : CStr) : ℕ :=
  ((flexSplitCall call).bind fun (base, ssid) => cfg.locals.find? fun l =>
    l.state == .bound && decide (l.ssid = ssid) && l.base == base).elim 0 LocalCall.extPort

/-- `flex_l2_external_port`. -/
def flexL2ExternalPort (a : L2Addr) : ℕ := cfg.flexExternalPort (flexNormalizeCallsign a.toAxCall)

end Config

/-- A node with the circuit table.  `flexPorts` are the ports with `FLEXNET=YES`, `digiFlag` is
`DIGIFLAG` of the ports there are. -/
structure L2Node extends PathNode where
  circuits : L2Table := fun _ => {}
  flexPorts : List ℕ
  digiFlag : ℕ → Option ℤ

/-- A frame as it is handed to `Digipeat`: the place of the node in it and the port it leaves on, 0
for the one it arrived on. -/
structure L2Out where
  frame : L2Frame
  our : ℕ
  toPort : ℕ
deriving DecidableEq

/-- What `flex_l2_resolve_hop` and `flex_l2_pick_hop` find. -/
inductive L2Hop
  | hop (call : AxCall) (pinned : Bool) (port : ℕ)
  | adjacent (port : ℕ)
  | declined
deriving DecidableEq

namespace L2Node

variable (n : L2Node)

/-- A circuit is written. -/
def setCircuit (i : L2Slot) (e : L2Circuit) : L2Node :=
  { n with circuits := Function.update n.circuits i e }

/-- `flex_l2_find`. -/
def l2Find (user dest : AxCall) (port : ℕ) (create : Bool) : L2Node × Option L2Slot :=
  let (t, i) := flexL2Find n.circuits n.now user dest port create
  ({ n with circuits := t }, i)

/-- `flex_l2_find_rev`. -/
def l2FindRev (user dest : AxCall) (port : ℕ) : Option L2Slot :=
  flexL2FindRev n.circuits n.now user dest port

/-- `flex_l2_resolve_hop`. -/
def flexL2ResolveHop (dest : AxCall) : L2Node × L2Hop :=
  let destS := flexNormalizeCallsign dest
  if n.cfg.flexExternalPort destS ≠ 0 then (n, .adjacent (n.cfg.flexExternalPort destS))
  else match n.flexFindDestForTarget destS with
    | none => (n, .declined)
    | some di =>
      match n.dests[di]?.bind fun d => n.healedVia d with
      | none => (n, .declined)
      | some via =>
        let n := { n with toNode := n.toNode.healDest di }
        let nh := (n.sessions via).peerCallsign
        let port := (n.sessions via).port
        if nh.isEmpty then (n, .declined)
        else if nh.same dest then (n, .adjacent port)
        else (n, .hop nh false port)

/-- `flex_l2_pick_hop`. -/
def flexL2PickHop (e : Option L2Slot) (kind : L2Kind) (dest : AxCall) : L2Node × L2Hop :=
  let pin := (e.map n.circuits).filter fun e => !e.appended.isEmpty && !flexL2MustRepin
    (e.closedAt != 0) kind (n.flexSessionForCall (flexNormalizeCallsign e.appended)).isSome
  match pin with
  | some e => (n, .hop e.appended true e.outEff)
  | none => n.flexL2ResolveHop dest

/-- `flex_l2_contract`: the frame without the hop before the node, and the node's new place. -/
def flexL2Contract (port : ℕ) (f : L2Frame) (our : ℕ) (kind : L2Kind) :
    L2Node × Option (L2Frame × ℕ) :=
  match n.l2FindRev f.dest.toAxCall f.origin.toAxCall port, f.digis[our - 1]? with
  | some i, some prev =>
    let e := n.circuits i
    if !e.isOurHop prev then (n, none)
    else
      (n.setCircuit i (({ e with lastUsed := n.now }).noteCtl kind n.now),
        some (f.removeDigi (our - 1), our - 1))
  | _, _ => (n, none)

/-- A circuit with a next hop that is not pinned. -/
def repin (e : L2Circuit) (fresh : Bool) (nexthop : AxCall) (hopPort : ℕ) : L2Circuit :=
  let e := if !fresh && !e.appended.same nexthop then
    { e with prevAppended := e.appended, prevOutPort := e.outEff } else e
  { e with appended := nexthop, outPort := hopPort }

/-- The circuit of a forward frame, made when there is none. -/
def l2Entry (port : ℕ) (f : L2Frame) (e : Option L2Slot) : L2Node × Option L2Slot :=
  match e with
  | some i => (n, some i)
  | none => n.l2Find f.origin.toAxCall f.dest.toAxCall port true

/-- `flex_l2_extend`. -/
def flexL2Extend (port : ℕ) (f : L2Frame) (e : Option L2Slot) (nexthop : AxCall) (pinned : Bool)
    (hopPort : ℕ) (kind : L2Kind) : L2Node × Option L2Frame :=
  match n.l2Entry port f e with
  | (n, none) => (n, none)
  | (n, some i) =>
    let c := n.circuits i
    let fresh := e.isNone || c.appended.isEmpty
    match f.appendDigi nexthop with
    | none => (if fresh then n.setCircuit i { c with active := false } else n, none)
    | some f' =>
      let c := if pinned then c else repin c fresh nexthop hopPort
      (n.setCircuit i (({ c with lastUsed := n.now }).noteCtl kind n.now), some f')

/-- `flex_l2_peer_port`: the arrival port if the neighbour has a session on it, else the one with
the cheapest link. -/
def flexL2PeerPort (ax : AxCall) (arrive : ℕ) : ℕ :=
  let found := slots.filter fun i =>
    (n.sessions i).active && !(n.sessions i).peerCallsign.isEmpty &&
    (n.sessions i).peerCallsign.same ax
  if found.any fun i => (n.sessions i).port == arrive then arrive
  else (found.foldl (fun (best : ℕ × ℤ) i =>
    let lt := if 0 < (n.sessions i).ourLinkTime then (n.sessions i).ourLinkTime else rttInfinity
    if best.1 = 0 ∨ lt < best.2 then ((n.sessions i).port, lt) else best) (0, 0)).1

/-- `flex_port_carries_flexnet`. -/
def flexPortCarriesFlexnet (port : ℕ) : Bool :=
  n.flexPorts.contains port ||
    slots.any fun i => (n.sessions i).active && (n.sessions i).port == port

/-- `flex_l2_note_adjacent`. -/
def flexL2NoteAdjacent (arrive : ℕ) (f : L2Frame) (e : Option L2Slot) (hopPort : ℕ)
    (kind : L2Kind) : L2Node :=
  match n.l2Entry arrive f e with
  | (n, none) => n
  | (n, some i) =>
    n.setCircuit i
      (({ n.circuits i with outPort := hopPort, lastUsed := n.now }).noteCtl kind n.now)

/-- `flex_l2_choose_port`. -/
def flexL2ChoosePort (arrive : ℕ) (f : L2Frame) (our : ℕ) : L2Node × ℕ :=
  let next := (f.digis[our + 1]?).getD f.dest
  let extNext := n.cfg.flexL2ExternalPort next
  if !(n.cfg.crossportActive || extNext != 0 || n.cfg.flexL2ExternalPort f.dest != 0 ||
      n.cfg.flexL2ExternalPort f.origin != 0) then (n, 0)
  else
    let rev := n.l2FindRev f.dest.toAxCall f.origin.toAxCall arrive
    let (n, fwd) := n.l2Find f.origin.toAxCall f.dest.toAxCall arrive false
    let out := flexL2OutPort arrive (rev.elim 0 fun i => (n.circuits i).port)
      (fwd.elim 0 fun i => (n.circuits i).outEff) extNext (n.flexL2PeerPort next.toAxCall arrive)
    if out = arrive then (n, 0)
    else if n.digiFlag arrive = some 0 ∨ n.digiFlag out = none then (n, 0)
    else (n, out)

/-- The frame with the port it leaves on. -/
def withPort (port : ℕ) (f : L2Frame) (our : ℕ) : L2Node × Option L2Out :=
  let (n, out) := n.flexL2ChoosePort port f our
  (n, some ⟨f, our, out⟩)

/-- A frame of a station the node forwards for: a neighbour of the port, a frame with another
digipeater, an external station, or any frame on a FlexNet port with `FLEXNETCROSSPORT`. -/
def l2Carries (port : ℕ) (f : L2Frame) : Bool :=
  n.flexNetIsPeerFlexNetMapped f.origin.toAxCall port || decide (2 ≤ f.digis.length) ||
    n.cfg.flexL2ExternalPort f.dest != 0 || n.cfg.flexL2ExternalPort f.origin != 0 ||
    (n.cfg.crossportActive && n.flexPortCarriesFlexnet port)

/-- `flex_l2_self_repeated`. -/
def flexL2SelfRepeated (f : L2Frame) (our : ℕ) (ourDigi : L2Addr) : Bool :=
  (f.digis.take our).any fun d => d.repeated && d.toAxCall.same ourDigi.toAxCall

/-- The most digipeaters a frame of the port may have. -/
def l2Cap (port : ℕ) : ℕ :=
  if n.portMaxDigis port = 0 then l2MaxDigis else min (n.portMaxDigis port) l2MaxDigis

/-- The forward path of `FlexNet_L2Transit`: the node is the last digipeater. -/
def forwardL2 (port : ℕ) (f : L2Frame) (our : ℕ) (ourDigi : L2Addr) (kind : L2Kind) :
    L2Node × Option L2Out :=
  let asIs : L2Out := ⟨f, our, 0⟩
  let (n, e) := n.l2Find f.origin.toAxCall f.dest.toAxCall port false
  if e.isSome && flexL2SelfRepeated f our ourDigi then (n, none)
  else match n.flexL2PickHop e kind f.dest.toAxCall with
    | (n, .declined) => n.withPort port f our
    | (n, .adjacent hopPort) =>
      let n := if hopPort ≠ 0 ∧ hopPort ≠ port ∧
          (n.cfg.crossportActive = true ∨ n.cfg.flexL2ExternalPort f.dest ≠ 0) then
        n.flexL2NoteAdjacent port f e hopPort kind else n
      n.withPort port f our
    | (n, .hop nexthop pinned hopPort) =>
      if f.callInChain nexthop then (n, some asIs)
      else if hopPort ≠ port ∧ n.cfg.crossportActive = false then (n, some asIs)
      else if n.l2Cap port ≤ f.digis.length then (n, some asIs)
      else match n.flexL2Extend port f e nexthop pinned hopPort kind with
        | (n, none) => (n, some asIs)
        | (n, some f) => n.withPort port f our

/-- `FlexNet_L2Transit` on a frame whose digipeater `our` is the node; no result is a frame that has
looped back. -/
def flexNetL2Transit (port : ℕ) (f : L2Frame) (our : ℕ) : L2Node × Option L2Out :=
  let asIs : L2Out := ⟨f, our, 0⟩
  if !n.cfg.transit || !n.cfg.l2Transit then (n, some asIs)
  else if !n.l2Carries port f then (n, some asIs)
  else match f.tail.head?, f.digis[our]? with
    | some ctl, some ourDigi =>
      let kind := flexL2CtlKind ctl
      if l2MaxDigis < f.digis.length then (n, some asIs)
      else match (if 1 ≤ our then n.flexL2Contract port f our kind else (n, none)) with
        | (n, some (f, our)) => n.withPort port f our
        | (n, none) =>
          if our + 1 ≠ f.digis.length then n.withPort port f our
          else n.forwardL2 port f our ourDigi kind
    | _, _ => (n, some asIs)

end L2Node

end FlexNet
