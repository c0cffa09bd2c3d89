import FlexNet.Node.Process

/-!
# Events

The entry points of `FlexNetCode.c`, with what the rest of BPQ may do between two of them: time
passes, a row of the link table is written, the MAP table is read again.  A run of the node is a
list of events in any order.
-/

namespace FlexNet

/-! ## The path layer -/

/-- `FLEXNET_PID_CF`. -/
def pidCF : UInt8 := 0xCF

namespace Node

variable (n : Node)

/-- `flex_session_for_call`. -/
def flexSessionForCall (call : CStr) : Option Slot :=
  if call.isEmpty then none
  else slots.find? fun i => (n.sessions i).active && !(n.sessions i).peerCallsign.isEmpty &&
    strcasecmp (flexNormalizeCallsign (n.sessions i).peerCallsign) call

/-- The next hop of a row, healed from its `via_callsign` when its session is gone. -/
def healedVia (d : DestEntry) : Option Slot :=
  match d.viaSession with
  | some i => if (n.sessions i).active then some i else n.flexSessionForCall d.viaCallsign.bytes
  | none => n.flexSessionForCall d.viaCallsign.bytes

/-- Forwarding and path probes heal the row they look at. -/
def healDest (i : ℕ) : Node :=
  { n with dests := n.dests.modify i fun d =>
      match n.healedVia d with
      | none => d
      | some s => { d with viaSession := some s } }

/-- `flex_path_cache_load` on one line of the file that passes its checks: a known row takes the
chain, an unknown one is appended at infinity. -/
def loadPathRow (k : Key) (path : List Callsign) (updated : ℤ) : Node :=
  match flexFindDest n.dests k with
  | some i =>
    { n with dests := n.dests.modify i fun d => { d with path := path, pathUpdated := updated } }
  | none =>
    if n.dests.length < maxDests then
      { n with dests := n.dests ++ [⟨k, rttInfinity, false, .empty, 0, none, 0, path, updated⟩] }
    else n

/-- A frame of the path layer, to a session with a link. -/
def sendPath (s : Slot) (pid : UInt8) (data : CStr) : Node :=
  if (n.sessions s).active && (n.sessions s).link.isSome then n.flexSendFrame s pid data else n

end Node

/-! ## Runs of the node -/

/-- What can happen to a node. -/
inductive Event
  /-- time passes -/
  | clock (seconds : ℕ) (ticks : UInt32)
  /-- BPQ writes a row of its link table -/
  | row (l : LinkId) (x : Link)
  /-- the MAP tables are read again -/
  | mapTable (ports : List AxipPort)
  | initSession (l : LinkId) (port : ℕ)
  | closeSession (l : LinkId)
  | notePeerL2Restart (call : AxCall) (port : ℕ)
  | tryAdoptSession (l : LinkId) (port : ℕ)
  /-- the hook on an accepted SABM -/
  | sabm (l : LinkId) (port : ℕ)
  | processCE (l : LinkId) (data : CStr)
  /-- the dispatch of a received CE frame -/
  | ceReceived (l : LinkId) (port : ℕ) (data : CStr)
  | timer
  /-- a row's next hop is healed -/
  | heal (i : ℕ)
  /-- the path cache is read on the first tick -/
  | pathCache (rows : List (Key × List Callsign × ℤ))
  /-- a path request or reply is sent -/
  | pathFrame (s : Slot) (reply : Bool) (body : CStr)
  /-- a frame of the L3 layer is sent -/
  | l3Frame (s : Slot) (data : CStr)

namespace Node

/-- One event. -/
def event (n : Node) : Event → Node
  | .clock seconds ticks => { n with now := n.now + seconds, ticks := ticks }
  | .row l x => n.setLink l x
  | .mapTable ports => { n with axipPorts := ports }
  | .initSession l port => n.flexNetInitSession l port
  | .closeSession l => n.flexNetCloseSession l
  | .notePeerL2Restart call port => n.flexNetNotePeerL2Restart call port
  | .tryAdoptSession l port => (n.flexNetTryAdoptSession l port).1
  | .sabm l port => n.sabmAccepted l port
  | .processCE l data => n.flexNetProcessCE l data
  | .ceReceived l port data => n.ceReceived l port data
  | .timer => n.flexNetTimer
  | .heal i => n.healDest i
  | .pathCache rows => rows.foldl (fun n (k, path, updated) => n.loadPathRow k path updated) n
  | .pathFrame s reply body => n.sendPath s pidCE ((if reply then 0x37 else 0x36) :: body)
  | .l3Frame s data => n.sendPath s pidCF data

/-- The node after a list of events. -/
def after (n : Node) (events : List Event) : Node :=
  events.foldl Node.event n

end Node

/-! ## A small node

The concrete runs of this development start from one node `N` with the stations `A` and `B` on
two links of port 1. -/

namespace Bench

/-- The AX.25 address of a call of one letter. -/
def addr (letter : UInt8) (ssid : UInt8 := 0) : AxCall :=
  ⟨[letter <<< 1, 0x40, 0x40, 0x40, 0x40, 0x40], 0x60 + 2 * ssid, rfl⟩

/-- The node, with transit and forwarding on. -/
def config (pcfQuiesce : Bool) : Config where
  myCall := addr 0x4E
  transit := true
  l2Transit := true
  pcfQuiesce := pcfQuiesce
  maxLinks := 4

/-- A connected row. -/
def row (call : AxCall) : Link where
  linkCall := call
  ourCall := addr 0x4E
  l2State := 5
  port := some 1

/-- `A` in row 0 and `B` in row 1. -/
def links : LinkId → Link
  | 0 => row (addr 0x41)
  | 1 => row (addr 0x42)
  | _ => {}

/-- The node with both sessions started: slot 0 is `A`, slot 1 is `B`. -/
def node (pcfQuiesce : Bool) : Node :=
  (Node.boot (config pcfQuiesce) [] [] links 1000).after [.initSession 0 1, .initSession 1 1]

/-- The session with `A`. -/
def slotA : Slot := 0

/-- The session with `B`. -/
def slotB : Slot := 1

/-- The destination of a call of one letter. -/
def dest (letter : UInt8) : Key := ⟨.ofCStr [letter], 0, 0⟩

/-- A frame with one record, received on a link. -/
def record (l : LinkId) (letter : UInt8) (cost : ℤ) : Event :=
  .processCE l ([0x33] ++ recordOctets (dest letter) cost ++ [0x0D])

end Bench

end FlexNet
