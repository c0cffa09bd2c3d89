import FlexNet.Wire.Compact
import FlexNet.Lib.KeyedTable
import FlexNet.Lib.Sweep
import Mathlib.Data.Rat.Defs
import Mathlib.Data.Rat.Floor

/-!
# The state of a FlexNet node

The tables of `FlexNetCode.c`, indexed by session slot as in the source: `FlexNetSessions[]`,
`FlexNetLearned[]`, `FlexNetAdvertised[]`, `g_link_opts[]`, `FlexNetDests[]`, and BPQ's link
table.  The state is split in two.  `Env` is what the decision rule of the advertiser reads;
`Peer` is what it writes for one peer: the advertised table, the quiesce latch, and the
transmit queue.  Everything else hangs off `Node`.

Time is the `time_t` of the source, an integer with `0` for "never".  One event of the node
sees one value of the clock.
-/

namespace FlexNet

/-- An index into the session tables; `FLEXNET_MAX_SESSIONS` is 8. -/
abbrev Slot := Fin 8

/-- The slots in the order the source's loops visit them. -/
def slots : List Slot := List.finRange 8

theorem nodup_slots : slots.Nodup := List.nodup_finRange 8

@[simp] theorem mem_slots (s : Slot) : s ∈ slots := List.mem_finRange s

/-- An index into BPQ's `LINKS[]`; a `LINKTABLE *` of the source. -/
abbrev LinkId := ℕ

/-! ## Configuration -/

/-- The `FLEX_LOPT_*` bits. -/
structure LinkOpts where
  noNbr : Bool := false
  noBehind : Bool := false
  ownOnly : Bool := false
  penalty : Bool := false
  hidden : Bool := false
deriving DecidableEq

/-- The `FLEX_LOCAL_*` states of a local call. -/
inductive LocalState
  | unchecked | bound | unbound | nodeCall | noPort | noFwd | ownRange
deriving DecidableEq

/-- A `FLEXNETLOCAL` or `FLEXNETEXTERNAL` entry after `flex_local_init`; `extPort` 0 is a local
call. -/
structure LocalCall where
  base : CStr
  ssid : ℤ
  state : LocalState
  extPort : ℕ
deriving DecidableEq

/-- What `FlexNet_Init` leaves behind: the node call, the directives, the local calls, and the
size of BPQ's link table.  `getBuff s i` says whether the `i`-th `GetBuff()` made to send a frame
to slot `s` finds a buffer. -/
structure Config where
  myCall : AxCall
  ssidRange : Option (ℤ × ℤ) := none
  locals : List LocalCall := []
  transit : Bool := false
  l2Transit : Bool := false
  crossport : Bool := false
  lt3byte : Bool := false
  pcfQuiesce : Bool := true
  maxLinks : ℕ := 0
  getBuff : Slot → ℕ → Bool := fun _ _ => true

/-! ## Links and sessions -/

/-- A row of BPQ's link table, as far as FlexNet looks at it.  `port` is
`LINKPORT->PORTNUMBER`, none for a NULL `LINKPORT`; `hasDigis` is `DIGIS[0] != 0`. -/
structure Link where
  linkCall : AxCall := .zero
  ourCall : AxCall := .zero
  l2State : ℤ := 0
  flexNetLink : Bool := false
  port : Option ℕ := none
  hasDigis : Bool := false
deriving DecidableEq

/-- `struct FLEXNET_SESSION`, less the quiesce latch, which is in `Peer`. -/
structure Session where
  link : Option LinkId := none
  port : ℕ := 0
  active : Bool := false
  gotPeerInit : Bool := false
  flexEstInferred : Bool := false
  sentRoutes : Bool := false
  peerMaxSsid : ℤ := 0
  keepaliveCount : ℕ := 0
  peerLinkTime : ℕ := 0
  peerLtCount : ℕ := 0
  ourLinkTime : ℤ := 0
  ltSmoothed10ms : UInt32 := 0
  ltTxTick : UInt32 := 0
  ltSampleCount : UInt32 := 0
  ltTxPending : Bool := false
  lastKeepalive : ℤ := 0
  sessionStart : ℤ := 0
  peerKaLen : ℕ := 0
  peerKaTerm : UInt8 := 0
  lastLtTx : ℤ := 0
  lastInitTx : ℤ := 0
  peerCallsign : AxCall := .zero
deriving DecidableEq

/-! ## What neighbours taught us -/

/-- `struct FLEXNET_LEARNED_ROUTE`. -/
structure LearnedRoute where
  key : Key
  rttAtNeighbour : ℤ
  lastHeard : ℤ
  isDirectNeighbour : Bool
deriving DecidableEq

/-- `struct FLEXNET_LEARNED_STATE`. -/
structure LearnedState where
  routes : List LearnedRoute := []
  lastAdvert : ℤ := 0
  ltAnchor : ℤ := 0
  peerCall : CStr := []
  diedAt : ℤ := 0
deriving DecidableEq

/-- `FLEXNET_MAX_LEARNED_PER_NEIGHBOUR`. -/
def maxLearned : ℕ := 256

namespace LearnedState

/-- The learned route for a key. -/
def find (st : LearnedState) (k : Key) : Option LearnedRoute :=
  KeyedTable.lookup LearnedRoute.key st.routes k

/-- Write a route back to its slot, or append it. -/
def put (st : LearnedState) (lr : LearnedRoute) : LearnedState :=
  { st with routes := KeyedTable.store LearnedRoute.key lr st.routes }

@[simp] theorem find_put_self {st : LearnedState} {lr : LearnedRoute} :
    (st.put lr).find lr.key = some lr := KeyedTable.lookup_store_self

theorem find_put_of_ne {st : LearnedState} {lr : LearnedRoute} {k : Key} (h : k ≠ lr.key) :
    (st.put lr).find k = st.find k := KeyedTable.lookup_store_of_ne h

theorem put_put {st : LearnedState} {lr lr' : LearnedRoute} (h : lr.key = lr'.key) :
    (st.put lr).put lr' = st.put lr' := by
  simp [put, KeyedTable.store_store h]

end LearnedState

/-! ## What we told a peer -/

/-- `struct FLEXNET_ADVERTISED_ROUTE`. -/
structure AdvRoute where
  key : Key
  lastRtt : ℤ := -1
  lastAt : ℤ := 0
  pending : Bool := false
  pendingRtt : ℤ := 0
  pendingPen : ℤ := 0
  lastPen : ℤ := 0
  rttFloor : ℤ := -1
  climbSteps : ℕ := 0
  looping : Bool := false
deriving DecidableEq

/-- `struct FLEXNET_ADVERTISED_STATE`.  The bucket's fractional credit is an exact rational. -/
structure AdvertisedState where
  advs : List AdvRoute := []
  tokens : ℚ := 0
  lastTokensRefill : ℤ := 0
  eobPending : Bool := false
  eobEmptySince : ℤ := 0
deriving DecidableEq

/-- `FLEXNET_MAX_ADVERTISED_PER_PEER`. -/
def maxAdvertised : ℕ := 256

namespace AdvertisedState

/-- `flex_adv_find` without `create`. -/
def find (st : AdvertisedState) (k : Key) : Option AdvRoute :=
  KeyedTable.lookup AdvRoute.key st.advs k

/-- Write an entry back to its slot, or append it. -/
def put (st : AdvertisedState) (a : AdvRoute) : AdvertisedState :=
  { st with advs := KeyedTable.store AdvRoute.key a st.advs }

end AdvertisedState

/-- What happens to a peer's transmit queue.  `cleared` marks the moments the peer's advertised
table was zeroed; the source keeps no such mark. -/
inductive WireEvent
  | frame (pid : UInt8) (data : CStr)
  | cleared
deriving DecidableEq

/-- Everything the advertiser keeps for one peer: its advertised table, the quiesce latch of its
session, the frames queued to it, oldest first, and the number of buffers asked for. -/
structure Peer where
  adv : AdvertisedState := {}
  pcfQuiesced : Bool := false
  quiescedSince : ℤ := 0
  wire : List WireEvent := []
  getBuffCalls : ℕ := 0
deriving DecidableEq

/-! ## The destination table -/

/-- `struct FLEXNET_DEST_ENTRY`; `path` are its `path_hops`. -/
structure DestEntry where
  key : Key
  rtt : ℤ
  isInfinity : Bool
  viaCallsign : Callsign := .empty
  port : ℕ := 0
  viaSession : Option Slot := none
  lastUpdated : ℤ := 0
  path : List Callsign := []
  pathUpdated : ℤ := 0
deriving DecidableEq

/-- `FLEXNET_MAX_DESTS`. -/
def maxDests : ℕ := 2000

/-! ## The node -/

/-- An F-flagged or plain entry of an AXIP port's MAP table. -/
structure ArpEntry where
  callsign : AxCall
  flexNetFlag : Bool
  flexNetOpts : LinkOpts
deriving DecidableEq

/-- An AXIP port with its MAP table. -/
structure AxipPort where
  port : ℕ
  arpTable : List ArpEntry
deriving DecidableEq

/-- `struct FLEXNET_PORT_LINK`: a `FLEXNETLINK=` declaration and its keeper's state. -/
structure PortLink where
  port : ℕ
  axcall : AxCall
  opts : LinkOpts
  usable : Bool
  wasUp : Bool := false
  backoff : ℤ := 0
  nextTry : ℤ
deriving DecidableEq

/-- The tables the decision rule reads. -/
structure Env where
  cfg : Config
  now : ℤ
  links : LinkId → Link
  sessions : Slot → Session
  learned : Slot → LearnedState
  linkOpts : Slot → LinkOpts

/-- A FlexNet node.  `ticks` is the 10 ms counter of `flex_get_ticks_10ms`. -/
structure Node extends Env where
  ticks : UInt32
  peers : Slot → Peer
  sessionCount : ℕ
  dests : List DestEntry
  axipPorts : List AxipPort
  portLinks : List PortLink
  nbrEntered : Slot → Bool
  reapBadSince : Slot → ℤ
  kaEchoAt : Slot → ℤ
  linkOptsPolled : ℤ
  lastProactiveInitScan : ℤ
  portLinkScanned : ℤ

namespace Node

/-- Write one peer. -/
def setPeer (n : Node) (p : Slot) (x : Peer) : Node :=
  { n with peers := Function.update n.peers p x }

/-- Write one session. -/
def setSession (n : Node) (s : Slot) (x : Session) : Node :=
  { n with sessions := Function.update n.sessions s x }

/-- Write one learned table. -/
def setLearned (n : Node) (s : Slot) (x : LearnedState) : Node :=
  { n with learned := Function.update n.learned s x }

/-- Write one row of the link table. -/
def setLink (n : Node) (l : LinkId) (x : Link) : Node :=
  { n with links := Function.update n.links l x }

@[simp] theorem setPeer_toEnv (n : Node) (p : Slot) (x : Peer) :
    (n.setPeer p x).toEnv = n.toEnv := rfl

@[simp] theorem setPeer_peers_self (n : Node) (p : Slot) (x : Peer) :
    (n.setPeer p x).peers p = x := Function.update_self ..

theorem setPeer_peers_of_ne {p q : Slot} (n : Node) (x : Peer) (h : q ≠ p) :
    (n.setPeer p x).peers q = n.peers q := Function.update_of_ne h ..

@[simp] theorem setPeer_peers (n : Node) (p : Slot) (x : Peer) :
    (n.setPeer p x).peers = Function.update n.peers p x := rfl

@[simp] theorem setPeer_self (n : Node) (p : Slot) : n.setPeer p (n.peers p) = n := by
  simp [setPeer]

@[simp] theorem setSession_sessions_self (n : Node) (s : Slot) (x : Session) :
    (n.setSession s x).sessions s = x := Function.update_self ..

theorem setSession_sessions_of_ne {s i : Slot} (n : Node) (x : Session) (h : i ≠ s) :
    (n.setSession s x).sessions i = n.sessions i := Function.update_of_ne h ..

@[simp] theorem setSession_peers (n : Node) (s : Slot) (x : Session) :
    (n.setSession s x).peers = n.peers := rfl

@[simp] theorem setLearned_peers (n : Node) (s : Slot) (x : LearnedState) :
    (n.setLearned s x).peers = n.peers := rfl

@[simp] theorem setLink_peers (n : Node) (l : LinkId) (x : Link) :
    (n.setLink l x).peers = n.peers := rfl

/-- A node as `FlexNet_Init` leaves it, at time `now`. -/
def boot (cfg : Config) (axipPorts : List AxipPort) (portLinks : List PortLink)
    (links : LinkId → Link) (now : ℤ) : Node where
  cfg := cfg
  now := now
  ticks := 0
  links := links
  sessions := fun _ => {}
  learned := fun _ => {}
  linkOpts := fun _ => {}
  peers := fun _ => {}
  sessionCount := 0
  dests := []
  axipPorts := axipPorts
  portLinks := portLinks
  nbrEntered := fun _ => false
  reapBadSince := fun _ => 0
  kaEchoAt := fun _ => 0
  linkOptsPolled := 0
  lastProactiveInitScan := 0
  portLinkScanned := 0

end Node

end FlexNet
