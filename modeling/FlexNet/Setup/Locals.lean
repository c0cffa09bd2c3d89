import FlexNet.Setup.Directives
import FlexNet.Node.Advertise

/-!
# What a node hosts

`FlexNet_Init` settles the local calls of the text against the applications and the ports there are.
From then on the configuration is fixed.
-/

namespace FlexNet

/-! ## The own range -/

/-- `flex_own_ssid_range`, with the SSID of the node. -/
def flexOwnSsidRange (range : Option (ℤ × ℤ)) (ssid : ℤ) : ℤ × ℤ :=
  match range with
  | none => (ssid, ssid)
  | some (lo, hi) => (min lo ssid, max hi ssid)

/-! ## The local calls -/

/-- `flex_local_collect_apps`: the application calls that are not on the node's base. -/
def flexLocalCollectApps (mybase : CStr) (appls : List CStr) (ls : List LocalCall) :
    List LocalCall :=
  appls.foldl (fun ls call => match flexSplitCall call with
    | none => ls
    | some (base, ssid) =>
      if strcasecmp base mybase then ls else (flexLocalAdd base ssid ls).getD ls) ls

/-- An application answers the call. -/
def answers (appls : List CStr) (base : CStr) (ssid : ℤ) : Bool :=
  appls.any fun call => flexSplitCall call == some (base, ssid)

/-- The state that `flex_local_resolve` gives an entry. -/
def resolvedState (mybase : CStr) (ownLo ownHi : ℤ) (appls : List CStr) (l : LocalCall) :
    LocalState :=
  if strcasecmp l.base mybase && l.extPort == 0 then .nodeCall
  else if strcasecmp l.base mybase && decide (ownLo ≤ l.ssid ∧ l.ssid ≤ ownHi) then .ownRange
  else if l.extPort ≠ 0 then .bound
  else if answers appls l.base l.ssid then .bound
  else .unbound

/-- `flex_local_resolve`. -/
def flexLocalResolve (mybase : CStr) (ownLo ownHi : ℤ) (appls : List CStr) (ls : List LocalCall) :
    List LocalCall :=
  ls.map fun l => { l with state := resolvedState mybase ownLo ownHi appls l }

/-- The state of a station whose port there is not, or that L2 forwarding cannot reach. -/
def externalState (ports : ℕ → Bool) (forwards : Bool) (l : LocalCall) : LocalState :=
  if l.extPort = 0 ∨ l.state ≠ .bound then l.state
  else if !ports l.extPort then .noPort
  else if !forwards then .noFwd
  else .bound

/-- The calls of the application table, as callsigns. -/
def applCalls (table : List AxCall) : List CStr :=
  ((table.filter fun a => a.call.head?.any fun b => 0x40 < b).map flexNormalizeCallsign).filter
    fun call => !call.isEmpty

/-- `flex_local_init`. -/
def flexLocalInit (d : Directives) (myCall : AxCall) (table : List AxCall) (ports : ℕ → Bool) :
    List LocalCall :=
  if d.locals.isEmpty && !d.localApps then d.locals
  else
    let mybase := (flexNormalizeCallsign myCall).takeWhile (· != 0x2D)
    let appls := applCalls table
    let ls := if d.localApps then flexLocalCollectApps mybase appls d.locals else d.locals
    let (ownLo, ownHi) := flexOwnSsidRange d.ssidRange ((myCall.ssid >>> 1) &&& 0x0F).toNat
    (flexLocalResolve mybase ownLo ownHi appls ls).map fun l =>
      { l with state := externalState ports (d.transit && d.l2Transit) l }

/-- What BPQ has when FlexNet starts: the node call, the application table, the ports there are, the
size of the link table, and the buffers it finds. -/
structure Host where
  myCall : AxCall
  table : List AxCall
  ports : ℕ → Bool
  maxLinks : ℕ
  getBuff : Slot → ℕ → Bool

/-- `FlexNet_Init`, with the text of `bpq32.cfg`. -/
def flexNetInit (text : Option CStr) (h : Host) : Config :=
  let d := Directives.flexLoadConfig text
  { myCall := h.myCall
    ssidRange := d.ssidRange
    locals := flexLocalInit d h.myCall h.table h.ports
    transit := d.transit
    l2Transit := d.l2Transit
    crossport := d.crossport
    lt3byte := d.lt3byte
    pcfQuiesce := d.pcfQuiesce
    maxLinks := h.maxLinks
    getBuff := h.getBuff }

/-! ## Delivery -/

namespace Config

variable (cfg : Config)

/-- `flex_local_find`: the advertised entry that a call names. -/
def flexLocalFind (call : CStr) : Option LocalCall :=
  (flexSplitCall call).bind fun (base, ssid) =>
    cfg.locals.find? fun l => l.state == .bound && decide (l.ssid = ssid) && l.base == base

/-- `flex_call_in_own_range`: the call is on the node's base, with an SSID of the own range other
than the node's. -/
def flexCallInOwnRange (call : CStr) : Bool :=
  let (own, mySsid) := cfg.ownBaseCall
  let (base, suffix) := splitFirstDash call
  !call.isEmpty && !own.isEmpty && strcasecmp base own && decide (ssidOf suffix ≠ mySsid) &&
    decide (cfg.ownSsidRange.1 ≤ ssidOf suffix ∧ ssidOf suffix ≤ cfg.ownSsidRange.2)

/-- `FlexNet_IsLocalCall`. -/
def flexNetIsLocalCall (a : AxCall) : Bool :=
  let call := flexNormalizeCallsign a
  match cfg.flexLocalFind call with
  | some l => l.extPort == 0
  | none => cfg.flexCallInOwnRange call

end Config

end FlexNet
