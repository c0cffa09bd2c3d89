import FlexNet.Node.Advertise

/-!
# Learned routes and the destination table

What a record does when it arrives: `flex_learned_add` keeps the sender's own view of its
destinations and triggers the decision rule when a cost moved, `flex_dtable_merge` keeps the
node's next hops, and `flex_dest_reelect` chooses a next hop again from the learned tables.
-/

namespace FlexNet

/-! ## The destination table -/

/-- `flex_find_dest`: the first row for the call, ignoring case, and the SSID range. -/
def flexFindDest (dests : List DestEntry) (k : Key) : Option ℕ :=
  dests.findIdx? fun d =>
    strcasecmp d.key.call.bytes k.call.bytes && d.key.lo == k.lo && d.key.hi == k.hi

namespace Env

variable (e : Env)

/-- `flex_dest_cost_here`: a reported cost plus our link time to the session it came from. -/
def flexDestCostHere (rtt : ℤ) (via : Option Slot) : ℤ :=
  if rttInfinity ≤ rtt then rttInfinity
  else match via with
    | none => rtt
    | some s =>
      if (e.sessions s).active then
        let c := rtt + (e.sessions s).ourLinkTime
        if c < rttInfinity then c else rttInfinity - 1
      else rtt

/-- The best next hop found so far by `flex_dest_reelect`. -/
structure Hop where
  via : Option Slot := none
  eff : ℤ := rttInfinity
  here : ℤ := rttInfinity
deriving DecidableEq

/-- One turn of the loop of `flex_dest_reelect`; a tie keeps the incumbent. -/
def betterHop (d : DestEntry) (best : Hop) (si : Slot) : Hop :=
  if !(e.sessions si).active then best
  else match (e.learned si).find d.key with
    | none => best
    | some lr =>
      if lr.rttAtNeighbour ≤ 0 ∨ rttInfinity ≤ lr.rttAtNeighbour then best
      else
        let eff := flexLinkOptsCost (e.linkOpts si) lr.rttAtNeighbour
        let here := e.flexDestCostHere eff (some si)
        if here < best.here ∨ (here = best.here ∧ d.viaSession = some si) then
          ⟨some si, eff, here⟩
        else best

/-- `flex_dest_reelect`. -/
def flexDestReelect (d : DestEntry) : DestEntry :=
  let best := if e.cfg.transit then slots.foldl (e.betterHop d) {} else {}
  match best.via with
  | none =>
    { d with lastUpdated := e.now, rtt := rttInfinity, isInfinity := true, viaSession := none }
  | some si =>
    { d with
      lastUpdated := e.now
      rtt := best.eff
      isInfinity := false
      viaSession := some si
      port := (e.sessions si).port
      viaCallsign :=
        if (e.sessPeerCall si).isEmpty then d.viaCallsign else .ofCStr (e.sessPeerCall si) }

end Env

/-- A neighbour's table after a record: a known destination takes the new cost, a new one is
appended while there is room. -/
def LearnedState.heard (st : LearnedState) (r : Record) (now : ℤ) : LearnedState :=
  if r.key.call.isEmpty then st
  else match st.find r.key with
    | some lr => st.put { lr with rttAtNeighbour := r.rtt, lastHeard := now }
    | none =>
      if maxLearned ≤ st.routes.length then st
      else { st with routes := st.routes ++ [⟨r.key, r.rtt, now, false⟩] }

/-- What a record does to a neighbour's table. -/
theorem LearnedState.heard_cases (st : LearnedState) (r : Record) (now : ℤ) :
    st.heard r now = st ∨
      (∃ lr, st.find r.key = some lr ∧
        st.heard r now = st.put { lr with rttAtNeighbour := r.rtt, lastHeard := now }) ∨
      (st.find r.key = none ∧
        st.heard r now = { st with routes := st.routes ++ [⟨r.key, r.rtt, now, false⟩] }) := by
  unfold heard
  by_cases hempty : r.key.call.isEmpty
  · exact .inl (if_pos hempty)
  rw [if_neg hempty]
  cases st.find r.key with
  | some lr => exact .inr (.inl ⟨lr, rfl, rfl⟩)
  | none =>
      dsimp only
      split_ifs
      · exact .inl rfl
      · exact .inr (.inr ⟨rfl, rfl⟩)

namespace Node

variable (n : Node)

/-- `flex_dest_reelect_via`: the rows through one session, and finite rows through none. -/
def flexDestReelectVia (si : Slot) : Node :=
  { n with dests := n.dests.map fun d =>
      if d.viaSession = some si ∨ (d.viaSession = none ∧ d.rtt < rttInfinity) then
        n.toEnv.flexDestReelect d
      else d }

/-! ## What a neighbour taught us -/

/-- `flex_learned_add`: a known destination is updated, a new one appended while there is room;
a cost that moved triggers the decision rule at the other peers. -/
def flexLearnedAdd (s : Slot) (r : Record) : Node :=
  let st := n.learned s
  if r.key.call.isEmpty then n
  else match st.find r.key with
    | some lr =>
      let moved := { lr with rttAtNeighbour := r.rtt }
      let n :=
        if lr.rttAtNeighbour = r.rtt then n
        else (n.setLearned s (st.put moved)).triggerPeers s r.key
      n.setLearned s ((n.learned s).put { moved with lastHeard := n.now })
    | none =>
      if maxLearned ≤ st.routes.length then n
      else
        (n.setLearned s { st with
          routes := st.routes ++ [⟨r.key, r.rtt, n.now, false⟩] }).triggerPeers s r.key

/-- What learning a record does besides its triggers. -/
theorem onlyPeers_flexLearnedAdd (n : Node) (s : Slot) (r : Record) :
    (n.setLearned s ((n.learned s).heard r n.now)).OnlyPeers (n.flexLearnedAdd s r) := by
  have hsame : n.setLearned s (n.learned s) = n := by simp [setLearned]
  unfold flexLearnedAdd LearnedState.heard
  dsimp only
  by_cases hempty : r.key.call.isEmpty
  · rw [if_pos hempty, if_pos hempty]
    exact hsame.symm ▸ OnlyPeers.refl n
  rw [if_neg hempty, if_neg hempty]
  cases (n.learned s).find r.key with
  | none =>
      dsimp only
      split_ifs
      · exact hsame.symm ▸ OnlyPeers.refl n
      · exact onlyPeers_triggerPeersAll _ s [r.key]
  | some lr =>
      dsimp only
      split_ifs
      · exact .refl _
      · set moved : LearnedRoute := { lr with rttAtNeighbour := r.rtt }
        have htrigger := onlyPeers_triggerPeersAll
          (n.setLearned s ((n.learned s).put moved)) s [r.key]
        unfold OnlyPeers at htrigger ⊢
        rw [show (n.setLearned s ((n.learned s).put moved)).triggerPeers s r.key =
          (n.setLearned s ((n.learned s).put moved)).triggerPeersAll s [r.key] from rfl, htrigger]
        simp [setLearned, LearnedState.put_put, moved]

/-! ## Merging a record -/

/-- A row rewritten from a record heard from session `s`. -/
def rewriteDest (s : Slot) (r : Record) (eff : ℤ) (d : DestEntry) : DestEntry :=
  { d with
    rtt := eff
    isInfinity := r.isInfinity
    port := (n.sessions s).port
    viaSession := some s
    lastUpdated := n.now
    viaCallsign :=
      if (n.sessPeerCall s).isEmpty then d.viaCallsign else .ofCStr (n.sessPeerCall s) }

/-- `flex_dtable_merge`: a record heard from session `s`. -/
def flexDtableMerge (r : Record) (s : Slot) : Node :=
  if n.cfg.localCovers r.key then n
  else if r.rtt = 0 ∧ r.isInfinity = false then
    -- a refresh marker: the row is touched, its cost stands
    match flexFindDest n.dests r.key with
    | none => n
    | some i => { n with dests := n.dests.modify i fun d => { d with lastUpdated := n.now } }
  else
    let eff := flexLinkOptsCost (n.linkOpts s) r.rtt
    match flexFindDest n.dests r.key with
    | some i =>
      let d := n.dests.getD i ⟨r.key, 0, false, .empty, 0, none, 0, [], 0⟩
      let isCurrent := decide (d.viaSession = some s)
      let isBetter := decide
        (n.flexDestCostHere eff (some s) < n.flexDestCostHere d.rtt d.viaSession)
      let n :=
        if isCurrent || isBetter then { n with dests := n.dests.modify i (n.rewriteDest s r eff) }
        else n
      if !n.cfg.transit then n
      else
        let n := n.flexLearnedAdd s r
        if isCurrent then { n with dests := n.dests.modify i n.toEnv.flexDestReelect } else n
    | none =>
      if n.dests.length < maxDests then
        let d : DestEntry := ⟨r.key, eff, r.isInfinity, .empty, 0, none, 0, [], 0⟩
        let n := { n with dests := n.dests ++ [n.rewriteDest s r eff d] }
        if n.cfg.transit then n.flexLearnedAdd s r else n
      else n

/-- A merge writes the destination table, and may learn the record in between. -/
theorem flexDtableMerge_cases (n : Node) (r : Record) (s : Slot) :
    ∃ dests, n.flexDtableMerge r s = { n with dests := dests } ∨
      ∃ dests', n.flexDtableMerge r s =
        { ({ n with dests := dests } : Node).flexLearnedAdd s r with dests := dests' } := by
  unfold flexDtableMerge
  dsimp only
  by_cases hlocal : n.cfg.localCovers r.key
  · rw [if_pos hlocal]
    exact ⟨n.dests, .inl rfl⟩
  rw [if_neg hlocal]
  by_cases hmarker : r.rtt = 0 ∧ r.isInfinity = false
  · rw [if_pos hmarker]
    split
    · exact ⟨n.dests, .inl rfl⟩
    · exact ⟨_, .inl rfl⟩
  rw [if_neg hmarker]
  split
  · rename_i i _
    have hwritten : ∀ c : Bool, ∃ dests, (if c then
        { n with
          dests := n.dests.modify i (n.rewriteDest s r (flexLinkOptsCost (n.linkOpts s) r.rtt)) }
        else n : Node) = { n with dests := dests } := fun c => by
      cases c
      · exact ⟨n.dests, rfl⟩
      · exact ⟨_, rfl⟩
    obtain ⟨dests, hdests⟩ := hwritten _
    rw [hdests]
    split_ifs
    · exact ⟨dests, .inl rfl⟩
    · exact ⟨dests, .inr ⟨_, rfl⟩⟩
    · exact ⟨dests, .inr ⟨_, rfl⟩⟩
  · split_ifs
    · exact ⟨_, .inr ⟨_, rfl⟩⟩
    · exact ⟨_, .inl rfl⟩
    · exact ⟨n.dests, .inl rfl⟩

/-! ## The neighbour's own entry -/

/-- The highest SSID of an adopted entry of the neighbour, else its own. -/
def adoptedHi (s : Slot) (base : Callsign) (ssid : ℤ) : ℤ :=
  (((n.learned s).routes.find? fun lr =>
    lr.isDirectNeighbour && decide (lr.key.lo = ssid ∧ ssid ≤ lr.key.hi) &&
      decide (lr.key.call = base)).map fun lr => lr.key.hi).getD ssid

/-- The key `flex_add_neighbour_entry` enters: the link SSID up to the highest SSID the peer's
INIT declared. -/
def neighbourKey (s : Slot) : Key :=
  let (base, suffix) := splitFirstDash ((n.sessPeerCall s).take 9)
  let ssid := ssidOf suffix
  ⟨.ofCStr base, ssid,
    if (n.sessions s).gotPeerInit then max ssid (n.sessions s).peerMaxSsid
    else n.adoptedHi s (.ofCStr base) ssid⟩

/-- Flag the neighbour's own entry; nothing ever clears the flag. -/
def flagDirect (s : Slot) (k : Key) : Node :=
  match (n.learned s).find k with
  | none => n
  | some lr => n.setLearned s ((n.learned s).put { lr with isDirectNeighbour := true })

/-- `flex_add_neighbour_entry`: once a session, the neighbour enters the tables as a direct
destination of cost 1. -/
def flexAddNeighbourEntry (s : Slot) : Node :=
  if (n.sessions s).link.isNone then n
  else if n.nbrEntered s then n
  else
    let k := n.neighbourKey s
    let n := { n with nbrEntered := Function.update n.nbrEntered s true }
    let n := n.flexDtableMerge ⟨k, 1, false⟩ s
    if n.cfg.transit then n.flagDirect s k else n

end Node

end FlexNet
