import FlexNet.Advert.Refinement
import FlexNet.L2.Resolver
import FlexNet.Routing.LiveHops

/-!
# Outgoing connects

The connect command asks twice: `FlexNet_FindRoute` for the port, and then `FlexNet_GetNeighborCall`
for the digipeater, with what the first has found kept in two variables in between.  The first
overwrites both, so a lookup that was given up leaves nothing behind, and the neighbour named is the
one whose session the row names.  What is named is the callsign in the link row of that session,
though, and BPQ may have given the row to another station; and a callsign without a suffix finds the
row of any SSID.  `ConnectNode.names_iff` says when the neighbour that carries the route is named.
-/

namespace FlexNet

/-! ## The two lookups -/

/-- `flex_local_find`: the index of the entry. -/
def Config.flexLocalIndex (cfg : Config) (call : CStr) : Option ℕ :=
  (flexSplitCall call).bind fun (base, ssid) =>
    cfg.locals.findIdx? fun l => l.state == .bound && decide (l.ssid = ssid) && l.base == base

/-- `flex_local_format`. -/
def LocalCall.flexLocalFormat (l : LocalCall) : CStr :=
  if l.ssid ≠ 0 then l.base ++ 0x2D :: decimalInt l.ssid else l.base

/-- A node with the two variables the lookups share, `g_findroute_last_ext` and
`g_findroute_last_dest`; -1 is `none`. -/
structure ConnectNode extends PathNode where
  lastExt : Option ℕ := none
  lastDest : Option ℕ := none

namespace ConnectNode

variable (n : ConnectNode)

/-- `FlexNet_FindRoute`: the port, 0 when the target is no FlexNet destination. -/
def flexNetFindRoute (axcall : AxCall) : ConnectNode × ℕ :=
  match n.toPathNode.flexNetFindRoute axcall with
  | .external port =>
    let ext := n.cfg.flexLocalIndex (flexNormalizeCallsign axcall)
    ({ n with lastExt := ext, lastDest := none }, port)
  | .row best port => ({ n with lastExt := none, lastDest := some best }, port)
  | .notFlexNet => ({ n with lastExt := none, lastDest := none }, 0)

/-- The link row of a session on the port. -/
def linkOnPort (port : ℕ) (s : Slot) : Option LinkId :=
  if (n.sessions s).active ∧ (n.sessions s).port = port then (n.sessions s).link else none

/-- `FlexNet_GetNeighborCall` for a row: the row's own session, or the first one on the port. -/
def neighborOfRow (port : ℕ) : ConnectNode × Option AxCall :=
  match ((n.lastDest.bind fun i => n.dests[i]?).bind DestEntry.viaSession).bind
      (n.linkOnPort port) with
  | some l => ({ n with lastDest := none }, some (n.links l).linkCall)
  | none => (n, (slots.findSome? (n.linkOnPort port)).map fun l => (n.links l).linkCall)

/-- `FlexNet_GetNeighborCall`; `conv` is BPQ's `ConvToAX25`. -/
def flexNetGetNeighborCall (conv : CStr → Option AxCall) (port : ℕ) : ConnectNode × Option AxCall :=
  match n.lastExt.bind fun i => n.cfg.locals[i]? with
  | none => n.neighborOfRow port
  | some l =>
    let n := { n with lastExt := none }
    match conv l.flexLocalFormat with
    | some a => (n, some a)
    | none => n.neighborOfRow port

/-- The two lookups of the connect command, one after the other: the neighbour that is named. -/
def connect (conv : CStr → Option AxCall) (axcall : AxCall) : Option AxCall :=
  ((n.flexNetFindRoute axcall).1.flexNetGetNeighborCall conv (n.flexNetFindRoute axcall).2).2

/-! ## What should be named -/

/-- The session that carries the first of the cheapest rows of a kind. -/
def CarriedBy (P : DestEntry → Prop) (s : Slot) : Prop :=
  ∃ i d, n.FirstBest P i ∧ n.dests[i]? = some d ∧ d.viaSession = some s

/-- The neighbour of a session is the one an address names. -/
def IsPeer (a : AxCall) (s : Slot) : Prop :=
  flexNormalizeCallsign a = flexNormalizeCallsign (n.sessions s).peerCallsign

/-- The connect names the station itself when it is an external one, and otherwise the neighbour
whose session carries the cheapest row of the station. -/
structure NamesCarrier (conv : CStr → Option AxCall) (axcall : AxCall) : Prop where
  external : n.cfg.flexExternalPort (flexNormalizeCallsign axcall) ≠ 0 →
    ∃ a base, ∃ ssid : ℕ, n.connect conv axcall = some a ∧
      flexSplitCall (flexNormalizeCallsign axcall) = some (base, (ssid : ℤ)) ∧ a.Names base ssid
  row : n.cfg.flexExternalPort (flexNormalizeCallsign axcall) = 0 →
    ∃ a s, n.connect conv axcall = some a ∧
      n.CarriedBy (DestEntry.Addresses (flexNormalizeCallsign axcall)) s ∧
      (n.sessions s).active = true ∧ n.IsPeer a s

/-- A row the search takes for a text: of the SSID where one is written, and of any otherwise. -/
def Matches (call : CStr) : DestEntry → Prop :=
  DestEntry.Covers (splitFirstDash call).1 (((splitFirstDash call).2.map atoi).getD (-1))

/-- A finite row addresses the station, and the link row of the session that carries the text of it
is that of the neighbour that carries the station. -/
def CarriesItself (call : CStr) : Prop :=
  ∃ s t l, n.CarriedBy (DestEntry.Addresses call) s ∧ n.CarriedBy (Matches call) t ∧
    (n.sessions t).link = some l ∧ n.IsPeer (n.links l).linkCall s

variable {n} {conv : CStr → Option AxCall} {axcall : AxCall}

/-! ## What is named -/

/-- `ConvToAX25` makes an address of the text of a call. -/
def Encodes (conv : CStr → Option AxCall) : Prop :=
  ∀ base ssid, IsBase base → ssid ≤ 15 → ∃ a, conv (callText base ssid) = some a ∧ a.Names base ssid

theorem CarriedBy.unique {P : DestEntry → Prop} {s t : Slot} (hs : n.CarriedBy P s)
    (ht : n.CarriedBy P t) : s = t := by
  obtain ⟨i, d, hi, hd, hvia⟩ := hs
  obtain ⟨j, e, hj, he, hvia'⟩ := ht
  obtain rfl := hi.unique hj
  obtain rfl : d = e := Option.some.inj (hd.symm.trans he)
  exact Option.some.inj (hvia.symm.trans hvia')

/-- The parts of a call that `flex_split_call` takes apart. -/
theorem flexSplitCall_some {call base : CStr} {ssid : ℤ}
    (h : flexSplitCall call = some (base, ssid)) :
    IsBase base ∧ ∃ m : ℕ, ssid = m ∧ m ≤ 15 := by
  have hupper : ∀ b : UInt8, isAlnum b = true → isAlnum (toUpper b) = true :=
    L2Addr.forall_octet (P := fun b => isAlnum b = true → isAlnum (toUpper b) = true)
      (by decide +kernel)
  unfold flexSplitCall at h
  dsimp only at h
  split at h
  · cases h
  rename_i hbase
  rw [not_or, not_or, Bool.not_eq_false, List.all_eq_true] at hbase
  obtain ⟨hne, hshort, halnum⟩ := hbase
  have hisBase : IsBase ((call.takeWhile (· != 0x2D)).map toUpper) := by
    refine ⟨fun hnil => hne ?_, by rw [List.length_map]; omega, fun b hb => ?_⟩
    · rw [List.map_eq_nil_iff.mp hnil]
      rfl
    · obtain ⟨c, hc, rfl⟩ := List.mem_map.mp hb
      exact hupper c (halnum c hc)
  split at h
  · cases h
    exact ⟨hisBase, 0, rfl, Nat.zero_le _⟩
  · split at h
    · cases h
    · rename_i hdigits
      cases h
      exact ⟨hisBase, _, rfl, by omega⟩

/-- The text of an advertised entry. -/
theorem flexLocalFormat_eq {l : LocalCall} {base : CStr} {ssid : ℕ} (hbase : l.base = base)
    (hssid : l.ssid = ssid) : l.flexLocalFormat = callText base ssid := by
  unfold LocalCall.flexLocalFormat callText
  rw [hbase, hssid]
  by_cases hzero : ssid = 0
  · simp [hzero]
  · rw [if_pos (by simpa using hzero), if_neg hzero]
    simp [decimalInt]

theorem connect_external (hconv : Encodes conv)
    (hext : n.cfg.flexExternalPort (flexNormalizeCallsign axcall) ≠ 0) :
    ∃ a base, ∃ ssid : ℕ, n.connect conv axcall = some a ∧
      flexSplitCall (flexNormalizeCallsign axcall) = some (base, (ssid : ℤ)) ∧
        a.Names base ssid := by
  have hroute : n.toPathNode.flexNetFindRoute axcall =
      .external (n.cfg.flexExternalPort (flexNormalizeCallsign axcall)) := if_pos hext
  unfold connect flexNetFindRoute
  rw [hroute]
  dsimp only
  generalize flexNormalizeCallsign axcall = call at hext
  cases hsplit : flexSplitCall call with
  | none =>
      unfold Config.flexExternalPort at hext
      rw [hsplit] at hext
      exact absurd rfl hext
  | some parts =>
      obtain ⟨base, ssid⟩ := parts
      obtain ⟨hb, ssid, rfl, hssid⟩ := flexSplitCall_some hsplit
      have hindex : ∃ i l, n.cfg.flexLocalIndex call = some i ∧ n.cfg.locals[i]? = some l ∧
          l.ssid = ssid ∧ l.base = base := by
        unfold Config.flexExternalPort at hext
        unfold Config.flexLocalIndex
        rw [hsplit, Option.bind_some] at hext ⊢
        dsimp only at hext ⊢
        cases hfind : n.cfg.locals.find? fun l =>
            l.state == .bound && decide (l.ssid = (ssid : ℤ)) && l.base == base with
        | none =>
            rw [hfind] at hext
            exact absurd rfl hext
        | some l =>
            have hsome := @List.findIdx?_isSome _ n.cfg.locals fun l : LocalCall =>
              l.state == .bound && decide (l.ssid = (ssid : ℤ)) && l.base == base
            rw [List.any_eq_true.mpr ⟨l, List.mem_of_find?_eq_some hfind, List.find?_some hfind⟩]
              at hsome
            obtain ⟨i, hi⟩ := Option.isSome_iff_exists.mp hsome
            obtain ⟨hlt, hmatch, -⟩ := List.findIdx?_eq_some_iff_getElem.mp hi
            simp only [Bool.and_eq_true, decide_eq_true_eq, beq_iff_eq] at hmatch
            exact ⟨i, _, hi, List.getElem?_eq_getElem hlt, hmatch.1.2, hmatch.2⟩
      obtain ⟨i, l, hi, hl, hlssid, hlbase⟩ := hindex
      obtain ⟨a, ha, hnames⟩ := hconv base ssid hb hssid
      refine ⟨a, base, ssid, ?_, rfl, hnames⟩
      unfold flexNetGetNeighborCall
      dsimp only
      rw [hi, Option.bind_some, hl]
      dsimp only
      rw [flexLocalFormat_eq hlbase hlssid, ha]

/-- The resolver finds the first of the cheapest rows its text matches. -/
theorem firstBest_of_found {call : CStr} {i : ℕ} (h : n.flexFindDestForTarget call = some i) :
    n.FirstBest (Matches call) i := by
  unfold PathNode.flexFindDestForTarget at h
  split at h
  · cases h
  · exact PathNode.flexFindBestDest_eq_some.mp h

theorem found_of_firstBest {call : CStr} {i : ℕ} (hne : call ≠ [])
    (h : n.FirstBest (Matches call) i) : n.flexFindDestForTarget call = some i := by
  unfold PathNode.flexFindDestForTarget
  rw [if_neg (by simpa using hne)]
  exact PathNode.flexFindBestDest_eq_some.mpr h

/-- The row that was found, and the session that carries it. -/
theorem connect_row (conv : CStr → Option AxCall) (hlive : n.toNode.LiveHops)
    (hlinked : n.toNode.Linked)
    (hext : n.cfg.flexExternalPort (flexNormalizeCallsign axcall) = 0)
    (hport : 0 < (n.flexNetFindRoute axcall).2) :
    ∃ t l, n.CarriedBy (Matches (flexNormalizeCallsign axcall)) t ∧
      (n.sessions t).link = some l ∧ n.connect conv axcall = some (n.links l).linkCall := by
  have hroute : n.toPathNode.flexNetFindRoute axcall ≠ .notFlexNet := by
    intro hnone
    unfold flexNetFindRoute at hport
    rw [hnone] at hport
    exact absurd hport (lt_irrefl 0)
  unfold connect flexNetFindRoute
  unfold PathNode.flexNetFindRoute at hroute ⊢
  dsimp only at hroute ⊢
  rw [if_neg (not_not.mpr hext)] at hroute ⊢
  generalize flexNormalizeCallsign axcall = call at hroute ⊢
  cases hfound : n.flexFindDestForTarget call with
  | none =>
      rw [hfound] at hroute
      exact absurd rfl hroute
  | some i =>
      have hbest := firstBest_of_found hfound
      have hbest' := hbest
      obtain ⟨d, hd, hmatches, -⟩ := hbest'
      obtain ⟨-, t, hvia, hup, hsame⟩ := hlive d (List.mem_of_getElem? hd) hmatches.finite
      obtain ⟨l, hl⟩ := Option.isSome_iff_exists.mp (hlinked t hup)
      refine ⟨t, l, ⟨i, d, hbest, hd, hvia⟩, hl, ?_⟩
      dsimp only
      rw [hd]
      dsimp only
      unfold flexNetGetNeighborCall neighborOfRow linkOnPort
      dsimp only
      rw [Option.bind_none, Option.bind_some, hd, Option.bind_some, hvia, Option.bind_some,
        if_pos ⟨hup, hsame.symm⟩, hl]

/-- Where the text finds the station's own row, only the link row of its session matters. -/
theorem carriesItself_iff {call base : CStr} {ssid : ℤ}
    (hsplit : flexSplitCall call = some (base, ssid)) (hexact : n.ResolvesExactly call) :
    n.CarriesItself call ↔ ∃ s l, n.CarriedBy (DestEntry.Addresses call) s ∧
      (n.sessions s).link = some l ∧ n.IsPeer (n.links l).linkCall s := by
  obtain ⟨text, suffix, hdash, hbase, hne, hssid, hsuffix⟩ := splitFirstDash_of_split hsplit
  have hcall : call ≠ [] := by
    rintro rfl
    simp [flexSplitCall] at hsplit
  have hwider : ∀ d : DestEntry, d.Addresses call → Matches call d := by
    intro d hd
    obtain ⟨hfinite, hsame, hrange⟩ := (PathNode.addresses_iff hsplit hbase hne hssid).mp hd
    unfold Matches
    rw [hdash]
    rcases hsuffix with ⟨rfl, -, -⟩ | ⟨digits, rfl, -, hvalue⟩
    · refine ⟨hfinite, hsame, fun hneg => ?_⟩
      change (0 : ℤ) ≤ -1 at hneg
      omega
    · refine ⟨hfinite, hsame, fun _ => ?_⟩
      change d.key.lo ≤ atoi digits ∧ atoi digits ≤ d.key.hi
      rw [hvalue]
      exact hrange hssid
  have hnarrow : ∀ i, n.FirstBest (Matches call) i → n.FirstBest (DestEntry.Addresses call) i := by
    intro i hi
    obtain ⟨d, hd, haddresses, -⟩ := hexact.found i (found_of_firstBest hcall hi)
    obtain ⟨e, he, -, hmin⟩ := hi
    obtain rfl : d = e := Option.some.inj (hd.symm.trans he)
    exact ⟨d, hd, haddresses, fun j e he haddr => hmin j e he (hwider e haddr)⟩
  have hsame : ∀ s, n.CarriedBy (DestEntry.Addresses call) s ↔ n.CarriedBy (Matches call) s := by
    intro s
    constructor
    · rintro ⟨i, d, hi, hd, hvia⟩
      have hi' := hi
      obtain ⟨d', hd', haddresses, -⟩ := hi'
      cases hfound : n.flexFindDestForTarget call with
      | none => exact absurd haddresses (hexact.missing.mp hfound d' (List.mem_of_getElem? hd'))
      | some j =>
          have hj := firstBest_of_found hfound
          obtain rfl := hi.unique (hnarrow j hj)
          exact ⟨i, d, hj, hd, hvia⟩
    · rintro ⟨i, d, hi, hd, hvia⟩
      exact ⟨i, d, hnarrow i hi, hd, hvia⟩
  constructor
  · rintro ⟨s, t, l, hs, ht, hl, hpeer⟩
    obtain rfl := hs.unique ((hsame t).mpr ht)
    exact ⟨s, l, hs, hl, hpeer⟩
  · rintro ⟨s, l, hs, hl, hpeer⟩
    exact ⟨s, s, l, hs, (hsame s).mp hs, hl, hpeer⟩

/-- An outgoing connect always names somebody: an external station itself, and otherwise the
neighbour whose session carries the cheapest row of the target exactly when there is such a row and
the link row of the session that the text of the target leads to holds that neighbour's callsign.
Lookups that were given up before make no difference. -/
theorem names_iff (cfg : Config) (axipPorts : List AxipPort) (portLinks : List PortLink)
    (links : LinkId → Link) (now : ℤ) (events : List Event) (n : ConnectNode)
    (conv : CStr → Option AxCall) (axcall : AxCall)
    (hreached : n.toNode = (Node.boot cfg axipPorts portLinks links now).after events)
    (hconv : Encodes conv) (hport : 0 < (n.flexNetFindRoute axcall).2) :
    (n.connect conv axcall).isSome = true ∧
      (n.NamesCarrier conv axcall ↔
        n.cfg.flexExternalPort (flexNormalizeCallsign axcall) ≠ 0 ∨
          n.CarriesItself (flexNormalizeCallsign axcall)) := by
  have hlive : n.toNode.LiveHops := by
    rw [hreached]
    exact Node.after_liveHops cfg axipPorts portLinks links now events
  have hlinked : n.toNode.Linked := by
    rw [hreached]
    exact (Node.evolves_after _ events (Node.linked_boot cfg axipPorts portLinks links now)).1
  by_cases hext : n.cfg.flexExternalPort (flexNormalizeCallsign axcall) = 0
  · obtain ⟨t, l, hcarried, hl, hnamed⟩ := connect_row conv hlive hlinked hext hport
    refine ⟨by rw [hnamed]; rfl, fun h => .inr ?_, fun h => ⟨fun h => absurd hext h, fun _ => ?_⟩⟩
    · obtain ⟨a, s, ha, hs, -, hpeer⟩ := h.row hext
      obtain rfl := Option.some.inj (ha.symm.trans hnamed)
      exact ⟨s, t, l, hs, hcarried, hl, hpeer⟩
    · obtain ⟨s, t', l', hs, ht', hl', hpeer⟩ := h.resolve_left (not_not.mpr hext)
      obtain rfl := hcarried.unique ht'
      obtain rfl := Option.some.inj (hl.symm.trans hl')
      obtain ⟨i, d, hbest, hd, hvia⟩ := hs
      have hbest' := hbest
      obtain ⟨d', hd', haddresses, -⟩ := hbest'
      obtain rfl : d = d' := Option.some.inj (hd.symm.trans hd')
      obtain ⟨-, s', hvia', hup, -⟩ := hlive d (List.mem_of_getElem? hd) haddresses.finite
      obtain rfl : s = s' := Option.some.inj (hvia.symm.trans hvia')
      exact ⟨_, s, hnamed, ⟨i, d, hbest, hd, hvia⟩, hup, hpeer⟩
  · obtain ⟨a, base, ssid, ha, hsplit, hnames⟩ := connect_external (n := n) hconv hext
    refine ⟨by rw [ha]; rfl, fun _ => .inl hext, fun _ => ⟨fun _ => ?_, fun h => absurd h hext⟩⟩
    exact ⟨a, base, ssid, ha, hsplit, hnames⟩

end ConnectNode

namespace Bench

open ConnectNode

/-- The base of an address. -/
def paddedBase (base : CStr) : List UInt8 :=
  ((base.map fun b : UInt8 => b <<< 1).rightpad 6 0x40).take 6

theorem length_paddedBase (base : CStr) : (paddedBase base).length = 6 := by
  rw [paddedBase, List.length_take, List.rightpad, List.length_append, List.length_replicate]
  omega

/-- `ConvToAX25` on the text of a call. -/
def convToAX25 (text : CStr) : Option AxCall :=
  some ⟨paddedBase (splitFirstDash text).1,
    0x60 + 2 * UInt8.ofNat (ssidOf (splitFirstDash text).2).toNat, length_paddedBase _⟩

theorem encodes_convToAX25 : Encodes convToAX25 := by
  intro base ssid hb hssid
  obtain ⟨hbase, hsuffix⟩ := @splitFirstDash_callText _ ssid hb
  refine ⟨_, rfl, hb, ?_, ?_⟩
  · have hshort := hb.short
    change paddedBase (splitFirstDash (callText base ssid)).1 = _
    rw [hbase]
    exact List.take_of_length_le (by simp [List.rightpad]; omega)
  · change (((0x60 + 2 * UInt8.ofNat (ssidOf (splitFirstDash (callText base ssid)).2).toNat :
      UInt8) >>> 1) &&& 0x0F).toNat = ssid
    rw [hsuffix, Int.toNat_natCast]
    interval_cases ssid <;> decide

/-- BPQ gives the row of `A` to `C`, which the session with `A` still points at. -/
def givenToC : ConnectNode :=
  { PathNode.small with toNode := (node true).after [record 0 0x4B 10, .row 0 (row (addr 0x43))] }

/-- `A` tells of `K`, and `B` of `K-5` for less. -/
def tellings : List Event :=
  [record 0 0x4B 10, .processCE 1 ([0x33] ++ recordOctets ⟨.ofCStr [0x4B], 5, 5⟩ 7 ++ [0x0D])]

/-- `A` carries `K`, and `B` carries `K-5`. -/
def twoCarriers : ConnectNode := { PathNode.small with toNode := (node true).after tellings }

/-- Where `A` alone carries the target and another neighbour is named, the carrier is not. -/
theorem not_named (n : ConnectNode) (axcall a : AxCall)
    (hext : n.cfg.flexExternalPort (flexNormalizeCallsign axcall) = 0)
    (hcarrier : (n.dests.all fun d => !(decide (d.rtt < rttInfinity) &&
      flexCallInRange (flexNormalizeCallsign axcall) d.key.call.bytes d.key.lo d.key.hi) ||
        d.viaSession == some slotA) = true)
    (hnamed : n.connect convToAX25 axcall = some a)
    (hother : flexNormalizeCallsign a ≠ flexNormalizeCallsign (n.sessions slotA).peerCallsign) :
    ¬ n.NamesCarrier convToAX25 axcall := by
  intro h
  obtain ⟨a', s, ha', ⟨i, d, ⟨d', hd', haddresses, -⟩, hd, hvia⟩, -, hpeer⟩ := h.row hext
  obtain rfl := Option.some.inj (ha'.symm.trans hnamed)
  obtain rfl : d = d' := Option.some.inj (hd.symm.trans hd')
  have hrow := List.all_eq_true.mp hcarrier d (List.mem_of_getElem? hd)
  rw [haddresses.inRange, decide_eq_true haddresses.finite, hvia] at hrow
  obtain rfl : s = slotA := by simpa using hrow
  exact hother hpeer

set_option maxRecDepth 10000 in
/-- The connect to `K` goes over `C`, which never sent a route. -/
theorem not_always_named :
    ¬ ∀ (cfg : Config) (axipPorts : List AxipPort) (portLinks : List PortLink)
    (links : LinkId → Link) (now : ℤ) (events : List Event) (n : ConnectNode)
    (conv : CStr → Option AxCall) (axcall : AxCall),
    n.toNode = (Node.boot cfg axipPorts portLinks links now).after events → Encodes conv →
      0 < (n.flexNetFindRoute axcall).2 → n.NamesCarrier conv axcall := by
  intro hall
  refine not_named givenToC (addr 0x4B) (addr 0x43) (by decide +kernel) (by decide +kernel)
    (by decide +kernel) (by decide +kernel) ?_
  exact hall (config true) [] [] links 1000
    [.initSession 0 1, .initSession 1 1, record 0 0x4B 10, .row 0 (row (addr 0x43))] givenToC
    convToAX25 (addr 0x4B) rfl encodes_convToAX25 (by decide +kernel)

set_option maxRecDepth 10000 in
/-- A connect to `K`, which `A` carries, goes over `B`, which carries `K-5`. -/
example : ¬ twoCarriers.NamesCarrier convToAX25 (addr 0x4B) :=
  not_named twoCarriers (addr 0x4B) (addr 0x42) (by decide +kernel) (by decide +kernel)
    (by decide +kernel) (by decide +kernel)

theorem twoCarriers_reached : twoCarriers.toNode =
    (Node.boot (config true) [] [] links 1000).after
      ([.initSession 0 1, .initSession 1 1] ++ tellings) :=
  (List.foldl_append ..).symm

set_option maxRecDepth 10000 in
theorem twoCarriers_port : 0 < (twoCarriers.flexNetFindRoute (addr 0x4B 5)).2 := by decide +kernel

set_option maxRecDepth 10000 in
/-- A connect to `K-5` goes over `B`, to which its row belongs. -/
theorem names_iff_twoCarriers :
    (twoCarriers.connect convToAX25 (addr 0x4B 5)).isSome = true ∧
      (twoCarriers.NamesCarrier convToAX25 (addr 0x4B 5) ↔
        twoCarriers.cfg.flexExternalPort (flexNormalizeCallsign (addr 0x4B 5)) ≠ 0 ∨
          twoCarriers.CarriesItself (flexNormalizeCallsign (addr 0x4B 5))) :=
  names_iff _ _ _ _ _ _ twoCarriers convToAX25 (addr 0x4B 5) twoCarriers_reached encodes_convToAX25
    twoCarriers_port

end Bench

end FlexNet
