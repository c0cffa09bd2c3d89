import FlexNet.Setup.OwnRecords
import FlexNet.Node.Process
import FlexNet.Node.Events
import FlexNet.Routing.Stations

/-!
# The SSIDs an INIT declares

The INIT declares the upper bound of `FLEXNETSSIDRANGE`, the own record carries that range widened
to the SSID of the node.  The two agree exactly when the range does not end below the node's SSID
(`Config.init_covers_iff`).  The entry a peer makes from the INIT starts at the node's SSID, and is
never the shorter for it.
-/

namespace FlexNet

/-! ## The frames of a node -/

namespace Node

variable (n : Node) (s : Slot)

/-- `flex_send_init` queues this frame. -/
def InitSent (init : CStr) : Prop :=
  ∃ rest, ((n.flexSendInit s).peers s).wire = (n.peers s).wire ++ .frame pidCE init :: rest

/-- `flex_send_own_routes` queues this frame first. -/
def OwnSent (own : CStr) : Prop :=
  ∃ deferEob rest,
    ((n.flexSendOwnRoutes s deferEob).peers s).wire = (n.peers s).wire ++ .frame pidCE own :: rest

/-- A session whose peer has just declared its SSIDs. -/
def declared (init : CStr) : Node :=
  n.setSession s { n.sessions s with gotPeerInit := true, peerMaxSsid := initSsid init }

variable {n s}

/-- A frame is queued, or there is no buffer for it. -/
theorem flexSendFrame_wire (e : Env) (data : CStr) (x : Peer) :
    (e.flexSendFrame s pidCE data x).wire = x.wire ++ [.frame pidCE data] ∨
      (e.flexSendFrame s pidCE data x).wire = x.wire := by
  unfold Env.flexSendFrame
  dsimp only
  split_ifs
  · exact .inl rfl
  · exact .inr rfl

theorem flexSendInit_wire : ((n.flexSendInit s).peers s).wire =
    (n.toEnv.flexSendFrame s pidCE (flexBuildInit n.cfg.initMax) (n.peers s)).wire := by
  unfold flexSendInit
  dsimp only
  rw [setSession_peers]
  unfold flexSendFrame
  rw [setPeer_peers_self]

theorem flexSendOwnRoutes_wire (deferEob : Bool) :
    ((n.flexSendOwnRoutes s deferEob).peers s).wire =
      (n.toEnv.flexSendOwnRoutes s deferEob (n.peers s)).wire := by
  unfold flexSendOwnRoutes
  rw [setPeer_peers_self]

/-- The octets of every INIT. -/
theorem InitSent.eq {init : CStr} (h : n.InitSent s init) : init = flexBuildInit n.cfg.initMax := by
  obtain ⟨rest, hwire⟩ := h
  rw [flexSendInit_wire] at hwire
  rcases flexSendFrame_wire n.toEnv (flexBuildInit n.cfg.initMax) (n.peers s) with hsent | hnot
  · rw [hsent] at hwire
    have hframe := List.append_cancel_left hwire
    rw [List.cons.injEq, WireEvent.frame.injEq] at hframe
    exact hframe.1.2.symm
  · rw [hnot] at hwire
    simp at hwire

/-- The first frame is the own frame, or the `'3-'` after a dropped one. -/
theorem OwnSent.eq {own : CStr} (h : n.OwnSent s own) :
    n.cfg.ownFrame = some own ∨ own = releaseToken := by
  obtain ⟨deferEob, rest, hwire⟩ := h
  rw [flexSendOwnRoutes_wire] at hwire
  have heob : ∀ y : Peer, y.wire = (n.peers s).wire →
      (if deferEob then y else n.toEnv.flexSendFrame s pidCE releaseToken y).wire =
        (n.peers s).wire ++ .frame pidCE own :: rest → own = releaseToken := by
    intro y hy hsent
    split_ifs at hsent
    · rw [hy] at hsent
      simp at hsent
    · rcases flexSendFrame_wire (s := s) n.toEnv releaseToken y with hlast | hnot
      · rw [hlast, hy] at hsent
        have hframe := List.append_cancel_left hsent
        rw [List.cons.injEq, WireEvent.frame.injEq] at hframe
        exact hframe.1.2.symm
      · rw [hnot, hy] at hsent
        simp at hsent
  unfold Env.flexSendOwnRoutes at hwire
  cases hframe : n.cfg.ownFrame with
  | none =>
      rw [hframe] at hwire
      exact .inr (heob (n.peers s) rfl hwire)
  | some frame =>
      rw [hframe] at hwire
      dsimp only at hwire
      rcases flexSendFrame_wire (s := s) n.toEnv frame (n.peers s) with hsent | hnot
      · refine .inl (congrArg some ?_)
        have hfirst : ∃ more,
            (n.peers s).wire ++ .frame pidCE frame :: more =
              (n.peers s).wire ++ .frame pidCE own :: rest := by
          split_ifs at hwire
          · exact ⟨[], hsent ▸ hwire⟩
          · rcases flexSendFrame_wire (s := s) n.toEnv releaseToken
                (n.toEnv.flexSendFrame s pidCE frame (n.peers s)) with hlast | hlast
            · refine ⟨[.frame pidCE releaseToken], ?_⟩
              rw [← hwire, hlast, hsent, List.append_assoc]
              rfl
            · exact ⟨[], by rw [← hwire, hlast, hsent]⟩
        obtain ⟨more, hmore⟩ := hfirst
        have hheads := List.append_cancel_left hmore
        rw [List.cons.injEq, WireEvent.frame.injEq] at hheads
        exact hheads.1.2
      · exact .inr (heob _ hnot hwire)

end Node

/-! ## What is declared -/

namespace Config

/-- Every INIT of a node with this configuration declares at least the upper SSID of the node's own
record, in every own frame the node sends. -/
def InitCovers (cfg : Config) : Prop :=
  ∀ (n m : Node) (s : Slot) (init own : CStr), n.cfg = cfg → m.cfg = cfg →
    n.InitSent s init → m.OwnSent s own →
    ∀ r ∈ (flexParseCompactRecords own 64).head?, r.key.hi ≤ Node.initSsid init

/-- Whoever enters the node from an INIT enters the SSIDs of its own record from `ssid` on. -/
def EntryCovers (cfg : Config) (base : CStr) (ssid : ℕ) : Prop :=
  ∀ (n m : Node) (s i : Slot) (l : LinkId) (init : CStr), n.cfg = cfg → n.InitSent s init →
    (m.sessions i).link = some l → (m.links l).linkCall = cfg.myCall →
    ∀ x : ℤ, ssid ≤ x → x ≤ cfg.ownSsidRange.2 → ((m.declared i init).neighbourKey i).Covers base x

variable {cfg : Config} {base₀ : CStr} {ssid₀ : ℕ}

/-- The configured bound, or the SSID of the node. -/
theorem Hosts.initMax_cases (h : cfg.Hosts base₀ ssid₀) :
    (cfg.ssidRange = none ∧ cfg.initMax = ssid₀ ∧ cfg.ownSsidRange.2 = ssid₀) ∨
      ∃ lo hi, cfg.ssidRange = some (lo, hi) ∧ cfg.initMax = hi ∧
        cfg.ownSsidRange.2 = max hi ssid₀ := by
  rw [ownSsidRange_eq h.myCall]
  unfold initMax flexOwnSsidRange
  cases hrange : cfg.ssidRange with
  | none => exact .inl ⟨rfl, congrArg _ h.myCall.ssid, rfl⟩
  | some range => exact .inr ⟨range.1, range.2, rfl, rfl, rfl⟩

theorem Hosts.initMax_bounds (h : cfg.Hosts base₀ ssid₀) : 0 ≤ cfg.initMax ∧ cfg.initMax ≤ 15 := by
  have hssid := h.myCall.ssid_le
  rcases h.initMax_cases with ⟨-, hmax, -⟩ | ⟨lo, hi, hrange, hmax, -⟩
  · omega
  · have hordered := h.range lo hi hrange
    omega

/-- The peer reads what was declared. -/
theorem Hosts.initSsid_init (h : cfg.Hosts base₀ ssid₀) :
    Node.initSsid (flexBuildInit cfg.initMax) = cfg.initMax := by
  obtain ⟨hzero, hmax⟩ := h.initMax_bounds
  generalize cfg.initMax = max at hzero hmax
  interval_cases max <;> decide

/-- The record of the node is the first of its own frame. -/
theorem Hosts.head_ownFrame (h : cfg.Hosts base₀ ssid₀) {own : CStr}
    (hown : cfg.ownFrame = some own) :
    (flexParseCompactRecords own 64).head?.map (fun r => r.key.hi) = some cfg.ownSsidRange.2 := by
  have hbase : cfg.ownBaseCall.1 ≠ [] := by
    rw [ownBaseCall_names h.myCall]
    exact h.myCall.isBase.nonempty
  rw [ownFrame_eq hbase h.listed, Option.some.injEq] at hown
  rw [← hown, h.parse_ownFrame]
  rfl

/-- The range of the text is enough. -/
theorem Hosts.initCovers (h : cfg.Hosts base₀ ssid₀)
    (hhi : ∀ lo hi, cfg.ssidRange = some (lo, hi) → (ssid₀ : ℤ) ≤ hi) : cfg.InitCovers := by
  intro n m s init own hn hm hinit hown r hr
  have hmax : cfg.ownSsidRange.2 ≤ cfg.initMax := by
    rcases h.initMax_cases with ⟨-, hmax, hrange⟩ | ⟨lo, hi, hrange, hmax, hupper⟩
    · omega
    · have hle := hhi lo hi hrange
      omega
  rw [hinit.eq, hn, h.initSsid_init]
  rcases hown.eq with hframe | rfl
  · rw [hm] at hframe
    have hhead := h.head_ownFrame hframe
    rw [Option.mem_def.mp hr, Option.map_some, Option.some.injEq] at hhead
    omega
  · have hnone : (flexParseCompactRecords releaseToken 64).head? = none := by decide +kernel
    rw [hnone] at hr
    exact absurd hr (Option.not_mem_none r)

/-- A node that finds buffers sends both frames. -/
theorem Hosts.hi_of_initCovers (h : cfg.Hosts base₀ ssid₀) (hbuff : ∀ s i, cfg.getBuff s i = true)
    (hcovers : cfg.InitCovers) {lo hi : ℤ} (hrange : cfg.ssidRange = some (lo, hi)) :
    (ssid₀ : ℤ) ≤ hi := by
  have hbase : cfg.ownBaseCall.1 ≠ [] := by
    rw [ownBaseCall_names h.myCall]
    exact h.myCall.isBase.nonempty
  have hframe := ownFrame_eq hbase h.listed
  let n := Node.boot cfg [] [] (fun _ => {}) 0
  have hsend : ∀ (data : CStr) (x : Peer),
      (n.toEnv.flexSendFrame 0 pidCE data x).wire = x.wire ++ [.frame pidCE data] := by
    intro data x
    have hfound : n.toEnv.cfg.getBuff 0 x.getBuffCalls = true := hbuff 0 _
    unfold Env.flexSendFrame
    dsimp only
    rw [if_pos hfound]
  have hinit : n.InitSent 0 (flexBuildInit cfg.initMax) := ⟨[], by
    rw [Node.flexSendInit_wire]
    exact hsend _ _⟩
  have hown : n.OwnSent 0 (recordsFrame (cfg.ownRecords.map fun k => (k, 1))) := ⟨true, [], by
    rw [Node.flexSendOwnRoutes_wire]
    unfold Env.flexSendOwnRoutes
    rw [show n.toEnv.cfg.ownFrame = _ from hframe]
    exact hsend _ _⟩
  have hhead := h.head_ownFrame hframe
  obtain ⟨r, hr, hhi⟩ := Option.map_eq_some_iff.mp hhead
  have hle := hcovers n n 0 _ _ rfl rfl hinit hown r hr
  rw [h.initSsid_init, hhi] at hle
  rcases h.initMax_cases with ⟨hnone, -⟩ | ⟨lo', hi', hrange', hmax, hupper⟩
  · exact absurd (hnone.symm.trans hrange) (by simp)
  · rw [hrange, Option.some.injEq, Prod.mk.injEq] at hrange'
    omega

/-- The key of a neighbour's entry, where its address names a call. -/
theorem neighbourKey_names {n : Node} {s : Slot} {l : LinkId} {base : CStr} {ssid : ℕ}
    (hlink : (n.sessions s).link = some l) (hnames : (n.links l).linkCall.Names base ssid) :
    n.neighbourKey s = ⟨.ofCStr base, ssid,
      if (n.sessions s).gotPeerInit then max (ssid : ℤ) (n.sessions s).peerMaxSsid
      else n.adoptedHi s (.ofCStr base) ssid⟩ := by
  have htext : n.sessPeerCall s = callText base ssid := by
    unfold Env.sessPeerCall
    rw [hlink]
    exact flexNormalizeCallsign_names hnames
  have hshort : (callText base ssid).length ≤ 9 := by
    rw [← flexNormalizeCallsign_names hnames]
    exact length_flexNormalizeCallsign_le _
  obtain ⟨hbase, hssid⟩ := @splitFirstDash_callText _ ssid hnames.isBase
  unfold Node.neighbourKey
  rw [htext, List.take_of_length_le hshort]
  dsimp only
  rw [hbase, hssid]

/-- An entry made from an INIT starts at the SSID of the link. -/
theorem Hosts.entryCovers (h : cfg.Hosts base₀ ssid₀) : cfg.EntryCovers base₀ ssid₀ := by
  intro n m s i l init hn hinit hlink hcall x hlo hhi
  have hsame : ((m.declared i init).sessions i).link = some l := by
    unfold Node.declared
    rw [Node.setSession_sessions_self]
    exact hlink
  have hnames : ((m.declared i init).links l).linkCall.Names base₀ ssid₀ := by
    rw [show ((m.declared i init).links l).linkCall = cfg.myCall from hcall]
    exact h.myCall
  have hpeer : ((m.declared i init).sessions i).gotPeerInit = true ∧
      ((m.declared i init).sessions i).peerMaxSsid = cfg.initMax := by
    unfold Node.declared
    rw [Node.setSession_sessions_self, hinit.eq, hn, h.initSsid_init]
    exact ⟨rfl, rfl⟩
  have hkey : (m.declared i init).neighbourKey i =
      ⟨.ofCStr base₀, ssid₀, max ssid₀ cfg.initMax⟩ := by
    rw [neighbourKey_names hsame hnames, if_pos hpeer.1, hpeer.2]
  rw [hkey]
  refine ⟨?_, hlo, ?_⟩
  · rw [ofCStr_of_isBase h.myCall.isBase, strcasecmp_capitals]
  · dsimp only
    rcases h.initMax_cases with ⟨-, hmax, hupper⟩ | ⟨lo', hi', -, hmax, hupper⟩
    · omega
    · omega

/-- The INITs of a node cover its own record, whatever BPQ has, exactly when the range of the text
does not end below the SSID of the node.  The entry a peer makes from them always does. -/
theorem init_covers_iff (text : Option CStr) {a : AxCall} (hnode : a.Names base₀ ssid₀) :
    (∀ h : Host, h.myCall = a →
        (flexNetInit text h).InitCovers ∧ (flexNetInit text h).EntryCovers base₀ ssid₀) ↔
      ∀ lo hi, (Directives.flexLoadConfig text).ssidRange = some (lo, hi) → (ssid₀ : ℤ) ≤ hi := by
  constructor
  · intro hall lo hi hrange
    let h : Host := ⟨a, [], fun _ => true, 0, fun _ _ => true⟩
    have hosts : (flexNetInit text h).Hosts base₀ ssid₀ := hosts_init text h hnode
    exact hosts.hi_of_initCovers (fun _ _ => rfl) (hall h rfl).1 hrange
  · rintro hhi h rfl
    have hosts := hosts_init text h hnode
    exact ⟨hosts.initCovers hhi, hosts.entryCovers⟩

end Config

namespace Bench

/-- The range `0-3` covers node SSID 0. -/
theorem init_covers_range :
    (∀ h : Host, h.myCall = addr 0x4E →
        (flexNetInit (some rangeText) h).InitCovers ∧
          (flexNetInit (some rangeText) h).EntryCovers [0x4E] 0) ↔
      ∀ lo hi, (Directives.flexLoadConfig (some rangeText)).ssidRange = some (lo, hi) →
        ((0 : ℕ) : ℤ) ≤ hi :=
  Config.init_covers_iff (some rangeText) (names_addr (by decide))

/-- `N-5`, with the range `0-3`. -/
def bpqFive : Host := { bpq with myCall := addr 0x4E 5 }

/-- `A` asks `N-5` for its routes. -/
def askedFive : Node :=
  (Node.boot (flexNetInit (some rangeText) bpqFive) [] [] links 1000).after
    [.initSession 0 1, .processCE 0 [0x33, 0x2B, 0x0D]]

/-- The own frame of `N-5`: the node `0-5`, and the application. -/
def ownFive : CStr := recordsFrame [(⟨.ofCStr [0x4E], 0, 5⟩, 1), (⟨.ofCStr [0x4B], 0, 0⟩, 1)]

theorem bpqFive_names : bpqFive.myCall.Names [0x4E] 5 where
  isBase := ⟨List.cons_ne_nil _ _, by simp, fun b hb => by rw [List.mem_singleton.mp hb]; rfl⟩
  shifted := rfl
  ssid := by decide

set_option maxRecDepth 10000 in
/-- `A` was told SSIDs up to 3, then up to 5. -/
theorem init_below_own_record :
    ¬ (flexNetInit (some rangeText) bpqFive).InitCovers ∧
      .frame pidCE (flexBuildInit 3) ∈ (askedFive.peers slotA).wire ∧
      .frame pidCE ownFive ∈ (askedFive.peers slotA).wire := by
  refine ⟨fun hcovers => ?_, by decide +kernel, by decide +kernel⟩
  have hosts := Config.hosts_init (some rangeText) bpqFive bpqFive_names
  have hrange : (flexNetInit (some rangeText) bpqFive).ssidRange = some (0, 3) := by decide +kernel
  have hle := hosts.hi_of_initCovers (fun _ _ => rfl) hcovers hrange
  omega

end Bench

end FlexNet
