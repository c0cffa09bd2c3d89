import FlexNet.Network.Told
import Mathlib.Combinatorics.SimpleGraph.Hasse
import Mathlib.Tactic.FinCases

/-!
# Costs across a network

Any number of nodes on the links of a graph.  A node takes its events in any order and starts again
at any time; what it queued may be handed to the link layer, and any neighbour may receive it from
there, late, more than once, or never.  `told_fair` says that no node ever tells, or believes, a
finite cost for a call nobody can reach, and never one below the number of links to it.
-/

namespace FlexNet

open DistanceVector Runs

/-- The nodes of a network, and the frames each has handed to the link layer. -/
structure Network (ι : Type*) where
  node : ι → Node
  aired : ι → List CStr

/-- What can happen in a network. -/
inductive NetEvent (ι : Type*)
  /-- a node takes an event -/
  | node (i : ι) (e : Event)
  /-- a frame a node has queued goes out -/
  | carry (i : ι) (data : CStr)
  /-- a node starts again -/
  | boot (i : ι) (axipPorts : List AxipPort) (portLinks : List PortLink) (links : LinkId → Link)
    (now : ℤ)

namespace Network

variable {ι : Type*}

section

variable [DecidableEq ι]

/-- Write one node. -/
def setNode (net : Network ι) (i : ι) (n : Node) : Network ι :=
  { net with node := Function.update net.node i n }

/-- A frame goes out. -/
def air (net : Network ι) (i : ι) (data : CStr) : Network ι :=
  { net with aired := Function.update net.aired i (net.aired i ++ [data]) }

@[simp] theorem setNode_self (net : Network ι) (i : ι) (n : Node) : (net.setNode i n).node i = n :=
  Function.update_self ..

theorem setNode_of_ne {i j : ι} (net : Network ι) (n : Node) (h : j ≠ i) :
    (net.setNode i n).node j = net.node j := Function.update_of_ne h ..

@[simp] theorem air_self (net : Network ι) (i : ι) (data : CStr) :
    (net.air i data).aired i = net.aired i ++ [data] := Function.update_self ..

theorem air_of_ne {i j : ι} (net : Network ι) (data : CStr) (h : j ≠ i) :
    (net.air i data).aired j = net.aired j := Function.update_of_ne h ..

/-- The step function. -/
def step (net : Network ι) : NetEvent ι → Network ι
  | .node i e => net.setNode i ((net.node i).event e)
  | .carry i data => net.air i data
  | .boot i axipPorts portLinks links now =>
    net.setNode i (.boot (net.node i).cfg axipPorts portLinks links now)

end

variable (G : SimpleGraph ι)

/-- An address is that of a neighbour. -/
def NamesNeighbour (net : Network ι) (i : ι) (a : AxCall) : Prop :=
  ∃ j, G.Adj i j ∧ ∃ base ssid, a.Names base ssid ∧ (net.node j).cfg.Owns (.ofCStr base)

/-- The link rows and the declared links of a node are to neighbours. -/
structure Wired (net : Network ι) (i : ι) (portLinks : List PortLink) (links : LinkId → Link) :
    Prop where
  rows : ∀ l, (links l).linkCall.isEmpty = false → net.NamesNeighbour G i (links l).linkCall
  declared : ∀ pl ∈ portLinks, net.NamesNeighbour G i pl.axcall

/-- The network joins neighbours only: a row BPQ writes is for a neighbour, a frame that is received
was handed to the link layer by one, and what is handed to it was queued. -/
def Allowed (net : Network ι) : NetEvent ι → Prop
  | .node i e =>
    (∀ l x, e = .row l x → x.linkCall.isEmpty = false → net.NamesNeighbour G i x.linkCall) ∧
      ∀ l data, e.frame = some (l, data) → ∃ j, G.Adj i j ∧ data ∈ net.aired j
  | .carry i data => ∃ p, .frame pidCE data ∈ ((net.node i).peers p).wire
  | .boot i _ portLinks links _ => net.Wired G i portLinks links

/-- Nodes that have just booted, each with a node call, and nothing on the air. -/
structure Booted (net : Network ι) : Prop where
  boots : ∀ i, ∃ axipPorts portLinks links now,
    net.node i = .boot (net.node i).cfg axipPorts portLinks links now ∧
      net.Wired G i portLinks links
  hosts : ∀ i, ∃ base ssid, (net.node i).cfg.Hosts base ssid
  quiet : ∀ i, net.aired i = []

/-- The calls of every station. -/
def owns (net : Network ι) (i : ι) (c : Callsign) : Prop := (net.node i).cfg.Owns c

/-! ## The invariant -/

variable {G}

/-- Every node is honest about what its neighbours may tell, and so is what is on the air. -/
structure Honest (G : SimpleGraph ι) (owns : ι → Callsign → Prop) (net : Network ι) : Prop where
  calls : net.owns = owns
  nodes : ∀ i, (net.node i).Honest (Heard G owns rttWireMax i)
  aired : ∀ i, ∀ data ∈ net.aired i, Says (Fair G owns rttWireMax i) data

variable {owns : ι → Callsign → Prop} {net : Network ι} {i : ι}

/-- The address of a neighbour is met. -/
theorem NamesNeighbour.meets {a : AxCall} (h : net.NamesNeighbour G i a)
    (hcalls : net.owns = owns) :
    Meets (Heard G owns rttWireMax i) a := by
  obtain ⟨j, hadj, base, ssid, hnames, hown⟩ := h
  exact ⟨base, ssid, hnames, j, hadj, .own (hcalls ▸ hown) le_rfl⟩

/-- What a node tells is fair. -/
theorem Honest.tells (h : Honest G owns net) {c : Callsign} {cost : ℤ}
    (htell : (net.node i).cfg.Tells (Heard G owns rttWireMax i) c cost) :
    Fair G owns rttWireMax i c cost := by
  have hown : (net.node i).cfg.Owns = owns i := congrFun h.calls i
  unfold Config.Tells at htell
  rw [hown] at htell
  exact htell.fair

theorem Honest.onAir (h : Honest G owns net) {p : Slot} {data : CStr}
    (hdata : .frame pidCE data ∈ ((net.node i).peers p).wire) :
    Says (Fair G owns rttWireMax i) data := fun r hr hfin =>
  h.tells (((h.nodes i).peers p).sent data hdata r hr hfin)

theorem honest_booted (h : net.Booted G) : Honest G net.owns net where
  calls := rfl
  nodes := fun i => by
    obtain ⟨axipPorts, portLinks, links, now, hboot, hwired⟩ := h.boots i
    rw [hboot]
    exact Node.honest_boot (h.hosts i) (fun l hl => (hwired.rows l hl).meets rfl)
      fun pl hpl => (hwired.declared pl hpl).meets rfl
  aired := fun i data hdata => by
    rw [h.quiet] at hdata
    cases hdata

variable [DecidableEq ι]

/-- One node changes, and keeps its configuration. -/
theorem Honest.setNode (h : Honest G owns net) {n : Node} (hcfg : n.cfg = (net.node i).cfg)
    (hn : n.Honest (Heard G owns rttWireMax i)) :
    Honest G owns (net.setNode i n) where
  calls := by
    rw [← h.calls]
    funext j c
    unfold Network.owns
    by_cases hj : j = i
    · subst hj
      rw [setNode_self, hcfg]
    · rw [setNode_of_ne net n hj]
  nodes := fun j => by
    by_cases hj : j = i
    · subst hj
      rw [setNode_self]
      exact hn
    · rw [setNode_of_ne net n hj]
      exact h.nodes j
  aired := h.aired

/-- What one step preserves. -/
theorem Honest.step (h : Honest G owns net) {e : NetEvent ι} (he : net.Allowed G e) :
    Honest G owns (net.step e) := by
  cases e with
  | node i e =>
      obtain ⟨hrows, hframes⟩ := he
      refine h.setNode (Node.event_cfg _ e) ((h.nodes i).event ⟨fun l x hrow hx => ?_, ?_⟩)
      · exact (hrows l x hrow hx).meets h.calls
      · intro l data hframe r hr _ hfin
        obtain ⟨j, hadj, hdata⟩ := hframes l data hframe
        exact ⟨j, hadj, h.aired j data hdata r hr hfin⟩
  | carry i data =>
      obtain ⟨p, hdata⟩ := he
      refine ⟨h.calls, h.nodes, fun j data' hdata' => ?_⟩
      change data' ∈ (net.air i data).aired j at hdata'
      by_cases hj : j = i
      · subst hj
        rw [air_self] at hdata'
        rcases List.mem_append.mp hdata' with hdata' | hdata'
        · exact h.aired j data' hdata'
        · rw [List.mem_singleton.mp hdata']
          exact h.onAir hdata
      · rw [air_of_ne net data hj] at hdata'
        exact h.aired j data' hdata'
  | boot i axipPorts portLinks links now =>
      exact h.setNode rfl (Node.honest_boot (h.nodes i).hosts
        (fun l hl => (he.rows l hl).meets h.calls) fun pl hpl => (he.declared pl hpl).meets h.calls)

/-- In every run of a network, over links that lose, repeat, delay and misdeliver frames among
neighbours, with nodes that start again at any time: a finite cost that a node tells a peer, or has
learned from one, is for a call of some node that can be reached, and counts at least the links to
it, and one for the call itself, up to the largest cost of the wire. -/
theorem told_fair {start net : Network ι} {es : List (NetEvent ι)} (hstart : start.Booted G)
    (hrun : GuardedRun step (Allowed G) start es net) (i : ι) (s : Slot) :
    (∀ data, .frame pidCE data ∈ ((net.node i).peers s).wire →
      ∀ r ∈ flexParseCompactRecords data 64, r.rtt < rttInfinity →
        ∃ j, start.owns j r.key.call ∧ G.Reachable i j ∧
          min ((G.dist i j : ℤ) + 1) rttWireMax ≤ r.rtt) ∧
    ∀ lr ∈ ((net.node i).learned s).routes, 0 < lr.rttAtNeighbour →
      lr.rttAtNeighbour < rttInfinity →
        ∃ j, start.owns j lr.key.call ∧ G.Reachable i j ∧
          min (G.dist i j : ℤ) rttWireMax ≤ lr.rttAtNeighbour := by
  have hend : Honest G start.owns net :=
    hrun.invariant (fun _ _ h he => h.step he) (honest_booted hstart)
  refine ⟨fun data hdata r hr hfin => hend.onAir hdata r hr hfin, fun lr hlr hpos hfin => ?_⟩
  exact (((hend.nodes i).learned s lr hlr).heard hpos hfin).far

end Network

namespace Bench

open Network

/-- A node with transit on and a call of one letter. -/
def stationConfig (letter : UInt8) : Config where
  myCall := addr letter
  transit := true
  l2Transit := true
  maxLinks := 4

/-- Rows to stations of one letter each. -/
def rowsTo (letters : List UInt8) : LinkId → Link := fun l =>
  match letters[l]? with
  | some letter => row (addr letter)
  | none => {}

/-- `A`, `N` and `B` in a line. -/
def threeStations : Network (Fin 3) where
  node
    | 0 => .boot (stationConfig 0x41) [] [] (rowsTo [0x4E]) 1000
    | 1 => .boot (stationConfig 0x4E) [] [] (rowsTo [0x41, 0x42]) 1000
    | 2 => .boot (stationConfig 0x42) [] [] (rowsTo [0x4E]) 1000
  aired _ := []

/-- The own frame of `A`, and what `N` makes of it for `B`. -/
def ownFrameOfA : CStr := recordsFrame [(dest 0x41, 1)]
def frameForB : CStr := recordsFrame [(dest 0x41, 3)]

/-- `N` greets `A`, and hears its own frame twice. -/
def greeting : List (NetEvent (Fin 3)) :=
  [.node 0 (.initSession 0 1), .node 1 (.initSession 0 1), .node 1 (.initSession 1 1),
    .carry 1 (flexBuildInit 0), .node 0 (.processCE 0 (flexBuildInit 0)), .carry 0 ownFrameOfA,
    .node 1 (.processCE 0 ownFrameOfA), .node 1 (.processCE 0 ownFrameOfA)]

theorem hosts_stationConfig {letter : UInt8} (h : isAlnum letter = true) :
    (stationConfig letter).Hosts [letter] 0 where
  myCall := names_addr h
  range := fun _ _ hrange => by cases hrange
  listed := .nil
  offRange := fun _ hl => by cases hl

theorem owns_stationConfig {letter : UInt8} (h : isAlnum letter = true) :
    (stationConfig letter).Owns (.ofCStr [letter]) := by
  refine ⟨_, List.mem_cons_self, ?_⟩
  rw [Config.ownBaseCall_names (hosts_stationConfig h).myCall]

theorem wired_rowsTo {i : Fin 3} {letters : List UInt8}
    (h : ∀ letter ∈ letters, isAlnum letter = true ∧ ∃ j, (SimpleGraph.pathGraph 3).Adj i j ∧
      (threeStations.node j).cfg = stationConfig letter) :
    threeStations.Wired (SimpleGraph.pathGraph 3) i [] (rowsTo letters) where
  rows := fun l hl => by
    unfold rowsTo at hl ⊢
    cases hletter : letters[l]? with
    | none =>
        rw [hletter] at hl
        cases hl
    | some letter =>
        obtain ⟨hcall, j, hadj, hcfg⟩ := h letter (List.mem_of_getElem? hletter)
        exact ⟨j, hadj, [letter], 0, names_addr hcall, hcfg ▸ owns_stationConfig hcall⟩
  declared := fun _ hpl => by cases hpl

theorem threeStations_booted : threeStations.Booted (SimpleGraph.pathGraph 3) where
  boots := fun i => by
    fin_cases i
    · refine ⟨_, _, _, _, rfl, wired_rowsTo fun letter hletter => ?_⟩
      obtain rfl := List.mem_singleton.mp hletter
      exact ⟨by decide, 1, by simp [SimpleGraph.pathGraph_adj], rfl⟩
    · refine ⟨_, _, _, _, rfl, wired_rowsTo fun letter hletter => ?_⟩
      rcases List.mem_pair.mp hletter with rfl | rfl
      · exact ⟨by decide, 0, by simp [SimpleGraph.pathGraph_adj], rfl⟩
      · exact ⟨by decide, 2, by simp [SimpleGraph.pathGraph_adj], rfl⟩
    · refine ⟨_, _, _, _, rfl, wired_rowsTo fun letter hletter => ?_⟩
      obtain rfl := List.mem_singleton.mp hletter
      exact ⟨by decide, 1, by simp [SimpleGraph.pathGraph_adj], rfl⟩
  hosts := fun i => by
    fin_cases i
    · exact ⟨[0x41], 0, hosts_stationConfig (by decide)⟩
    · exact ⟨[0x4E], 0, hosts_stationConfig (by decide)⟩
    · exact ⟨[0x42], 0, hosts_stationConfig (by decide)⟩
  quiet := fun _ => rfl

theorem greeting_run :
    Runs.GuardedRun step (Allowed (SimpleGraph.pathGraph 3)) threeStations greeting
      (greeting.foldl step threeStations) := by
  have hquiet : ∀ net : Network (Fin 3), ∀ i l port,
      net.Allowed (SimpleGraph.pathGraph 3) (.node i (.initSession l port)) := fun net i l port =>
    ⟨fun _ _ h => by (cases h), fun _ _ h => by (cases h)⟩
  have hframe : ∀ (net : Network (Fin 3)) (i j : Fin 3) (l : LinkId) (data : CStr),
      (SimpleGraph.pathGraph 3).Adj i j → data ∈ net.aired j →
        net.Allowed (SimpleGraph.pathGraph 3) (.node i (.processCE l data)) :=
    fun net i j l data hadj hdata => ⟨fun _ _ h => by (cases h), fun _ _ h => by
      cases h
      exact ⟨j, hadj, hdata⟩⟩
  refine .of_chain ⟨hquiet .., hquiet .., hquiet .., ⟨0, ?_⟩, hframe _ 0 1 _ _ ?_ ?_, ⟨0, ?_⟩,
    hframe _ 1 0 _ _ ?_ ?_, hframe _ 1 0 _ _ ?_ ?_, trivial⟩
  · decide +kernel
  · simp [SimpleGraph.pathGraph_adj]
  · decide +kernel
  · decide +kernel
  · simp [SimpleGraph.pathGraph_adj]
  · decide +kernel
  · simp [SimpleGraph.pathGraph_adj]
  · decide +kernel

/-- `B` is told of `A`, two links away, at cost 3. -/
theorem told_fair_greeting :
    ∃ j, threeStations.owns j (.ofCStr [0x41]) ∧ (SimpleGraph.pathGraph 3).Reachable 1 j ∧
      min (((SimpleGraph.pathGraph 3).dist 1 j : ℤ) + 1) rttWireMax ≤ 3 := by
  have hsent : WireEvent.frame pidCE frameForB ∈
      (((greeting.foldl step threeStations).node 1).peers 1).wire := by decide +kernel
  exact (told_fair threeStations_booted greeting_run 1 1).1 frameForB hsent ⟨dest 0x41, 3, false⟩
    (by decide +kernel) (by decide)

end Bench

end FlexNet
