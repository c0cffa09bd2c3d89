import FlexNet.Advert.Silence
import FlexNet.Path.Traversal
import FlexNet.Lib.Runs

/-!
# A path query over a line of nodes

A network of nodes whose sessions are cabled to each other; a step delivers the oldest frame that is
under way on one of them.  `Line.answered_iff`: a query that goes from `A` over `n1`, ..., `nk` to a
target beyond `nk` gets its answer back exactly when `k = 1`.  From `k = 2` on the answer of `nk`
names only the asker, `nk` and the target, so the node before `nk` does not find itself in it and
drops it.
-/

namespace FlexNet

open Runs

/-- Nodes, and how many frames of each session have arrived. -/
structure PathNet where
  node : ℕ → PathNode
  taken : ℕ → Slot → ℕ

/-- The node, and its row, that the frames of a session arrive on. -/
abbrev Cables := ℕ → Slot → Option (ℕ × LinkId)

namespace PathNet

variable {cables : Cables} {net : PathNet} {i j : ℕ} {s via : Slot} {l : LinkId} {data frame : CStr}

/-- The frames that were queued to a session. -/
def wire (net : PathNet) (i : ℕ) (s : Slot) : List WireEvent := ((net.node i).peers s).wire

/-- One more frame of a session has arrived. -/
def take (net : PathNet) (i : ℕ) (s : Slot) : PathNet :=
  let row := Function.update (net.taken i) s (net.taken i s + 1)
  { net with taken := Function.update net.taken i row }

/-- A node handles a frame. -/
def receive (net : PathNet) (j : ℕ) (l : LinkId) (data : CStr) : PathNet :=
  { net with node := Function.update net.node j ((net.node j).flexNetProcessCE l data) }

/-- The oldest frame under way on a session arrives, if there is one. -/
def deliver (cables : Cables) (net : PathNet) (end_ : ℕ × Slot) : PathNet :=
  match (net.wire end_.1 end_.2)[net.taken end_.1 end_.2]?, cables end_.1 end_.2 with
  | none, _ => net
  | some (.frame pid data), some (j, l) =>
    if pid = pidCE then (net.take end_.1 end_.2).receive j l data
    else net.take end_.1 end_.2
  | some _, _ => net.take end_.1 end_.2

/-- The frames under way on a session. -/
def UnderWay (net : PathNet) (i : ℕ) (s : Slot) (frames : List WireEvent) : Prop :=
  ∃ sent, net.wire i s = sent ++ frames ∧ sent.length = net.taken i s

theorem deliver_nothing (h : net.UnderWay i s []) : net.deliver cables (i, s) = net := by
  obtain ⟨sent, hwire, hlen⟩ := h
  have hnone : (net.wire i s)[net.taken i s]? = none := by
    rw [hwire, List.append_nil, ← hlen]
    simp
  unfold deliver
  dsimp only
  rw [hnone]

theorem deliver_frame {rest : List WireEvent} (h : net.UnderWay i s (.frame pidCE data :: rest))
    (hcable : cables i s = some (j, l)) :
    net.deliver cables (i, s) = (net.take i s).receive j l data := by
  obtain ⟨sent, hwire, hlen⟩ := h
  have hsome : (net.wire i s)[net.taken i s]? = some (.frame pidCE data) := by
    rw [hwire, ← hlen]
    simp
  unfold deliver
  dsimp only
  rw [hsome, hcable]
  dsimp only
  rw [if_pos rfl]

theorem node_arrived (net : PathNet) (i : ℕ) (s : Slot) (j : ℕ) (l : LinkId) (data : CStr) :
    ((net.take i s).receive j l data).node j = (net.node j).flexNetProcessCE l data := by
  simp [receive, take]

theorem node_elsewhere (net : PathNet) (i : ℕ) (s : Slot) {j i' : ℕ} (l : LinkId) (data : CStr)
    (h : i' ≠ j) : ((net.take i s).receive j l data).node i' = net.node i' := by
  simp [receive, take, h]

/-- With buffers, a frame is queued behind the others of its session. -/
theorem sendCe_wire {n : PathNode} (hbuf : ∀ c, n.cfg.getBuff via c = true) (s : Slot) :
    ((n.sendCe via frame).peers s).wire =
      (n.peers s).wire ++ if s = via then [.frame pidCE frame] else [] := by
  unfold PathNode.sendCe Node.flexSendFrame
  by_cases hs : s = via
  · subst hs
    simp [Env.flexSendFrame, hbuf]
  · rw [if_neg hs, List.append_nil]
    simp [hs]

/-- What is under way after a frame arrived and was answered by one frame of its receiver. -/
theorem underWay_sent {frames : ℕ → Slot → List WireEvent}
    (hframes : ∀ i s, net.UnderWay i s (frames i s)) (hone : frames i s = [.frame pidCE data])
    (hnone : frames j via = [])
    (hreceive : (net.node j).flexNetProcessCE l data = (net.node j).sendCe via frame)
    (hbuf : ∀ c, (net.node j).cfg.getBuff via c = true) :
    ∀ i' s', ((net.take i s).receive j l data).UnderWay i' s'
      (if i' = j ∧ s' = via then [.frame pidCE frame]
        else if i' = i ∧ s' = s then [] else frames i' s') := by
  intro i' s'
  obtain ⟨sent, hwire, hlen⟩ := hframes i' s'
  have hother : ¬ (j = i ∧ via = s) := by
    rintro ⟨rfl, rfl⟩
    rw [hone] at hnone
    cases hnone
  have htaken : ((net.take i s).receive j l data).taken i' s' =
      net.taken i' s' + if i' = i ∧ s' = s then 1 else 0 := by
    simp only [receive, take]
    by_cases hi : i' = i
    · subst hi
      rw [Function.update_self]
      by_cases hs : s' = s
      · subst hs
        simp
      · simp [hs]
    · simp [hi]
  have hsent : ((net.take i s).receive j l data).wire i' s' =
      net.wire i' s' ++ if i' = j ∧ s' = via then [.frame pidCE frame] else [] := by
    simp only [wire, receive, take, hreceive]
    by_cases hj : i' = j
    · subst hj
      rw [Function.update_self, sendCe_wire hbuf]
      simp
    · simp [hj]
  by_cases hnew : i' = j ∧ s' = via
  · obtain ⟨rfl, rfl⟩ := hnew
    rw [hnone, List.append_nil] at hwire
    rw [if_pos ⟨rfl, rfl⟩]
    refine ⟨sent, ?_, ?_⟩
    · rw [hsent, hwire, if_pos ⟨rfl, rfl⟩]
    · rw [htaken, if_neg hother, hlen, Nat.add_zero]
  · rw [if_neg hnew]
    by_cases hhere : i' = i ∧ s' = s
    · obtain ⟨rfl, rfl⟩ := hhere
      rw [if_pos ⟨rfl, rfl⟩]
      refine ⟨sent ++ [.frame pidCE data], ?_, ?_⟩
      · rw [hsent, if_neg hnew, hwire, hone]
      · rw [htaken, if_pos ⟨rfl, rfl⟩, ← hlen, List.length_append, List.length_singleton]
    · rw [if_neg hhere]
      refine ⟨sent, ?_, ?_⟩
      · rw [hsent, if_neg hnew, List.append_nil, hwire]
      · rw [htaken, if_neg hhere, hlen, Nat.add_zero]

/-- What is under way after a frame arrived and nothing came of it. -/
theorem underWay_dropped {frames : ℕ → Slot → List WireEvent}
    (hframes : ∀ i s, net.UnderWay i s (frames i s)) (hone : frames i s = [.frame pidCE data])
    (hreceive : (net.node j).flexNetProcessCE l data = net.node j) :
    ∀ i' s', ((net.take i s).receive j l data).UnderWay i' s'
      (if i' = i ∧ s' = s then [] else frames i' s') := by
  intro i' s'
  obtain ⟨sent, hwire, hlen⟩ := hframes i' s'
  have hnode : ((net.take i s).receive j l data).node = net.node := by
    rw [receive]
    dsimp only [take]
    rw [hreceive, Function.update_eq_self]
  have hsame : ((net.take i s).receive j l data).wire i' s' = net.wire i' s' := by
    rw [wire, hnode]
    rfl
  by_cases hhere : i' = i ∧ s' = s
  · obtain ⟨rfl, rfl⟩ := hhere
    rw [if_pos ⟨rfl, rfl⟩]
    refine ⟨sent ++ [.frame pidCE data], ?_, ?_⟩
    · rw [hsame, hwire, hone, List.append_nil]
    · simp [receive, take, hlen]
  · rw [if_neg hhere]
    refine ⟨sent, hsame.trans hwire, hlen.trans ?_⟩
    simp only [receive, take]
    by_cases hi : i' = i
    · subst hi
      rw [Function.update_self, Function.update_of_ne fun hs => hhere ⟨rfl, hs⟩]
    · rw [Function.update_of_ne hi]

end PathNet

/-! ## The line -/

/-- A line of nodes from the asker, node 0, to node `k`, which has the target as a neighbour: node
`i` has a session `up i` with the node before it and `down i` with the one after it, and reaches the
target over the latter.  Nothing is under way. -/
structure Line (cables : Cables) (net : PathNet) (target : CStr) (k : ℕ) where
  up : ℕ → Slot
  down : ℕ → Slot
  row : ℕ → ℕ
  dest : ℕ → DestEntry
  pos : 0 < k
  named : ∀ i, i ≤ k → PathCall (net.node i).cfg.pathCall
  targetNamed : PathCall target
  distinct : ∀ i j, i ≤ k → j ≤ k → i ≠ j →
    strcasecmp (net.node i).cfg.pathCall (net.node j).cfg.pathCall = false
  beyond : ∀ i, i ≤ k → strcasecmp target (net.node i).cfg.pathCall = false
  buffers : ∀ i, i ≤ k → ∀ s c, (net.node i).cfg.getBuff s c = true
  idle : ∀ i s, net.UnderWay i s []
  downLive : ∀ i, i < k → (net.node i).live (down i) = true
  downPeer : ∀ i, i < k → (net.node i).sessPeerCall (down i) = (net.node (i + 1)).cfg.pathCall
  downCable : ∀ i, i < k → ∃ l, cables i (down i) = some (i + 1, l) ∧
    (net.node (i + 1)).flexFindSession l = some (up (i + 1))
  upPeer : ∀ i, i < k → (net.node (i + 1)).sessPeerCall (up (i + 1)) = (net.node i).cfg.pathCall
  upCable : ∀ i, i < k → ∃ l, cables (i + 1) (up (i + 1)) = some (i, l) ∧
    (net.node i).flexFindSession l = some (down i)
  forward : ∀ i, 0 < i → i ≤ k → (net.node i).pathForward = true
  routes : ∀ i, 0 < i → i ≤ k → (net.node i).Routes target (row i) (dest i)
  cold : ∀ i, 0 < i → i < k → (dest i).path = []
  via : ∀ i, 0 < i → i < k → (net.node i).healedVia (dest i) = some (down i)
  notAdjacent : ∀ i, 0 < i → i < k → (net.node i).flexTargetIsDirectPeer target = false
  adjacent : (net.node k).flexTargetIsDirectPeer target = true
  cap : ∀ i, 0 < i → i ≤ k → k ≤ (net.node i).digiCap (up i)

namespace Line

variable {cables : Cables} {net : PathNet} {target : CStr} {k : ℕ}

/-- A query of the asker for the target, to its neighbour in the line: what
`flex_send_path_req_ex` needs for it, and the probe that it left. -/
structure Asked (line : Line cables net target k) (m : PathNode) (p : ProbeSlot) : Prop where
  sent : ∃ call ssid, PathNode.probeTarget call ssid = target ∧
    (net.node 0).flexSendPathReqEx (some (line.row 0)) call ssid = (m, .ok p)
  via : ((net.node 0).flexProbeSession (some (line.row 0)) target).2 = some (line.down 0)
  row : (net.node 0).dests[line.row 0]? = some (line.dest 0)
  covers : flexCallInRange target (line.dest 0).key.call.bytes (line.dest 0).key.lo
    (line.dest 0).key.hi = true

/-- The nodes between the asker and the target, and the target: the full chain. -/
def chain (net : PathNet) (target : CStr) (k : ℕ) : List CStr :=
  (List.range k).map (fun i => (net.node (i + 1)).cfg.pathCall) ++ [target]

/-- The network once the asker has sent its query. -/
def asked (net : PathNet) (m : PathNode) : PathNet :=
  { net with node := Function.update net.node 0 m }

/-- The asker's probe is done, and the full chain is cached for the target. -/
def Answered (line : Line cables net target k) (m : PathNode) (p : ProbeSlot) (net' : PathNet) :
    Prop :=
  (net'.node 0).pendingQso (m.probes p).qso = false ∧
    (net'.node 0).chains[line.row 0]? = some ((line.dest 0).key,
      (chain net target k).map .ofCStr, (net.node 0).now)

/-! ### The stages of the query -/

/-- The callsigns of the request that node `j` sends on. -/
def requestCalls (net : PathNet) (target : CStr) (j : ℕ) : List CStr :=
  (net.node 0).cfg.pathCall ::
    ((List.range (j + 1)).map (fun i => (net.node (i + 1)).cfg.pathCall) ++ [target])

/-- The request that node `j` sends on. -/
def request (net : PathNet) (target : CStr) (qso : ℤ) (j : ℕ) : CStr :=
  pathFrame 0x36 (UInt8.ofNat (0x21 + j)) (qsoField qso false) (requestCalls net target j)
    (if j = 0 then [] else [0x0D])

/-- The answer of the last node. -/
def answer (net : PathNet) (target : CStr) (qso : ℤ) (k : ℕ) : CStr :=
  pathFrame 0x37 0x23 (qsoField qso false)
    [(net.node 0).cfg.pathCall, (net.node k).cfg.pathCall, target] []

/-- What is under way: the request on its way from node `j`, then the answer, then nothing. -/
def stageFrames (line : Line cables net target k) (qso : ℤ) (j : ℕ) (i : ℕ) (s : Slot) :
    List WireEvent :=
  if j < k ∧ i = j ∧ s = line.down j then [.frame pidCE (request net target qso j)]
  else if j = k ∧ i = k ∧ s = line.up k then [.frame pidCE (answer net target qso k)]
  else []

/-- The query has come to node `j`: the nodes beyond it are as they were, the others have sent. -/
structure Stage (line : Line cables net target k) (m : PathNode) (p : ProbeSlot) (j : ℕ)
    (net' : PathNet) : Prop where
  asker : net'.node 0 = m
  ahead : ∀ i, 0 < i → j < i → net'.node i = net.node i
  others : ∀ i, 0 < i → ∃ peers, net'.node i = { net.node i with peers := peers }
  frames : ∀ i s, net'.UnderWay i s (line.stageFrames (m.probes p).qso j i s)

/-- The chain stays within what a frame can name. -/
theorem short (line : Line cables net target k) : k ≤ 8 := by
  have hcap := line.cap k line.pos le_rfl
  have hmax : (net.node k).digiCap (line.up k) ≤ l2MaxDigis := by
    unfold PathNode.digiCap
    split
    · exact le_rfl
    · split
      · exact le_rfl
      · exact Nat.min_le_right _ _
  exact hcap.trans hmax

theorem requestCalls_named (line : Line cables net target k) {j : ℕ} (hj : j < k) :
    ∀ call ∈ requestCalls net target j, PathCall call := by
  intro call hcall
  simp only [requestCalls, List.mem_cons, List.mem_append, List.mem_map, List.mem_range,
    List.not_mem_nil, or_false] at hcall
  rcases hcall with rfl | ⟨i, hi, rfl⟩ | rfl
  · exact line.named 0 (by omega)
  · exact line.named (i + 1) (by omega)
  · exact line.targetNamed

/-- What a query leaves at the asker. -/
structure Sent (line : Line cables net target k) (m : PathNode) (p : ProbeSlot) : Prop where
  env : m.toEnv = (net.node 0).toEnv
  count : m.sessionCount = (net.node 0).sessionCount
  active : (m.probes p).active = true
  qso : (m.probes p).qso = m.qsoCounter.toNat
  counter : 0 < m.qsoCounter.toNat
  own : ∀ i, (m.probes i).active = true → (m.probes i).qso = (m.probes p).qso → i = p
  dest : (m.probes p).destIndex = some (line.row 0)
  row : ∃ d, m.dests[line.row 0]? = some d ∧ d.key = (line.dest 0).key
  wire : ∀ s, (m.peers s).wire = ((net.node 0).peers s).wire ++
    if s = line.down 0 then [.frame pidCE (request net target (m.probes p).qso 0)] else []

theorem Sent.qso_bounds {line : Line cables net target k} {m : PathNode} {p : ProbeSlot}
    (h : line.Sent m p) : 0 ≤ (m.probes p).qso ∧ (m.probes p).qso < 100000 := by
  have hlt := m.qsoCounter.toNat_lt
  rw [h.qso]
  omega

theorem Asked.leaves {line : Line cables net target k} {m : PathNode} {p : ProbeSlot}
    (h : line.Asked m p) : line.Sent m p := by
  obtain ⟨call, ssid, htarget, hsend⟩ := h.sent
  obtain ⟨hactive, hqso, hown⟩ := PathNode.qso_sent hsend
  obtain ⟨n', s, counter, qso, frame, hvia, hfresh, hframe, rfl⟩ :=
    PathNode.flexSendPathReqEx_ok hsend
  have hdown := h.via
  have hkept := PathNode.kept_flexProbeSession (net.node 0) (some (line.row 0)) target
  obtain ⟨-, -, hpeers, hcount⟩ := (net.node 0).flexProbeSession_probes (some (line.row 0)) target
  rw [htarget] at hvia hframe
  rw [hvia] at hdown hkept hpeers hcount
  obtain rfl : s = line.down 0 := Option.some.inj hdown
  have henv : n'.toEnv = (net.node 0).toEnv := hkept.env
  have hpos := line.pos
  have hframe' : frame = request net target qso 0 := by
    have hcalls := line.requestCalls_named (j := 0) hpos
    rw [show n'.cfg.pathCall = (net.node 0).cfg.pathCall by rw [henv],
      show n'.sessPeerCall (line.down 0) = (net.node 1).cfg.pathCall by
        rw [henv]; exact line.downPeer 0 hpos,
      flexBuildPathReq_eq (by simpa [requestCalls] using hcalls) (by decide)] at hframe
    rw [← Option.some.inj hframe]
    simp [request, requestCalls]
  refine ⟨henv, hcount, hactive, hqso, ?_, hown, by simp [PathNode.sendProbe], ?_, fun s => ?_⟩
  · obtain ⟨t, -, rfl, -⟩ := freshQso_some hfresh
    rw [show (PathNode.sendProbe _ p (line.down 0) qso (some (line.row 0)) call ssid
      frame).qsoCounter = nextQso^[t + 1] n'.qsoCounter from rfl, Function.iterate_succ_apply',
      toNat_nextQso]
    omega
  · have hrow := congrArg (fun rows => rows[line.row 0]?) hkept.chains
    simp only [PathNode.chains, List.getElem?_map, h.row, Option.map_some,
      Option.map_eq_some_iff] at hrow
    obtain ⟨d, hd, hkey⟩ := hrow
    exact ⟨d, hd, (Prod.ext_iff.mp hkey).1⟩
  · have hbuf : ∀ c, n'.cfg.getBuff (line.down 0) c = true := fun c => by
      rw [henv]
      exact line.buffers 0 (Nat.zero_le _) _ c
    change ((n'.sendCe (line.down 0) frame).peers s).wire = _
    rw [PathNet.sendCe_wire hbuf s, hpeers, hframe']
    simp [PathNode.sendProbe]

/-- The session node `j` sends on, and what it sends, when the request has come to it. -/
def nextSession (line : Line cables net target k) (j : ℕ) : Slot :=
  if j < k then line.down j else line.up k

def nextFrame (net : PathNet) (target : CStr) (k : ℕ) (qso : ℤ) (j : ℕ) : CStr :=
  if j < k then request net target qso j else answer net target qso k

theorem strcasecmp_self (call : CStr) : strcasecmp call call = true := by simp [strcasecmp]

/-- A node in the line sends the request on, and the last one answers. -/
theorem node_handles (line : Line cables net target k) {j : ℕ} (hj : j < k) {qso : ℤ}
    (h₀ : 0 ≤ qso) (h₁ : qso < 100000) {l : LinkId}
    (hl : (net.node (j + 1)).flexFindSession l = some (line.up (j + 1))) :
    (net.node (j + 1)).flexNetProcessCE l (request net target qso j) =
      (net.node (j + 1)).sendCe (line.nextSession (j + 1))
        (nextFrame net target k qso (j + 1)) := by
  have hshort := line.short
  have hcalls := line.requestCalls_named hj
  have htail : EndsCalls (if j = 0 then [] else [0x0D]) := by
    intro b hb
    split_ifs at hb
    · cases hb
    · exact (Option.some.inj hb).symm
  have hlen : ((List.range (j + 1)).map fun i => (net.node (i + 1)).cfg.pathCall).length + 2 <
      maxPathHops := by
    rw [List.length_map, List.length_range, maxPathHops]
    omega
  have hroutes := line.routes (j + 1) (by omega) hj
  unfold request requestCalls
  rw [PathNode.flexNetProcessCE_pathFrame (.inl rfl) hl, if_pos rfl]
  unfold requestCalls at hcalls
  by_cases hlast : j + 1 < k
  · -- a node in the middle
    have hpeer := line.downPeer (j + 1) hlast
    have hnew : ∀ call ∈ (net.node 0).cfg.pathCall ::
        ((List.range (j + 1)).map (fun i => (net.node (i + 1)).cfg.pathCall) ++ [target]),
        strcasecmp call ((net.node (j + 1)).sessPeerCall (line.down (j + 1))) = false := by
      intro call hcall
      rw [hpeer]
      simp only [List.mem_cons, List.mem_append, List.mem_map, List.mem_range, List.not_mem_nil,
        or_false] at hcall
      rcases hcall with rfl | ⟨i, hi, rfl⟩ | rfl
      · exact line.distinct 0 (j + 1 + 1) (by omega) (by omega) (by omega)
      · exact line.distinct (i + 1) (j + 1 + 1) (by omega) (by omega) (by omega)
      · exact line.beyond (j + 1 + 1) (by omega)
    have hasker : line.down (j + 1) ≠ line.up (j + 1) := by
      intro heq
      have hsame := line.distinct (j + 1 + 1) j (by omega) (by omega) (by omega)
      rw [← hpeer, heq, line.upPeer j hj, strcasecmp_self] at hsame
      cases hsame
    have hcold : (net.node (j + 1)).cacheUsable (line.dest (j + 1)) = false := by
      simp [PathNode.cacheUsable, line.cold (j + 1) (by omega) hlast]
    rw [PathNode.flexHandlePathReq_forwards hroutes hcalls (length_qsoField qso false) hlen htail
      (line.forward (j + 1) (by omega) hj) (line.notAdjacent (j + 1) (by omega) hlast) hcold
      (line.via (j + 1) (by omega) hlast) (line.downLive (j + 1) hlast) hasker
      (hpeer ▸ line.named (j + 1 + 1) (by omega)) hnew, hpeer]
    simp only [nextSession, nextFrame, if_pos hlast, request, requestCalls]
    rw [List.range_succ (n := j + 1), List.map_append, List.append_assoc, if_neg (by omega),
      show UInt8.ofNat (0x21 + (j + 1)) = UInt8.ofNat (0x21 + j) + 1 by
        rw [← Nat.add_assoc, UInt8.ofNat_add]; rfl]
    rfl
  · -- the neighbour of the target
    obtain rfl : k = j + 1 := by omega
    have hcap := line.cap (j + 1) (by omega) le_rfl
    rw [PathNode.flexHandlePathReq_answers hroutes hcalls (line.named (j + 1) le_rfl) h₀ h₁ hlen
      htail line.adjacent (by omega)]
    simp only [nextSession, nextFrame, if_neg hlast, answer]

/-- At the start the request is on its way to the first node. -/
theorem stage_asked {line : Line cables net target k} {m : PathNode} {p : ProbeSlot}
    (h : line.Sent m p) : line.Stage m p 0 (asked net m) := by
  have hother : ∀ i, 0 < i → (asked net m).node i = net.node i := fun i hi =>
    Function.update_of_ne (by omega) _ _
  refine ⟨by simp [asked], fun i hi _ => hother i hi,
    fun i hi => ⟨(net.node i).peers, hother i hi⟩, fun i s => ?_⟩
  obtain ⟨sent, hwire, hlen⟩ := line.idle i s
  have hpos := line.pos
  refine ⟨sent, ?_, hlen⟩
  rw [List.append_nil] at hwire
  by_cases hi : i = 0
  · subst hi
    rw [PathNet.wire, asked]
    dsimp only
    rw [Function.update_self, h.wire, show ((net.node 0).peers s).wire = sent from hwire]
    by_cases hs : s = line.down 0
    · simp [stageFrames, hpos, hs]
    · simp [stageFrames, hs, hpos.ne]
  · rw [PathNet.wire, hother i (by omega), show ((net.node i).peers s).wire = sent from hwire]
    simp [stageFrames, hi, hpos.ne]

/-- The frame that is under way, while the query has not come to node `k` and back to the one
before it. -/
theorem stageFrames_here (line : Line cables net target k) {qso : ℤ} {j : ℕ} (hj : j ≤ k) :
    line.stageFrames qso j j (line.nextSession j) =
      [.frame pidCE (nextFrame net target k qso j)] := by
  unfold stageFrames nextSession nextFrame
  by_cases hlast : j < k
  · simp [hlast]
  · obtain rfl : j = k := by omega
    simp

/-- Nothing else is. -/
theorem stageFrames_else (line : Line cables net target k) {qso : ℤ} {i j : ℕ} {s : Slot}
    (h : ¬ (j ≤ k ∧ i = j ∧ s = line.nextSession j)) : line.stageFrames qso j i s = [] := by
  unfold stageFrames
  unfold nextSession at h
  by_cases hlast : j < k
  · have hnot : ¬ (i = j ∧ s = line.down j) := by
      rintro ⟨hi, hs⟩
      exact h ⟨hlast.le, hi, by rw [if_pos hlast, hs]⟩
    rw [if_neg fun hc => hnot hc.2, if_neg (by omega)]
  · rw [if_neg (by omega), if_neg]
    rintro ⟨hk, hi, hs⟩
    exact h ⟨hk.le, hi.trans hk.symm, by rw [if_neg hlast, hs]⟩

/-- The request comes to node `j + 1`, which sends the next frame. -/
theorem stage_step {line : Line cables net target k} {m : PathNode} {p : ProbeSlot}
    (hsent : line.Sent m p) {j : ℕ} (hj : j < k) {net' : PathNet} (h : line.Stage m p j net') :
    line.Stage m p (j + 1) (net'.deliver cables (j, line.nextSession j)) := by
  obtain ⟨h₀, h₁⟩ := hsent.qso_bounds
  obtain ⟨l, hcable, hl⟩ := line.downCable j hj
  have hnode : net'.node (j + 1) = net.node (j + 1) := h.ahead (j + 1) (by omega) (by omega)
  have hone := @stageFrames_here _ _ _ _ line (m.probes p).qso _ hj.le
  have hreceive := line.node_handles hj h₀ h₁ hl
  rw [← hnode] at hreceive
  have hdown : line.nextSession j = line.down j := if_pos hj
  have hframe : nextFrame net target k (m.probes p).qso j = request net target (m.probes p).qso j :=
    if_pos hj
  have hunder := h.frames j (line.nextSession j)
  rw [hone] at hunder
  rw [PathNet.deliver_frame hunder (by rw [hdown]; exact hcable)]
  rw [hframe] at hone ⊢
  have hframes := PathNet.underWay_sent h.frames hone
    (line.stageFrames_else (by omega)) hreceive
    (by rw [hnode]; exact line.buffers (j + 1) (by omega) _)
  have hsame : ∀ i, i ≠ j + 1 → ((net'.take j (line.nextSession j)).receive (j + 1) l
      (request net target (m.probes p).qso j)).node i = net'.node i := fun i hi =>
    net'.node_elsewhere j _ l _ hi
  have hnew : ((net'.take j (line.nextSession j)).receive (j + 1) l
      (request net target (m.probes p).qso j)).node (j + 1) =
        (net'.node (j + 1)).sendCe (line.nextSession (j + 1))
          (nextFrame net target k (m.probes p).qso (j + 1)) :=
    (net'.node_arrived j _ (j + 1) l _).trans hreceive
  refine ⟨(hsame 0 (by omega)).trans h.asker, fun i hi hij => ?_, fun i hi => ?_, fun i s => ?_⟩
  · rw [hsame i (by omega)]
    exact h.ahead i hi (by omega)
  · by_cases hhere : i = j + 1
    · subst hhere
      rw [hnew, hnode]
      exact ⟨_, rfl⟩
    · rw [hsame i hhere]
      exact h.others i hi
  · have hhere := hframes i s
    by_cases hto : i = j + 1 ∧ s = line.nextSession (j + 1)
    · obtain ⟨rfl, rfl⟩ := hto
      rw [if_pos ⟨rfl, rfl⟩] at hhere
      rw [line.stageFrames_here hj]
      exact hhere
    · rw [if_neg hto] at hhere
      rw [line.stageFrames_else fun hc => hto ⟨hc.2.1, hc.2.2⟩]
      by_cases hfrom : i = j ∧ s = line.nextSession j
      · rw [if_pos hfrom] at hhere
        exact hhere
      · rw [if_neg hfrom, line.stageFrames_else fun hc => hfrom ⟨hc.2.1, hc.2.2⟩] at hhere
        exact hhere

/-- The answer of the last node names none of those in between, and the node before it drops it. -/
theorem stage_drop {line : Line cables net target k} {m : PathNode} {p : ProbeSlot}
    (hsent : line.Sent m p) (hk : 1 < k)
    (hother : (net.node (k - 1)).pendingQso (m.probes p).qso = false) {net' : PathNet}
    (h : line.Stage m p k net') :
    line.Stage m p (k + 1) (net'.deliver cables (k, line.nextSession k)) := by
  obtain ⟨j, rfl⟩ : ∃ j, k = j + 1 := ⟨k - 1, by omega⟩
  obtain ⟨h₀, h₁⟩ := hsent.qso_bounds
  obtain ⟨l, hcable, hl⟩ := line.upCable j (by omega)
  obtain ⟨peers, hnode⟩ := h.others j (by omega)
  have hone := @stageFrames_here _ _ _ _ line (m.probes p).qso _ (le_refl (j + 1))
  have hup : line.nextSession (j + 1) = line.up (j + 1) := if_neg (by omega)
  have hframe : nextFrame net target (j + 1) (m.probes p).qso (j + 1) =
      answer net target (m.probes p).qso (j + 1) := if_neg (by omega)
  have hunder := h.frames (j + 1) (line.nextSession (j + 1))
  rw [hone] at hunder
  rw [PathNet.deliver_frame hunder (by rw [hup]; exact hcable)]
  rw [hframe] at hone ⊢
  have hreceive : (net'.node j).flexNetProcessCE l (answer net target (m.probes p).qso (j + 1)) =
      net'.node j := by
    have hcalls : ∀ call ∈ (net.node 0).cfg.pathCall :: [(net.node (j + 1)).cfg.pathCall, target],
        PathCall call := by
      intro call hcall
      simp only [List.mem_cons, List.not_mem_nil, or_false] at hcall
      rcases hcall with rfl | rfl | rfl
      · exact line.named 0 (by omega)
      · exact line.named (j + 1) le_rfl
      · exact line.targetNamed
    have habsent : ∀ call ∈ [(net.node (j + 1)).cfg.pathCall, target],
        strcasecmp call (net'.node j).cfg.pathCall = false := by
      intro call hcall
      rw [hnode]
      simp only [List.mem_cons, List.not_mem_nil, or_false] at hcall
      rcases hcall with rfl | rfl
      · exact line.distinct (j + 1) j le_rfl (by omega) (by omega)
      · exact line.beyond j (by omega)
    have hfind : (net'.node j).flexFindSession l = some (line.down j) := by
      rw [hnode]
      exact hl
    have hpending : (net'.node j).pendingQso (m.probes p).qso = false := by
      rw [hnode]
      exact hother
    unfold answer
    rw [PathNode.flexNetProcessCE_pathFrame (.inr rfl) hfind, if_neg (by decide)]
    exact PathNode.flexHandlePathRep_drops hcalls h₀ h₁ (by simp [maxPathHops])
      (fun b hb => nomatch hb) hpending habsent
  have hframes := PathNet.underWay_dropped h.frames hone hreceive
  have hsame : ((net'.take (j + 1) (line.nextSession (j + 1))).receive j l
      (answer net target (m.probes p).qso (j + 1))).node = net'.node := by
    rw [PathNet.receive]
    dsimp only [PathNet.take]
    rw [hreceive, Function.update_eq_self]
  refine ⟨by rw [hsame]; exact h.asker, fun i hi hij => ?_, fun i hi => ?_, fun i s => ?_⟩
  · rw [hsame]
    exact h.ahead i hi (by omega)
  · rw [hsame]
    exact h.others i hi
  · have hhere := hframes i s
    rw [line.stageFrames_else (by omega)]
    by_cases hfrom : i = j + 1 ∧ s = line.nextSession (j + 1)
    · rw [if_pos hfrom] at hhere
      exact hhere
    · rw [if_neg hfrom, line.stageFrames_else fun hc => hfrom ⟨hc.2.1, hc.2.2⟩] at hhere
      exact hhere

/-- Whatever is delivered next, a query to a line of two nodes or more goes on to its next stage or
stays where it is. -/
theorem stage_deliver {line : Line cables net target k} {m : PathNode} {p : ProbeSlot}
    (hsent : line.Sent m p) (hk : 1 < k)
    (hother : (net.node (k - 1)).pendingQso (m.probes p).qso = false) {net' : PathNet}
    (h : ∃ j, line.Stage m p j net') (e : ℕ × Slot) :
    ∃ j, line.Stage m p j (net'.deliver cables e) := by
  obtain ⟨j, h⟩ := h
  obtain ⟨i, s⟩ := e
  by_cases hnext : j ≤ k ∧ i = j ∧ s = line.nextSession j
  · obtain ⟨hj, rfl, rfl⟩ := hnext
    by_cases hlast : i < k
    · exact ⟨i + 1, stage_step hsent hlast h⟩
    · obtain rfl : i = k := by omega
      exact ⟨i + 1, stage_drop hsent hk hother h⟩
  · have hnothing := h.frames i s
    rw [line.stageFrames_else hnext] at hnothing
    rw [PathNet.deliver_nothing hnothing]
    exact ⟨j, h⟩

/-- With one node in between, the answer names the full chain, and the asker takes it. -/
theorem stage_accept {line : Line cables net target 1} {m : PathNode} {p : ProbeSlot}
    (hasked : line.Asked m p) {net' : PathNet} (h : line.Stage m p 1 net') :
    line.Answered m p (net'.deliver cables (1, line.nextSession 1)) := by
  have hsent := hasked.leaves
  obtain ⟨h₀, h₁⟩ := hsent.qso_bounds
  obtain ⟨l, hcable, hl⟩ := line.upCable 0 (by omega)
  obtain ⟨d, hd, hkey⟩ := hsent.row
  have hone := @stageFrames_here _ _ _ _ line (m.probes p).qso _ (le_refl 1)
  have hunder := h.frames 1 (line.nextSession 1)
  rw [hone] at hunder
  rw [PathNet.deliver_frame hunder hcable]
  have hcalls : ∀ call ∈ (net.node 0).cfg.pathCall :: [(net.node 1).cfg.pathCall, target],
      PathCall call := by
    intro call hcall
    simp only [List.mem_cons, List.not_mem_nil, or_false] at hcall
    rcases hcall with rfl | rfl | rfl
    · exact line.named 0 (by omega)
    · exact line.named 1 le_rfl
    · exact line.targetNamed
  have hfind : m.flexFindSession l = some (line.down 0) := by
    rw [← hl]
    unfold Node.flexFindSession
    rw [hsent.env, hsent.count]
  have hours : m.cfg = (net.node 0).cfg := by rw [hsent.env]
  have hloop : flexChainHasCall
      ([(net.node 1).cfg.pathCall, target].map Callsign.ofCStr) m.cfg.pathCall = false := by
    rw [hours]
    simp [flexChainHasCall, PathNode.bytes_ofCStr (line.named 1 le_rfl),
      PathNode.bytes_ofCStr line.targetNamed,
      line.distinct 1 0 le_rfl (by omega) (by omega), line.beyond 0 (by omega)]
  have hend : flexChainEndsAt ([(net.node 1).cfg.pathCall, target].map Callsign.ofCStr) d.key =
      true := by
    rw [hkey]
    simpa [flexChainEndsAt, PathNode.bytes_ofCStr line.targetNamed] using hasked.covers
  have hanswer := PathNode.acceptAnswer_cached (f := readFrame 0x37 0x23
    (qsoField (m.probes p).qso false) (net.node 0).cfg.pathCall [(net.node 1).cfg.pathCall, target])
    hsent.qso hsent.counter hsent.own hsent.dest hd hloop hend
  have hreceive : ((net'.take 1 (line.nextSession 1)).receive 0 l
      (nextFrame net target 1 (m.probes p).qso 1)).node 0 = m.acceptAnswer p (readFrame 0x37 0x23
        (qsoField (m.probes p).qso false) (net.node 0).cfg.pathCall
        [(net.node 1).cfg.pathCall, target]) := by
    rw [PathNet.node_arrived, h.asker]
    simp only [nextFrame, lt_irrefl, if_false, answer]
    rw [PathNode.flexNetProcessCE_pathFrame (.inr rfl) hfind, if_neg (by decide)]
    exact PathNode.flexHandlePathRep_accepts hcalls h₀ h₁ (by simp [maxPathHops])
      (fun b hb => nomatch hb) hsent.active rfl hsent.own
  unfold Answered
  rw [hreceive, hanswer.1, hanswer.2, hkey, hsent.env]
  exact ⟨rfl, rfl⟩

/-- In a line of two nodes or more, no order of deliveries brings the asker its answer: the probe
waits.  (The node before the last must not wait itself for an answer of that number, which it would
take.) -/
theorem unanswered {line : Line cables net target k} {m : PathNode} {p : ProbeSlot}
    (hasked : line.Asked m p) (hk : 1 < k)
    (hother : (net.node (k - 1)).pendingQso (m.probes p).qso = false) {es : List (ℕ × Slot)}
    {net' : PathNet} (hrun : Run (PathNet.deliver cables) (asked net m) es net') :
    ¬ line.Answered m p net' := by
  have hsent := hasked.leaves
  obtain ⟨j, hstage⟩ := hrun.invariant (I := fun t => ∃ j, line.Stage m p j t)
    (fun t e ht _ => stage_deliver hsent hk hother ht e) ⟨0, stage_asked hsent⟩
  rintro ⟨hdone, -⟩
  rw [hstage.asker] at hdone
  have hwaits : m.pendingQso (m.probes p).qso = true := by
    unfold PathNode.pendingQso
    rw [List.any_eq_true]
    exact ⟨p, List.mem_finRange p, by simp [hsent.active]⟩
  rw [hwaits] at hdone
  cases hdone

/-- A query along a line gets its answer, and the full chain is cached, exactly when there is one
node between the asker and the target. -/
theorem answered_iff (line : Line cables net target k) {m : PathNode} {p : ProbeSlot}
    (hasked : line.Asked m p)
    (hother : 1 < k → (net.node (k - 1)).pendingQso (m.probes p).qso = false) :
    (∃ es net', Run (PathNet.deliver cables) (asked net m) es net' ∧ line.Answered m p net') ↔
      k = 1 := by
  constructor
  · rintro ⟨es, net', hrun, hanswered⟩
    by_contra hne
    have hk : 1 < k := by
      have hpos := line.pos
      omega
    exact unanswered hasked hk (hother hk) hrun hanswered
  · rintro rfl
    have hfirst := stage_step hasked.leaves Nat.zero_lt_one (stage_asked hasked.leaves)
    refine ⟨[(0, line.nextSession 0), (1, line.nextSession 1)], _,
      .step _ (.step _ .start trivial) trivial, ?_⟩
    exact stage_accept hasked hfirst

end Line

/-! ## A line of one node, and of two -/

namespace Bench

open Line

/-- The station of one letter in row 0 and another in row 1. -/
def between (me prev next : UInt8) : LinkId → Link
  | 0 => { row (addr prev) with ourCall := addr me }
  | 1 => { row (addr next) with ourCall := addr me }
  | _ => {}

/-- A node with a session to each of them; the second has taught it `K`. -/
def member (me prev next : UInt8) : PathNode :=
  { (Node.boot { config true with myCall := addr me } [] [] (between me prev next) 1000).after
      [.initSession 0 1, .initSession 1 1, record 1 0x4B 10] with
    pathForward := true, portMaxDigis := fun _ => 0 }

/-- The stations of a line: `A`, `B`, ... up to number `k`, and `K` beyond them. -/
def station (k i : ℕ) : UInt8 := if k < i then 0x4B else 0x41 + UInt8.ofNat i

/-- Node `i` of the line; the asker has `Z` on its other side. -/
def lineNode (k i : ℕ) : PathNode :=
  member (station k i) (if i = 0 then 0x5A else station k (i - 1)) (station k (i + 1))

/-- The line, with everything delivered. -/
def lineNet (k : ℕ) : PathNet where
  node := lineNode k
  taken i s := ((lineNode k i).peers s).wire.length

def lineCables : Cables := fun i s =>
  if s = slotB then some (i + 1, 0) else if i = 0 then none else some (i - 1, 1)

/-- The row for `K`. -/
def lineRow (k i : ℕ) : ℕ := if i = k then 0 else 1

def lineDest (k i : ℕ) : DestEntry :=
  ((lineNode k i).dests[lineRow k i]?).getD { key := dest 0x4B, rtt := 0, isInfinity := true }

theorem line_buffers (k i : ℕ) (s : Slot) (c : ℕ) :
    ((lineNet k).node i).cfg.getBuff s c = true := by
  have hcfg : ∀ me prev next, (member me prev next).cfg = { config true with myCall := addr me } :=
    fun me prev next => Node.after_cfg
      (Node.linked_boot { config true with myCall := addr me } [] [] (between me prev next) 1000) _
  rw [show (lineNet k).node i = member _ _ _ from rfl, hcfg]
  rfl

theorem line_idle (k i : ℕ) (s : Slot) : (lineNet k).UnderWay i s [] :=
  ⟨((lineNode k i).peers s).wire, (List.append_nil _).symm, rfl⟩

set_option maxRecDepth 20000 in
/-- `A` and `B`, which has `K` as a neighbour. -/
def shortLine : Line lineCables (lineNet 1) [0x4B] 1 where
  up _ := slotA
  down _ := slotB
  row := lineRow 1
  dest := lineDest 1
  pos := by decide
  named := by decide +kernel
  targetNamed := by decide
  distinct i j hi hj := by
    have hall : ∀ i ≤ 1, ∀ j ≤ 1, i ≠ j → strcasecmp ((lineNet 1).node i).cfg.pathCall
        ((lineNet 1).node j).cfg.pathCall = false := by decide +kernel
    exact hall i hi j hj
  beyond := by decide +kernel
  buffers i _ := line_buffers 1 i
  idle := line_idle 1
  downLive := by decide +kernel
  downPeer := by decide +kernel
  downCable i hi := by
    interval_cases i
    exact ⟨0, by decide +kernel, by decide +kernel⟩
  upPeer := by decide +kernel
  upCable i hi := by
    interval_cases i
    exact ⟨1, by decide +kernel, by decide +kernel⟩
  forward i h0 hi := by
    interval_cases i
    rfl
  routes i h0 hi := by
    interval_cases i
    exact ⟨by decide +kernel, by decide +kernel, by decide +kernel, by decide +kernel⟩
  cold i h0 hi := by omega
  via i h0 hi := by omega
  notAdjacent i h0 hi := by omega
  adjacent := by decide +kernel
  cap i h0 hi := by
    interval_cases i
    decide +kernel

set_option maxRecDepth 20000 in
def longLine : Line lineCables (lineNet 2) [0x4B] 2 where
  up _ := slotA
  down _ := slotB
  row := lineRow 2
  dest := lineDest 2
  pos := by decide
  named := by decide +kernel
  targetNamed := by decide
  distinct i j hi hj := by
    have hall : ∀ i ≤ 2, ∀ j ≤ 2, i ≠ j → strcasecmp ((lineNet 2).node i).cfg.pathCall
        ((lineNet 2).node j).cfg.pathCall = false := by decide +kernel
    exact hall i hi j hj
  beyond := by decide +kernel
  buffers i _ := line_buffers 2 i
  idle := line_idle 2
  downLive := by decide +kernel
  downPeer := by decide +kernel
  downCable i hi := by
    interval_cases i <;> exact ⟨0, by decide +kernel, by decide +kernel⟩
  upPeer := by decide +kernel
  upCable i hi := by
    interval_cases i <;> exact ⟨1, by decide +kernel, by decide +kernel⟩
  forward i h0 hi := by interval_cases i <;> rfl
  routes i h0 hi := by
    interval_cases i <;>
      exact ⟨by decide +kernel, by decide +kernel, by decide +kernel, by decide +kernel⟩
  cold i h0 hi := by
    interval_cases i
    decide +kernel
  via i h0 hi := by
    interval_cases i
    decide +kernel
  notAdjacent i h0 hi := by
    interval_cases i
    decide +kernel
  adjacent := by decide +kernel
  cap i h0 hi := by interval_cases i <;> decide +kernel

/-- The asker of the line, once it has asked for `K`. -/
def asker (k : ℕ) : PathNode :=
  ((lineNode k 0).flexSendPathReqEx (some 1) (.ofCStr [0x4B]) (-1)).1

set_option maxRecDepth 20000 in
theorem asked_short : shortLine.Asked (asker 1) 0 where
  sent := ⟨.ofCStr [0x4B], -1, by decide +kernel, Prod.ext rfl (by rfl)⟩
  via := by decide +kernel
  row := by decide +kernel
  covers := by decide +kernel

set_option maxRecDepth 20000 in
theorem asked_long : longLine.Asked (asker 2) 0 where
  sent := ⟨.ofCStr [0x4B], -1, by decide +kernel, Prod.ext rfl (by rfl)⟩
  via := by decide +kernel
  row := by decide +kernel
  covers := by decide +kernel

/-- `A` asks `B`, which has `K` as a neighbour, and gets its answer. -/
theorem answered_short :
    ∃ es net', Run (PathNet.deliver lineCables) (asked (lineNet 1) (asker 1)) es
      net' ∧ shortLine.Answered (asker 1) 0 net' :=
  (shortLine.answered_iff asked_short fun h => absurd h (by decide)).mpr rfl

/-- With `B` and `C` in between it does not. -/
theorem not_always_answered :
    ¬ ∀ (cables : Cables) (net : PathNet) (target : CStr) (k : ℕ) (line : Line cables net target k)
      (m : PathNode) (p : ProbeSlot), line.Asked m p → ∃ es net',
        Run (PathNet.deliver cables) (asked net m) es net' ∧ line.Answered m p net' := by
  intro hall
  obtain ⟨es, net', hrun, hanswered⟩ := hall _ _ _ _ longLine _ _ asked_long
  exact unanswered asked_long (by decide) (by decide +kernel) hrun hanswered

end Bench

end FlexNet
