import FlexNet.Exchange.Paths
import Mathlib.Data.Prod.Lex

/-!
# Two nodes on a link

`Pair` is two nodes with a common link, and the CE frames under way on it in either direction; a
step hands any one of them to `FlexNet_ProcessCE`.  No timer fires and no clock advances.

Two frames keep such a link busy for ever: a TOKEN, which `FlexNet_ProcessCE` echoes whatever it has
echoed before, and an answer to somebody else's probe that `flex_relay_path_rep` relays to the
session it came by.  `Pair.falls_silent` is the rest: while neither is handled, the frames exchanged
have a bound.
-/

namespace FlexNet

open Runs

/-! ## A frame on the link of a session -/

namespace PathNode

variable {n m : PathNode} {s : Slot} {l : LinkId} {data : CStr}

/-- What handling a frame comes to: frames are dispatched as before, and what is said is paid for by
the probe on demand, by the stake of the frame and of the parked requests, or by a gate. -/
structure Answers (n : PathNode) (s : Slot) (data : CStr) (m : PathNode) : Prop where
  cfg : m.cfg = n.cfg
  now : m.now = n.now
  sessionCount : m.sessionCount = n.sessionCount
  active : ∀ i, (m.sessions i).active = (n.sessions i).active
  link : ∀ i, (m.sessions i).link = (n.sessions i).link
  probe : m.ProbeOpen → n.ProbeOpen
  paid : ∃ gained, (m.peers s).wire = (n.peers s).wire ++ gained ∧
    (n.ProbeOpen ∧ ¬ m.ProbeOpen ∨
      4 * m.parked + totalStake gained < 4 * n.parked + stake data ∨
      4 * m.parked + totalStake gained ≤ 4 * n.parked + stake data ∧
        m.openGates s ≤ n.openGates s ∧ (gained ≠ [] → m.openGates s < n.openGates s))

/-- A path frame is worth more than what it sets off. -/
theorem Pays.answers {cost : ℕ} (h : n.Pays s cost m) (hcost : cost < stake data) :
    n.Answers s data m := by
  obtain ⟨gained, hwire, hpaid⟩ := h.paid
  refine ⟨congrArg Env.cfg h.env, congrArg Env.now h.env, h.sessionCount,
    fun i => by rw [congrArg Env.sessions h.env],
    fun i => by rw [congrArg Env.sessions h.env], h.probe, gained, hwire, ?_⟩
  exact hpaid.imp_right fun hle => .inl (by omega)

/-- Frames of the other types do not reach the tables of the path layer. -/
theorem answers_of_speaks {node : Node} (h : n.toNode.Speaks s node)
    (hsettles : stake data = 0 → n.toNode.Settles s node) :
    n.Answers s data { n with toNode := node } := by
  obtain ⟨gained, hwire, hstake⟩ := h.told
  have hnone := totalStake_eq_zero hstake
  have hprobe : ({ n with toNode := node } : PathNode).ProbeOpen → n.ProbeOpen := fun hopen => by
    unfold ProbeOpen at hopen ⊢
    rwa [← h.now]
  refine ⟨h.cfg, h.now, h.sessionCount, h.active, h.link, hprobe, gained, hwire, .inr ?_⟩
  change 4 * n.parked + totalStake gained < 4 * n.parked + stake data ∨ 4 * n.parked +
    totalStake gained ≤ 4 * n.parked + stake data ∧ _
  by_cases hdata : stake data = 0
  · obtain ⟨hgates, hshut⟩ := (hsettles hdata).openGates
    refine .inr ⟨by omega, hgates, fun hsaid => hshut ?_⟩
    rw [hwire]
    simpa using hsaid
  · exact .inl (by omega)

/-- Every frame but a token is paid for, if it is not handed back. -/
theorem flexNetProcessCE_answers (hnow : 0 < n.now) (hs : n.flexFindSession l = some s)
    (htoken : flexParseCeFrame n.cfg.lt3byte data ≠ some .token)
    (hback : n.handsBack s data = false) : n.Answers s data (n.flexNetProcessCE l data) := by
  have hnode : n.toNode.flexNetProcessCE l data =
      if data.isEmpty then n.toNode else n.toNode.handleFrame s data := by
    unfold Node.flexNetProcessCE
    rw [hs]
  have hhandled : n.Answers s data
      { n with toNode := if data.isEmpty then n.toNode else n.toNode.handleFrame s data } := by
    split_ifs
    · exact answers_of_speaks (.refl n.toNode s) fun _ => .refl n.toNode s
    · obtain ⟨hspeaks, hsettles⟩ := n.toNode.handleFrame_speaks s data hnow htoken
      exact answers_of_speaks hspeaks hsettles
  have hfind : ∀ node : Node, node.sessionCount = n.sessionCount →
      (∀ i, (node.sessions i).active = (n.sessions i).active) →
      (∀ i, (node.sessions i).link = (n.sessions i).link) →
      node.flexFindSession l = some s := fun node hcount hactive hlink => by
    unfold Node.flexFindSession at hs ⊢
    simpa only [hcount, hactive, hlink] using hs
  have hquiet : ∀ t, flexParseCeFrame n.cfg.lt3byte data = some t → t = .pathReq ∨ t = .pathRep →
      n.toNode.handleFrame s data = n.toNode := fun t ht hpath => by
    unfold Node.handleFrame
    rw [ht]
    rcases hpath with rfl | rfl <;> rfl
  unfold flexNetProcessCE
  rw [hnode]
  dsimp only
  rw [hfind _ hhandled.sessionCount hhandled.active hhandled.link, hhandled.cfg]
  dsimp only
  split
  · rename_i hparse
    have hstake : stake data = 3 := by
      unfold stake
      rw [(Node.flexParseCeFrame_octets hparse).2.2.1 rfl, if_pos rfl]
    rw [hquiet _ hparse (.inl rfl), ite_self]
    refine (n.pays_flexHandlePathReq s s data).answers ?_
    rw [hstake, charge, if_pos rfl]
    omega
  · rename_i hparse
    have hstake : stake data = 1 := by
      unfold stake
      rw [(Node.flexParseCeFrame_octets hparse).2.2.2.1 rfl, if_neg (by decide), if_pos rfl]
    rw [hquiet _ hparse (.inr rfl), ite_self]
    exact (n.pays_flexHandlePathRep s data hback).answers (by omega)
  · exact hhandled

end PathNode

/-! ## The link -/

/-- The CE frame a queue event is. -/
def WireEvent.ceFrame : WireEvent → Option CStr
  | .frame pid data => if pid = pidCE then some data else none
  | .cleared => none

/-- The frames that are still on their way have the stake of the events that queued them. -/
theorem sum_stake_ceFrames (gained : List WireEvent) :
    ((gained.filterMap WireEvent.ceFrame).map stake).sum = totalStake gained := by
  induction gained with
  | nil => rfl
  | cons w gained ih =>
      have hsum : totalStake (w :: gained) = w.stake + totalStake gained := by simp [totalStake]
      rw [hsum, ← ih]
      cases w with
      | frame pid data =>
          by_cases hpid : pid = pidCE
          · simp [WireEvent.ceFrame, WireEvent.stake, hpid]
          · simp [WireEvent.ceFrame, WireEvent.stake, hpid]
      | cleared => exact (Nat.zero_add _).symm

/-- Two nodes, the rows of their common link, and the CE frames under way to each of them. -/
structure Pair where
  node : Bool → PathNode
  row : Bool → LinkId
  underWay : Bool → List CStr

namespace Pair

variable {w : Pair} {slot : Bool → Slot}

/-- The node on one side has handled a frame. -/
def hear (w : Pair) (side : Bool) (data : CStr) : PathNode :=
  (w.node side).flexNetProcessCE (w.row side) data

/-- What it put on the link by that, on any session of the row. -/
def said (w : Pair) (side : Bool) (data : CStr) : List CStr :=
  slots.flatMap fun i =>
    if ((w.node side).sessions i).link = some (w.row side) then
      (((w.hear side data).peers i).wire.drop ((w.node side).peers i).wire.length).filterMap
        WireEvent.ceFrame
    else []

/-- The `k`-th frame under way to a side arrives. -/
def deliver (w : Pair) (e : Bool × ℕ) : Pair :=
  match (w.underWay e.1)[e.2]? with
  | none => w
  | some data =>
    { w with
      node := Function.update w.node e.1 (w.hear e.1 data)
      underWay := Function.update (Function.update w.underWay e.1 ((w.underWay e.1).eraseIdx e.2))
        (!e.1) (w.underWay (!e.1) ++ w.said e.1 data) }

theorem deliver_eq {side : Bool} {k : ℕ} {data : CStr} (h : (w.underWay side)[k]? = some data) :
    w.deliver (side, k) = { w with
      node := Function.update w.node side (w.hear side data)
      underWay := Function.update (Function.update w.underWay side ((w.underWay side).eraseIdx k))
        (!side) (w.underWay (!side) ++ w.said side data) } := by
  unfold deliver
  rw [h]

/-- A frame is under way there. -/
def Arrives (w : Pair) (e : Bool × ℕ) : Prop := e.2 < (w.underWay e.1).length

/-- It is no TOKEN, and no answer that is relayed to where it came from. -/
def Settling (w : Pair) (e : Bool × ℕ) : Prop :=
  ∃ data, (w.underWay e.1)[e.2]? = some data ∧
    flexParseCeFrame (w.node e.1).cfg.lt3byte data ≠ some .token ∧
    ∀ s, (w.node e.1).flexFindSession (w.row e.1) = some s → (w.node e.1).handsBack s data = false

/-- The link has one session on either side. -/
structure Facing (w : Pair) (slot : Bool → Slot) : Prop where
  found : ∀ side, (w.node side).flexFindSession (w.row side) = some (slot side)
  alone : ∀ side i, ((w.node side).sessions i).link = some (w.row side) → i = slot side

/-- The clock of either side is set. -/
def ClockSet (w : Pair) : Prop := ∀ side, 0 < (w.node side).now

/-- One session speaks on the row. -/
theorem said_eq (hfacing : w.Facing slot) {side : Bool} {data : CStr} {gained : List WireEvent}
    (hwire : ((w.hear side data).peers (slot side)).wire =
      ((w.node side).peers (slot side)).wire ++ gained) :
    w.said side data = gained.filterMap WireEvent.ceFrame := by
  have hone : ∀ (g : Slot → List CStr) (l : List Slot), slot side ∈ l → l.Nodup →
      (∀ i, i ≠ slot side → g i = []) → l.flatMap g = g (slot side) := by
    intro g l hmem hnodup hnone
    induction l with
    | nil => cases hmem
    | cons i l ih =>
        rw [List.flatMap_cons]
        rcases List.mem_cons.mp hmem with rfl | hmem
        · have hrest : l.flatMap g = [] := by
            rw [List.flatMap_eq_nil_iff]
            intro j hj
            exact hnone j fun h => (List.nodup_cons.mp hnodup).1 (h ▸ hj)
          rw [hrest, List.append_nil]
        · have hne : i ≠ slot side := fun h => (List.nodup_cons.mp hnodup).1 (h ▸ hmem)
          rw [hnone i hne, List.nil_append, ih hmem (List.nodup_cons.mp hnodup).2]
  have hlink : ((w.node side).sessions (slot side)).link = some (w.row side) := by
    have hfound := List.find?_some (hfacing.found side)
    simp only [Bool.and_eq_true, beq_iff_eq] at hfound
    exact hfound.2
  unfold said
  rw [hone _ slots (mem_slots _) nodup_slots]
  · rw [if_pos hlink, hwire, List.drop_left]
  · intro i hi
    exact if_neg fun h => hi (hfacing.alone side i h)

/-! ## The measure -/

/-- A quantity of both sides. -/
def both (f : Bool → ℕ) : ℕ := f false + f true

theorem both_eq (f : Bool → ℕ) (side : Bool) : both f = f side + f (!side) := by
  cases side
  · rfl
  · exact Nat.add_comm _ _

/-- Probes on demand that may still go out; the stake of the frames under way and of the parked
requests; open gates; frames under way. -/
def activity (slot : Bool → Slot) (w : Pair) : ℕ ×ₗ ℕ ×ₗ ℕ ×ₗ ℕ :=
  toLex (both fun side => if (w.node side).ProbeOpen then 1 else 0,
    toLex (both fun side => 4 * (w.node side).parked + ((w.underWay side).map stake).sum,
      toLex (both fun side => (w.node side).openGates (slot side),
        both fun side => (w.underWay side).length)))

/-- A step that neither echoes a TOKEN nor hands an answer back. -/
theorem activity_deliver {e : Bool × ℕ} (hfacing : w.Facing slot) (hclock : w.ClockSet)
    (he : w.Settling e) : activity slot (w.deliver e) < activity slot w ∧
      (w.deliver e).Facing slot ∧ (w.deliver e).ClockSet := by
  obtain ⟨side, k⟩ := e
  obtain ⟨data, hdata, htoken, hback⟩ := he
  dsimp only at hdata htoken hback
  have hanswers : (w.node side).Answers (slot side) data (w.hear side data) :=
    PathNode.flexNetProcessCE_answers (hclock side) (hfacing.found side) htoken
      (hback _ (hfacing.found side))
  have hdelivered := deliver_eq hdata
  have hother : (!side) ≠ side := by cases side <;> decide
  set v := w.deliver (side, k)
  have hnode : v.node side = w.hear side data := by rw [hdelivered]; exact Function.update_self ..
  have hnode' : v.node (!side) = w.node (!side) := by
    rw [hdelivered]
    exact Function.update_of_ne hother ..
  have hrow : v.row = w.row := by rw [hdelivered]
  obtain ⟨gained, hwire, hpaid⟩ := hanswers.paid
  have hsaid := said_eq hfacing hwire
  have hleft : v.underWay side = (w.underWay side).eraseIdx k := by
    rw [hdelivered]
    dsimp only
    rw [Function.update_of_ne hother.symm, Function.update_self]
  have hgained : v.underWay (!side) =
      w.underWay (!side) ++ gained.filterMap WireEvent.ceFrame := by
    rw [hdelivered, ← hsaid]
    exact Function.update_self ..
  obtain ⟨hk, rfl⟩ := List.getElem?_eq_some_iff.mp hdata
  have hperm := (w.underWay side).getElem_cons_eraseIdx_perm hk
  have hstake : stake (w.underWay side)[k] + ((v.underWay side).map stake).sum =
      ((w.underWay side).map stake).sum := by
    rw [hleft, ← (hperm.map stake).sum_eq, List.map_cons, List.sum_cons]
  have hstake' : ((v.underWay (!side)).map stake).sum =
      ((w.underWay (!side)).map stake).sum + totalStake gained := by
    rw [hgained, List.map_append, List.sum_append, sum_stake_ceFrames]
  have hlength : (v.underWay side).length + 1 = (w.underWay side).length := by
    rw [hleft, ← hperm.length_eq, List.length_cons]
  have hlength' : (v.underWay (!side)).length =
      (w.underWay (!side)).length + (gained.filterMap WireEvent.ceFrame).length := by
    rw [hgained, List.length_append]
  have hprobe : (if (w.hear side (w.underWay side)[k]).ProbeOpen then 1 else 0) ≤
      if (w.node side).ProbeOpen then 1 else 0 := by
    split_ifs with hopen hopen'
    · exact le_rfl
    · exact absurd (hanswers.probe hopen) hopen'
    · exact Nat.zero_le 1
    · exact le_rfl
  refine ⟨?_, ?_, ?_⟩
  · unfold activity
    simp only [Prod.Lex.toLex_lt_toLex, both_eq _ side, hnode, hnode']
    rcases hpaid with ⟨hopen, hshut⟩ | hstakes | ⟨hstakes, hgates, hshut⟩
    · left
      rw [if_pos hopen, if_neg hshut]
      omega
    · omega
    · by_cases hquiet : gained = []
      · rw [hquiet, List.filterMap_nil, List.length_nil] at hlength'
        omega
      · have hfewer := hshut hquiet
        omega
  · have hfound : ∀ i, (v.node i).flexFindSession (v.row i) = some (slot i) ∧
        ∀ j, ((v.node i).sessions j).link = ((w.node i).sessions j).link := fun i => by
      rw [hrow]
      by_cases hi : i = side
      · rw [hi, hnode]
        refine ⟨?_, hanswers.link⟩
        have hbefore := hfacing.found side
        unfold Node.flexFindSession at hbefore ⊢
        simpa only [hanswers.sessionCount, hanswers.active, hanswers.link] using hbefore
      · rw [Bool.eq_not_of_ne hi, hnode']
        exact ⟨hfacing.found _, fun j => rfl⟩
    refine ⟨fun i => (hfound i).1, fun i j hj => hfacing.alone i j ?_⟩
    rw [← (hfound i).2 j, hj, hrow]
  · intro i
    by_cases hi : i = side
    · rw [hi, hnode, hanswers.now]
      exact hclock side
    · rw [Bool.eq_not_of_ne hi, hnode']
      exact hclock _

/-- Only frames that are under way arrive. -/
theorem settling_finite (w : Pair) : ∃ es : List (Bool × ℕ), ∀ e, w.Settling e → e ∈ es := by
  refine ⟨[false, true].product (List.range (both fun side => (w.underWay side).length)),
    fun e he => ?_⟩
  obtain ⟨side, k⟩ := e
  obtain ⟨data, hdata, -⟩ := he
  have hlt := (List.getElem?_eq_some_iff.mp hdata).1
  dsimp only at hlt
  rw [List.pair_mem_product, List.mem_range, both_eq _ side]
  exact ⟨by cases side <;> simp, by omega⟩

/-- While no TOKEN is echoed and no answer handed back, two nodes with frozen clocks exchange a
bounded number of frames, in any order of arrival. -/
theorem falls_silent (w : Pair) (slot : Bool → Slot) (hfacing : w.Facing slot)
    (hclock : w.ClockSet) :
    ∃ bound, ∀ es v, GuardedRun deliver Settling w es v → es.length ≤ bound := by
  obtain ⟨bound, hbound⟩ := @GuardedRun.bounded _ _ deliver
    (fun v e => Settling v e ∧ v.Facing slot ∧ v.ClockSet) _ _ _ (activity slot)
    (fun v e h => (activity_deliver h.2.1 h.2.2 h.1).1)
    (fun v => by
      obtain ⟨es, hes⟩ := v.settling_finite
      exact ⟨es, fun e he => hes e he.1⟩) w
  refine ⟨bound, fun es v hrun =>
    hbound es v (hrun.strengthen (fun v e h he => ?_) ⟨hfacing, hclock⟩)⟩
  exact (activity_deliver h.1 h.2 he).2

/-! ## A TOKEN -/

/-- One TOKEN is under way, on a link whose nodes find a buffer for every frame. -/
structure Echoing (w : Pair) (slot : Bool → Slot) (data : CStr) : Prop where
  facing : w.Facing slot
  token : ∀ side, flexParseCeFrame (w.node side).cfg.lt3byte data = some .token
  buffers : ∀ side c, (w.node side).cfg.getBuff (slot side) c = true
  alone : ∃ side, w.underWay side = [data] ∧ w.underWay (!side) = []

/-- The TOKEN is echoed. -/
theorem Echoing.deliver {data : CStr} (h : w.Echoing slot data) :
    ∃ side, w.Arrives (side, 0) ∧ (w.deliver (side, 0)).Echoing slot data := by
  obtain ⟨side, hone, hnone⟩ := h.alone
  refine ⟨side, by simp [Arrives, hone], ?_⟩
  have hother : (!side) ≠ side := by cases side <;> decide
  have hdata : data.isEmpty = false := by
    cases data with
    | nil => exact absurd (h.token side) (by simp [flexParseCeFrame])
    | cons b rest => rfl
  have hheard : w.hear side data = (w.node side).sendCe (slot side) data := by
    have hnode : (w.node side).toNode.flexNetProcessCE (w.row side) data =
        (w.node side).toNode.flexSendFrame (slot side) pidCE data := by
      unfold Node.flexNetProcessCE
      rw [h.facing.found side, if_neg (by simp [hdata])]
      dsimp only
      unfold Node.handleFrame
      rw [h.token side]
    have hfound : ((w.node side).toNode.flexSendFrame (slot side) pidCE data).flexFindSession
        (w.row side) = some (slot side) := h.facing.found side
    have htoken : flexParseCeFrame ((w.node side).toNode.flexSendFrame (slot side) pidCE
        data).cfg.lt3byte data = some .token := h.token side
    unfold hear PathNode.flexNetProcessCE
    rw [hnode]
    dsimp only
    rw [hfound]
    dsimp only
    rw [htoken]
    rfl
  have hwire : ((w.hear side data).peers (slot side)).wire =
      ((w.node side).peers (slot side)).wire ++ [.frame pidCE data] := by
    rw [hheard]
    simp [PathNode.sendCe, Node.flexSendFrame, Env.flexSendFrame, h.buffers side]
  have hsaid : w.said side data = [data] := by
    rw [said_eq h.facing hwire]
    rfl
  have hdelivered : w.deliver (side, 0) = { w with
      node := Function.update w.node side (w.hear side data)
      underWay := Function.update (Function.update w.underWay side []) (!side) [data] } := by
    rw [@deliver_eq w side 0 data (by rw [hone]; rfl), hone, hnone, hsaid]
    rfl
  have hkept : ∀ i, ((w.deliver (side, 0)).node i).toEnv = (w.node i).toEnv ∧
      ((w.deliver (side, 0)).node i).sessionCount = (w.node i).sessionCount := fun i => by
    rw [hdelivered]
    dsimp only
    by_cases hi : i = side
    · subst hi
      rw [Function.update_self, hheard]
      exact ⟨rfl, rfl⟩
    · rw [Function.update_of_ne hi]
      exact ⟨rfl, rfl⟩
  have hrow : (w.deliver (side, 0)).row = w.row := by rw [hdelivered]
  refine ⟨⟨fun i => ?_, fun i j hj => ?_⟩, fun i => ?_, fun i c => ?_, !side, ?_, ?_⟩
  · have hfound := h.facing.found i
    unfold Node.flexFindSession at hfound ⊢
    rwa [hrow, (hkept i).2, congrArg Env.sessions (hkept i).1]
  · rw [hrow, congrArg Env.sessions (hkept i).1] at hj
    exact h.facing.alone i j hj
  · rw [congrArg Env.cfg (hkept i).1]
    exact h.token i
  · rw [congrArg Env.cfg (hkept i).1]
    exact h.buffers i c
  · rw [hdelivered]
    exact Function.update_self ..
  · rw [hdelivered, Bool.not_not]
    dsimp only
    rw [Function.update_of_ne hother.symm, Function.update_self]

/-- It is echoed for ever. -/
theorem Echoing.forever {data : CStr} (h : w.Echoing slot data) (count : ℕ) :
    ∃ es v, GuardedRun Pair.deliver Arrives w es v ∧ es.length = count ∧ v.Echoing slot data := by
  induction count with
  | zero => exact ⟨[], w, .start, rfl, h⟩
  | succ count ih =>
      obtain ⟨es, v, hrun, hlen, hv⟩ := ih
      obtain ⟨side, harrives, hechoing⟩ := hv.deliver
      exact ⟨es ++ [(side, 0)], v.deliver (side, 0), hrun.step _ harrives, by simp [hlen], hechoing⟩

end Pair

/-! ## Two small nodes -/

namespace Bench

/-- The node `us`, with a session with `them` in row 0. -/
def neighbour (us them : UInt8) : PathNode where
  toNode := (Node.boot { config false with myCall := addr us } [] []
    (fun _ => { row (addr them) with ourCall := addr us }) 1000).after [.initSession 0 1]
  pathForward := true
  portMaxDigis := fun _ => 0

/-- `"42\r"`. -/
def tokenFrame : CStr := [0x34, 0x32, 0x0D]

/-- `N` and `A`. -/
def neighbours : Bool → PathNode
  | false => neighbour 0x4E 0x41
  | true => neighbour 0x41 0x4E

/-- The link of the two, with the given frames under way to either. -/
def link (toN toA : List CStr) : Pair where
  node := neighbours
  row _ := 0
  underWay side := if side then toA else toN

theorem link_facing (toN toA : List CStr) : (link toN toA).Facing fun _ => slotA where
  found := show ∀ side, (neighbours side).flexFindSession 0 = some slotA by decide +kernel
  alone := show ∀ side i, ((neighbours side).sessions i).link = some 0 → i = slotA by
    decide +kernel

theorem link_clockSet (toN toA : List CStr) : (link toN toA).ClockSet :=
  show ∀ side, 0 < (neighbours side).now by decide +kernel

/-- The first frames of both, and a request for the table. -/
theorem handshake_falls_silent : ∃ bound, ∀ es v,
    GuardedRun Pair.deliver Pair.Settling
      (link [flexBuildInit 0, flexBuildKeepalive]
        [flexBuildInit 0, flexBuildKeepalive, requestToken])
      es v → es.length ≤ bound :=
  Pair.falls_silent _ (fun _ => slotA) (link_facing _ _) (link_clockSet _ _)

/-- `N` and `A` where either has its session with the other under an alias, `Q` and `P`, and an
answer whose chain names both. -/
def aliased : Pair where
  node side := if side then neighbour 0x41 0x50 else neighbour 0x4E 0x51
  row _ := 0
  underWay side := if side then
    [pathFrame 0x37 0x25 (qsoField 1 false) [[0x50], [0x41], [0x51], [0x4E], [0x42]] []] else []

-- each hands the answer back to the other
example : (aliased.deliver (true, 0)).underWay false = aliased.underWay true ∧
    ((aliased.deliver (true, 0)).deliver (false, 0)).underWay true = aliased.underWay true := by
  decide +kernel

/-- One TOKEN keeps the link busy. -/
theorem token_never_silent : ¬ ∃ bound, ∀ es v,
    GuardedRun Pair.deliver Pair.Arrives (link [] [tokenFrame]) es v → es.length ≤ bound := by
  rintro ⟨bound, hbound⟩
  have hechoing : (link [] [tokenFrame]).Echoing (fun _ => slotA) tokenFrame :=
    ⟨link_facing _ _,
      show ∀ side, flexParseCeFrame (neighbours side).cfg.lt3byte tokenFrame = some .token by
        decide +kernel,
      show ∀ side : Bool, _ from fun side _ => by cases side <;> rfl, true, rfl, rfl⟩
  obtain ⟨es, v, hrun, hlen, -⟩ := hechoing.forever (bound + 1)
  have hle := hbound es v hrun
  omega

end Bench

end FlexNet
