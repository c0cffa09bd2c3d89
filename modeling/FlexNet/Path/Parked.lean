import FlexNet.Path.Demand
import FlexNet.Path.OwnAnswers

/-!
# Parked requests

A request that cannot be answered yet is parked with the number of the session it came in on and
the base call of its target, and the answer to a probe for that base call hands it to
`flex_handle_path_req` again.  A parked request is handed on once (`parked_requests`).  Within its
time to live the session may have gone to another neighbour, and the answer may be about another
SSID: the theorem says of every run that neither happens exactly when no answer to a probe meets
such a request.
-/

namespace FlexNet

open Runs

/-- A row covers a target, as `flex_find_dest_for_target` reads it. -/
def DestEntry.CoversTarget (target : CStr) (d : DestEntry) : Prop :=
  strcasecmp d.key.call.bytes (splitFirstDash target).1 = true ∧
    (0 ≤ ((splitFirstDash target).2.map atoi).getD (-1) →
      d.key.lo ≤ ((splitFirstDash target).2.map atoi).getD (-1) ∧
        ((splitFirstDash target).2.map atoi).getD (-1) ≤ d.key.hi)

instance (target : CStr) (d : DestEntry) : Decidable (d.CoversTarget target) :=
  inferInstanceAs (Decidable (_ ∧ _))

namespace PathNode

variable {n m : PathNode} {base : CStr} {i j : DeferredSlot} {is : List DeferredSlot}
  {l : LinkId} {data : CStr}

/-! ## What an answer does to the parked requests -/

/-- A parked request is too old. -/
def stale (n : PathNode) (i : DeferredSlot) : Bool :=
  decide (deferredReqTtl < n.now - (n.deferred i).parkedAt)

/-- A request that is taken up when a probe for the base call is answered. -/
def waits (n : PathNode) (base : CStr) (i : DeferredSlot) : Bool :=
  (n.deferred i).inUse && !n.stale i && strcasecmp (n.deferred i).targetBase base

/-- A request that is handled again. -/
def replays (n : PathNode) (base : CStr) (i : DeferredSlot) : Bool :=
  n.waits base i && n.live (n.deferred i).peer

/-- Its slot is given up before it is handled again. -/
def resumed (n : PathNode) (i : DeferredSlot) : PathNode :=
  { n with
    deferred := Function.update n.deferred i { n.deferred i with inUse := false }
    replaying := true }

/-- The requests handled again, each with the state it is handled in. -/
def replayLog (base : CStr) : PathNode → List DeferredSlot → List (DeferredSlot × PathNode)
  | _, [] => []
  | n, i :: is =>
    (if n.replays base i then [(i, n.resumed i)] else []) ++
      replayLog base (replayDeferred base n i) is

/-- What a slot holds after an answer. -/
def settled (n : PathNode) (base : CStr) (i : DeferredSlot) : DeferredReq :=
  if (n.deferred i).inUse ∧ (n.stale i ∨ strcasecmp (n.deferred i).targetBase base) then
    { n.deferred i with inUse := false }
  else n.deferred i

theorem replays_inUse (h : n.replays base i = true) : (n.deferred i).inUse = true := by
  simp only [replays, waits, Bool.and_eq_true] at h
  exact h.1.1.1

theorem settled_of_replays (h : n.replays base i = true) :
    n.settled base i = { n.deferred i with inUse := false } := by
  simp only [replays, waits, Bool.and_eq_true] at h
  obtain ⟨⟨⟨huse, -⟩, hbase⟩, -⟩ := h
  exact if_pos ⟨huse, .inr hbase⟩

theorem settled_inUse (h : (n.settled base i).inUse = true) : n.settled base i = n.deferred i := by
  unfold settled at h ⊢
  split at h
  · cases h
  · exact if_neg ‹_›

theorem replayDeferred_env (base : CStr) (n : PathNode) (i : DeferredSlot) :
    (replayDeferred base n i).toEnv = n.toEnv := by
  unfold replayDeferred
  dsimp only
  split_ifs
  · rfl
  · rfl
  · rfl
  · rfl
  · exact (handles_flexHandlePathReq (n.resumed i) (n.deferred i).peer
      (n.deferred i).frame).kept.env

theorem replayDeferred_deferred (base : CStr) (n : PathNode) (i : DeferredSlot) :
    (replayDeferred base n i).deferred = Function.update n.deferred i (n.settled base i) := by
  unfold replayDeferred settled stale
  dsimp only
  by_cases huse : (n.deferred i).inUse = true
  swap
  · simp [huse]
  by_cases hstale : deferredReqTtl < n.now - (n.deferred i).parkedAt
  · simp [huse, hstale]
  by_cases hbase : strcasecmp (n.deferred i).targetBase base = true
  swap
  · simp [huse, hstale, hbase]
  simp only [huse, hstale, hbase, Bool.not_true, Bool.false_eq_true, if_false, decide_false,
    false_or, and_true, if_true]
  split
  · rfl
  · exact (handles_flexHandlePathReq (n.resumed i) (n.deferred i).peer
      (n.deferred i).frame).kept.parked rfl

theorem settled_congr (henv : m.toEnv = n.toEnv) (h : m.deferred j = n.deferred j) :
    m.settled base j = n.settled base j := by
  unfold settled stale
  rw [h, henv]

theorem replays_congr (henv : m.toEnv = n.toEnv) (h : m.deferred j = n.deferred j) :
    m.replays base j = n.replays base j := by
  unfold replays waits stale live
  rw [h, henv]

theorem replayDeferred_deferred_of_ne (base : CStr) (n : PathNode) (h : j ≠ i) :
    (replayDeferred base n i).deferred j = n.deferred j := by
  rw [replayDeferred_deferred, Function.update_of_ne h]

/-- The slots are settled one by one. -/
theorem foldl_replayDeferred (base : CStr) (n : PathNode) (hnodup : is.Nodup) :
    (is.foldl (replayDeferred base) n).toEnv = n.toEnv ∧
      ∀ j, (is.foldl (replayDeferred base) n).deferred j =
        if j ∈ is then n.settled base j else n.deferred j := by
  induction is generalizing n with
  | nil => exact ⟨rfl, fun j => by simp⟩
  | cons i is ih =>
      obtain ⟨hi, hnodup⟩ := List.nodup_cons.mp hnodup
      have henv := replayDeferred_env base n i
      obtain ⟨henv', hdeferred⟩ := ih (replayDeferred base n i) hnodup
      refine ⟨henv'.trans henv, fun j => ?_⟩
      rw [List.foldl_cons, hdeferred j]
      by_cases hj : j = i
      · subst hj
        rw [if_neg hi, if_pos List.mem_cons_self, replayDeferred_deferred, Function.update_self]
      · have hsame := replayDeferred_deferred_of_ne base n hj
        simp only [List.mem_cons, hj, false_or, settled_congr henv hsame, hsame]

/-- The requests handled again are those that wait for the base call and whose session is up. -/
theorem replayLog_slots (base : CStr) (n : PathNode) (hnodup : is.Nodup) :
    (replayLog base n is).map Prod.fst = is.filter (n.replays base) := by
  induction is generalizing n with
  | nil => rfl
  | cons i is ih =>
      obtain ⟨hi, hnodup⟩ := List.nodup_cons.mp hnodup
      have hrest : is.filter ((replayDeferred base n i).replays base) =
          is.filter (n.replays base) := by
        refine List.filter_congr fun j hj => ?_
        have hji : j ≠ i := fun h => hi (h ▸ hj)
        exact replays_congr (replayDeferred_env base n i) (replayDeferred_deferred_of_ne base n hji)
      rw [replayLog, List.map_append, ih _ hnodup, hrest, List.filter_cons]
      split <;> rfl

/-- A request is handled again with its slot given up, by the node as the answer found it. -/
theorem replayLog_state {k : PathNode} (hnodup : is.Nodup) (h : (i, k) ∈ replayLog base n is) :
    k.toEnv = n.toEnv ∧ k.deferred i = { n.deferred i with inUse := false } := by
  induction is generalizing n with
  | nil => cases h
  | cons j is ih =>
      obtain ⟨hj, hnodup⟩ := List.nodup_cons.mp hnodup
      rw [replayLog, List.mem_append] at h
      rcases h with h | h
      · split at h
        · obtain ⟨rfl, rfl⟩ := (Prod.mk.injEq ..).mp (List.mem_singleton.mp h)
          exact ⟨rfl, Function.update_self ..⟩
        · cases h
      · have hi : i ∈ is := by
          have hslot : i ∈ (replayLog base (replayDeferred base n j) is).map Prod.fst :=
            List.mem_map_of_mem (f := Prod.fst) h
          rw [replayLog_slots _ _ hnodup] at hslot
          exact (List.mem_filter.mp hslot).1
        have hij : i ≠ j := fun h => hj (h ▸ hi)
        obtain ⟨henv, hdeferred⟩ := ih hnodup h
        rw [replayDeferred_deferred_of_ne base n hij] at hdeferred
        exact ⟨henv.trans (replayDeferred_env base n j), hdeferred⟩

/-! ## What a frame does to them -/

/-- The node as its path layer finds it when a CE frame has come in. -/
def received (n : PathNode) (l : LinkId) (data : CStr) : PathNode :=
  { n with toNode := n.toNode.flexNetProcessCE l data }

/-- The probe of ours that a frame is the answer to, and the answer. -/
def answered (n : PathNode) (l : LinkId) (data : CStr) : Option (ProbeSlot × PathFrame) :=
  if (n.flexFindSession l).isSome ∧ flexParseCeFrame n.cfg.lt3byte data = some .pathRep then
    ((flexParsePathFrame data).filter PathFrame.isReply).bind fun f =>
      (n.matchedProbe f.qso).map fun p => (p, f)
  else none

/-- The row a probe is for. -/
def probedRow (n : PathNode) (p : ProbeSlot) : Option DestEntry :=
  (n.probes p).destIndex.bind fun i => n.dests[i]?

/-- The base call the requests behind a probe wait for. -/
def probedBase (n : PathNode) (p : ProbeSlot) : CStr :=
  flexBaseCall (n.probes p).targetCall.bytes

/-- The chain of an answer is cached and its probe done. -/
def noteAnswer (n : PathNode) (p : ProbeSlot) (f : PathFrame) : PathNode :=
  { n.cacheAnswer (n.probes p) f.hops with
    probes := Function.update (n.cacheAnswer (n.probes p) f.hops).probes p
      { n.probes p with active := false, qso := 0, gotReply := true, replyHops := f.hops } }

theorem acceptAnswer_eq (n : PathNode) (p : ProbeSlot) (f : PathFrame) :
    n.acceptAnswer p f =
      (List.finRange 8).foldl (replayDeferred (n.probedBase p)) (n.noteAnswer p f) := rfl

theorem noteAnswer_fields (n : PathNode) (p : ProbeSlot) (f : PathFrame) :
    (n.noteAnswer p f).toEnv = n.toEnv ∧ (n.noteAnswer p f).deferred = n.deferred := by
  have hcache : (n.cacheAnswer (n.probes p) f.hops).toEnv = n.toEnv ∧
      (n.cacheAnswer (n.probes p) f.hops).deferred = n.deferred := by
    unfold cacheAnswer
    split
    · exact ⟨rfl, rfl⟩
    · split
      · exact ⟨rfl, rfl⟩
      · split <;> exact ⟨rfl, rfl⟩
  exact hcache

/-- The slots after an answer. -/
theorem acceptAnswer_deferred (n : PathNode) (p : ProbeSlot) (f : PathFrame) (i : DeferredSlot) :
    (n.acceptAnswer p f).deferred i = n.settled (n.probedBase p) i := by
  obtain ⟨henv, hdeferred⟩ := n.noteAnswer_fields p f
  rw [acceptAnswer_eq, (foldl_replayDeferred _ _ (List.nodup_finRange 8)).2,
    if_pos (List.mem_finRange i)]
  exact settled_congr henv (by rw [hdeferred])

theorem deferred_flexSendPathReqEx (n : PathNode) (dest : Option ℕ) (call : Callsign) (ssid : ℤ) :
    (n.flexSendPathReqEx dest call ssid).1.deferred = n.deferred := by
  have hvia : (n.flexProbeSession dest (probeTarget call ssid)).1.deferred = n.deferred := by
    rcases n.flexProbeSession_cases dest (probeTarget call ssid) with h | ⟨i, s, h⟩ <;> rw [h]
  rcases n.flexSendPathReqEx_cases dest call ssid with ⟨_, h⟩ | ⟨_, _, h⟩ | ⟨_, _, _, _, _, h⟩ <;>
    rw [h]
  exacts [hvia, hvia]

theorem deferred_flexOndemandProbe (n : PathNode) (dest : ℕ) (target : CStr) :
    (n.flexOndemandProbe dest target).1.deferred = n.deferred := by
  unfold flexOndemandProbe
  dsimp only
  split
  · rfl
  split
  · rfl
  split
  · rfl
  rename_i d _
  have hsent := deferred_flexSendPathReqEx n (some dest) d.key.call d.key.lo
  generalize n.flexSendPathReqEx (some dest) d.key.call d.key.lo = r at hsent
  obtain ⟨m, _ | p⟩ := r <;> exact hsent

/-- A request is parked in one slot, which is free or holds one that is too old. -/
theorem flexHandlePathReq_deferred (n : PathNode) (s : Slot) (data : CStr) :
    (n.flexHandlePathReq s data).deferred = n.deferred ∨
      ∃ i d, (n.flexHandlePathReq s data).deferred = Function.update n.deferred i d ∧
        ((n.deferred i).inUse = true → n.stale i = true) := by
  have hhandles := handles_flexHandlePathReq n s data
  generalize n.flexHandlePathReq s data = m at hhandles
  cases hhandles with
  | nothing => exact .inl rfl
  | frame via frame => exact .inl rfl
  | probe dest target => exact .inl (deferred_flexOndemandProbe n dest target)
  | parked dest target =>
      have hdeferred := deferred_flexOndemandProbe n dest target
      have hnow := congrArg Env.now (kept_flexOndemandProbe n dest target).env
      generalize (n.flexOndemandProbe dest target).1 = k at hdeferred hnow
      unfold flexDeferPathReq
      split
      · exact .inl hdeferred
      split
      · exact .inl hdeferred
      split
      · exact .inl hdeferred
      · rename_i i hi
        have hfree := List.find?_some hi
        simp only [Bool.or_eq_true, Bool.not_eq_true', decide_eq_true_eq, hdeferred] at hfree
        refine .inr ⟨i, _, congrArg (fun old => Function.update old i _) hdeferred, fun huse => ?_⟩
        rcases hfree with hfree | hold
        · rw [huse] at hfree
          cases hfree
        · rw [show k.now = n.now from hnow] at hold
          exact decide_eq_true hold

/-- A frame is the answer to a probe, or leaves the parked requests alone, or is a request. -/
theorem flexNetProcessCE_unfound (n : PathNode) (l : LinkId) (data : CStr)
    (h : (n.received l data).flexFindSession l = none) :
    n.flexNetProcessCE l data = n.received l data := by
  unfold received at h ⊢
  unfold flexNetProcessCE
  dsimp only
  rw [h]

/-- A frame on a session is a request, an answer, or no frame of the path layer. -/
theorem flexNetProcessCE_found (n : PathNode) (l : LinkId) (data : CStr) {s : Slot}
    (h : (n.received l data).flexFindSession l = some s) :
    (flexParseCeFrame (n.received l data).cfg.lt3byte data = some .pathRep →
      n.flexNetProcessCE l data = (n.received l data).flexHandlePathRep data) ∧
    (flexParseCeFrame (n.received l data).cfg.lt3byte data ≠ some .pathRep →
      n.flexNetProcessCE l data = (n.received l data).flexHandlePathReq s data ∨
        n.flexNetProcessCE l data = n.received l data) := by
  unfold received at h ⊢
  unfold flexNetProcessCE
  dsimp only at h ⊢
  rw [h]
  dsimp only
  constructor
  · intro hrep
    rw [hrep]
  · intro hother
    split
    · exact .inl rfl
    · rename_i heq
      exact absurd heq hother
    · exact .inr rfl

theorem flexNetProcessCE_parked (n : PathNode) (l : LinkId) (data : CStr) :
    (∃ p f, (n.received l data).answered l data = some (p, f) ∧
      n.flexNetProcessCE l data = (n.received l data).acceptAnswer p f) ∨
    (n.received l data).answered l data = none ∧
      ((n.flexNetProcessCE l data).deferred = n.deferred ∨
        ∃ s, n.flexNetProcessCE l data = (n.received l data).flexHandlePathReq s data) := by
  have hunfound := n.flexNetProcessCE_unfound l data
  have hfound := fun s => n.flexNetProcessCE_found l data (s := s)
  generalize hk : n.received l data = k at hunfound hfound ⊢
  have hdeferred : k.deferred = n.deferred := by
    subst hk
    rfl
  cases hsession : k.flexFindSession l with
  | none =>
    refine .inr ⟨by simp [answered, hsession], .inl ?_⟩
    rw [hunfound hsession]
    exact hdeferred
  | some s =>
    obtain ⟨hanswer, hother⟩ := hfound s hsession
    by_cases hrep : flexParseCeFrame k.cfg.lt3byte data = some .pathRep
    · rw [hanswer hrep]
      unfold answered flexHandlePathRep
      rw [if_pos ⟨by simp [hsession], hrep⟩]
      cases hparse : flexParsePathFrame data with
      | none => exact .inr ⟨rfl, .inl hdeferred⟩
      | some f =>
        cases hreply : f.isReply with
        | false =>
            exact .inr ⟨by simp [Option.filter, hreply], .inl (by simpa [hreply] using hdeferred)⟩
        | true =>
          cases hmatch : k.matchedProbe f.qso with
          | some p =>
              exact .inl ⟨p, f, by simp [Option.filter, hreply, hmatch], by simp [hreply, hmatch]⟩
          | none =>
            refine .inr ⟨by simp [Option.filter, hreply, hmatch], .inl ?_⟩
            simp only [hreply, Bool.not_true, Bool.false_eq_true, if_false, hmatch]
            unfold flexRelayPathRep
            split
            · exact hdeferred
            split
            · exact hdeferred
            split
            · exact hdeferred
            split <;> exact hdeferred
    · refine .inr ⟨by simp [answered, hrep], ?_⟩
      rcases hother hrep with hrequest | hsame
      · exact .inr ⟨s, hrequest⟩
      · rw [hsame]
        exact .inl hdeferred

/-- The answers a request brings about go to the session it is handled for. -/
theorem answers_session {s q : Slot} {frame : CStr}
    (h : n.Sends (n.flexHandlePathReq s data) q frame) (hreply : frame.head? = some 0x37) :
    q = s := by
  cases hparse : flexParsePathFrame data with
  | none =>
    rw [flexHandlePathReq, hparse] at h
    exact absurd h (not_sends_of_peers rfl)
  | some f =>
    cases hrequest : f.isReply with
    | true =>
      rw [flexHandlePathReq, hparse] at h
      simp only [hrequest, if_true] at h
      exact absurd h (not_sends_of_peers rfl)
    | false =>
      cases hlast : f.hops.getLast? with
      | none =>
        rw [flexHandlePathReq, hparse] at h
        simp only [hrequest, Bool.false_eq_true, if_false, hlast] at h
        exact absurd h (not_sends_of_peers rfl)
      | some last => exact (builds_of_sends ⟨hparse, hrequest, last, hlast, rfl⟩ h hreply).1

/-! ## Runs -/

/-- A parked request: its number in the run, the callsign of the session it came in on, and the
target it names. -/
structure Request where
  id : ℕ := 0
  call : CStr := []
  target : CStr := []

/-- A parked request is handled again, for the session `peer`. -/
structure Replay where
  request : Request
  peer : Slot
  before : PathNode
  after : PathNode

/-- How a parked request ends: by its age, or with the answer to a probe for a row. -/
inductive Ending
  | stale
  | answered (row : Option DestEntry)
deriving DecidableEq

/-- A node, what its parked requests are, and what became of those it has parked. -/
structure Parking where
  node : PathNode
  parked : DeferredSlot → Request := fun _ => {}
  count : ℕ := 0
  replays : List Replay := []
  consumed : List (Request × Ending) := []

/-- A CE frame is received, or the node does anything else: sessions end and start, rows and slots
are used again, time passes, probes go out and time out. -/
inductive ParkingStep
  | frame (l : LinkId) (data : CStr)
  | other (m : PathNode)

namespace Parking

variable {r : Parking} {step : ParkingStep} {steps : List ParkingStep}

/-- Nothing is parked. -/
def start (n : PathNode) : Parking := { node := { n with deferred := fun _ => {} } }

/-- A slot changes hands with a frame. -/
def Changes (r : Parking) (l : LinkId) (data : CStr) (i : DeferredSlot) : Prop :=
  (r.node.flexNetProcessCE l data).deferred i ≠ r.node.deferred i

instance (r : Parking) (l : LinkId) (data : CStr) (i : DeferredSlot) :
    Decidable (r.Changes l data i) := inferInstanceAs (Decidable (_ ≠ _))

/-- The requests a frame has handled again. -/
def replaysOf (r : Parking) (l : LinkId) (data : CStr) : List Replay :=
  let n := r.node.received l data
  (n.answered l data).elim [] fun (p, f) =>
    (replayLog (n.probedBase p) (n.noteAnswer p f) (List.finRange 8)).map fun (i, k) =>
      { request := r.parked i
        peer := (k.deferred i).peer
        before := k
        after := k.flexHandlePathReq (k.deferred i).peer (k.deferred i).frame }

/-- How the request in a slot ends with a frame. -/
def endingOf (r : Parking) (l : LinkId) (data : CStr) (i : DeferredSlot) : Ending :=
  let n := r.node.received l data
  if n.stale i then .stale else .answered ((n.answered l data).bind fun (p, _) => n.probedRow p)

/-- One step. -/
def apply (r : Parking) : ParkingStep → Parking
  | .frame l data =>
    let n := r.node.received l data
    let m := r.node.flexNetProcessCE l data
    let request : Request :=
      { id := r.count
        call := (n.flexFindSession l).elim [] n.sessPeerCall
        target := requestTarget data }
    { node := m
      parked := fun i => if (m.deferred i).inUse ∧ r.Changes l data i then request else r.parked i
      count := r.count + 1
      replays := r.replays ++ r.replaysOf l data
      consumed := r.consumed ++ ((List.finRange 8).filter fun i =>
        (r.node.deferred i).inUse && decide (r.Changes l data i)).map fun i =>
          (r.parked i, r.endingOf l data i) }
  | .other m => { r with node := { m with deferred := r.node.deferred } }

/-- No request is handled again twice. -/
def Once (r : Parking) : Prop := (r.replays.map fun x => x.request.id).Nodup

/-- What is answered goes to the session the request is handled for. -/
def Answers (r : Parking) : Prop :=
  ∀ x ∈ r.replays, ∀ q frame, x.before.Sends x.after q frame → frame.head? = some 0x37 → q = x.peer

/-- Every request is handled for a session with the neighbour it came from. -/
def ToSender (r : Parking) : Prop :=
  ∀ x ∈ r.replays, x.before.sessPeerCall x.peer = x.request.call

/-- A request ends with an answer about a row that covers its target, or by its age. -/
def Ends (request : Request) : Ending → Prop
  | .stale => True
  | .answered row => ∃ d, row = some d ∧ d.CoversTarget request.target

instance (request : Request) : ∀ ending, Decidable (Ends request ending)
  | .stale => isTrue trivial
  | .answered row => decidable_of_iff (row.any fun d => decide (d.CoversTarget request.target))
      (by simp [Ends, Option.any_eq_true])

/-- All requests do. -/
def Covered (r : Parking) : Prop := ∀ x ∈ r.consumed, Ends x.1 x.2

instance (r : Parking) : Decidable r.Covered := inferInstanceAs (Decidable (∀ _ ∈ _, _))

/-- No answer to a probe meets a parked request whose target its row does not cover, or whose
session has gone to another neighbour. -/
def Tidy (r : Parking) : ParkingStep → Prop
  | .frame l data =>
    let n := r.node.received l data
    ∀ p f, n.answered l data = some (p, f) → ∀ i, n.waits (n.probedBase p) i = true →
      (∃ d, n.probedRow p = some d ∧ d.CoversTarget (r.parked i).target) ∧
        (n.live (n.deferred i).peer = true →
          n.sessPeerCall (n.deferred i).peer = (r.parked i).call)
  | .other _ => True

/-! ### Each request once -/

/-- The numbers of the parked requests are their own, and of no request handled again. -/
structure Numbered (r : Parking) : Prop where
  below : ∀ i, (r.node.deferred i).inUse = true → (r.parked i).id < r.count
  distinct : ∀ i j, (r.node.deferred i).inUse = true → (r.node.deferred j).inUse = true →
    (r.parked i).id = (r.parked j).id → i = j
  past : ∀ x ∈ r.replays, x.request.id < r.count
  gone : ∀ x ∈ r.replays, ∀ i, (r.node.deferred i).inUse = true → x.request.id ≠ (r.parked i).id
  once : r.Once

theorem numbered_start (n : PathNode) : (start n).Numbered where
  below _ h := by cases h
  distinct _ _ h := by cases h
  past _ h := by cases h
  gone _ h := by cases h
  once := List.nodup_nil

theorem noteAnswer_replays (n : PathNode) (p : ProbeSlot) (f : PathFrame) (base : CStr) :
    (n.noteAnswer p f).replays base = n.replays base := by
  obtain ⟨henv, hdeferred⟩ := n.noteAnswer_fields p f
  exact funext fun i => replays_congr henv (congrFun hdeferred i)

/-- The requests a frame has handled again, by their slots. -/
theorem replaysOf_requests {p : ProbeSlot} {f : PathFrame}
    (h : (r.node.received l data).answered l data = some (p, f)) :
    (r.replaysOf l data).map Replay.request =
      ((List.finRange 8).filter ((r.node.received l data).replays
        ((r.node.received l data).probedBase p))).map r.parked := by
  unfold replaysOf
  dsimp only
  rw [h, Option.elim_some, List.map_map, ← noteAnswer_replays _ p f,
    ← replayLog_slots _ _ (List.nodup_finRange 8), List.map_map]
  rfl

theorem replaysOf_none (h : (r.node.received l data).answered l data = none) :
    r.replaysOf l data = [] := by
  unfold replaysOf
  dsimp only
  rw [h]
  rfl

/-- A request handled again has left its slot. -/
theorem replaysOf_left {x : Replay} (hx : x ∈ r.replaysOf l data) :
    ∃ i, x.request = r.parked i ∧ (r.node.deferred i).inUse = true ∧
      ((r.node.flexNetProcessCE l data).deferred i).inUse = false := by
  rcases flexNetProcessCE_parked r.node l data with ⟨p, f, hanswered, hnext⟩ | ⟨hnone, -⟩
  · have hrequest := List.mem_map_of_mem (f := Replay.request) hx
    rw [replaysOf_requests hanswered] at hrequest
    obtain ⟨i, hi, hparked⟩ := List.mem_map.mp hrequest
    have hreplays := (List.mem_filter.mp hi).2
    have huse : ((r.node.received l data).deferred i).inUse = true := replays_inUse hreplays
    refine ⟨i, hparked.symm, huse, ?_⟩
    rw [hnext, acceptAnswer_deferred, settled_of_replays hreplays]
  · rw [replaysOf_none hnone] at hx
    cases hx

theorem replaysOf_once (h : r.Numbered) :
    ((r.replaysOf l data).map fun x => x.request.id).Nodup := by
  rcases flexNetProcessCE_parked r.node l data with ⟨p, f, hanswered, -⟩ | ⟨hnone, -⟩
  · have hids : (r.replaysOf l data).map (fun x => x.request.id) =
        ((List.finRange 8).filter ((r.node.received l data).replays
          ((r.node.received l data).probedBase p))).map fun i => (r.parked i).id := by
      have hrequests := congrArg (List.map Request.id) (replaysOf_requests hanswered)
      rw [List.map_map, List.map_map] at hrequests
      exact hrequests
    rw [hids]
    refine List.Nodup.map_on (fun i hi j hj hij => ?_) ((List.nodup_finRange 8).filter _)
    have husei : ((r.node.received l data).deferred i).inUse = true :=
      replays_inUse (List.mem_filter.mp hi).2
    have husej : ((r.node.received l data).deferred j).inUse = true :=
      replays_inUse (List.mem_filter.mp hj).2
    exact h.distinct i j husei husej hij
  · rw [replaysOf_none hnone]
    exact List.nodup_nil

/-- A frame parks one request at most. -/
theorem changes_one
    (hi : ((r.node.flexNetProcessCE l data).deferred i).inUse = true) (hci : r.Changes l data i)
    (hcj : r.Changes l data j) : i = j := by
  rcases flexNetProcessCE_parked r.node l data with ⟨p, f, -, hnext⟩ | ⟨-, hsame | ⟨s, hreq⟩⟩
  · unfold Changes at hci
    rw [hnext, acceptAnswer_deferred] at hi hci
    exact absurd (settled_inUse hi) hci
  · exact absurd (congrFun hsame i) hci
  · unfold Changes at hci hcj
    rw [hreq] at hci hcj
    rcases (r.node.received l data).flexHandlePathReq_deferred s data with
      hsame | ⟨k, d, hparks, -⟩
    · exact absurd (congrFun hsame i) hci
    · have honly : ∀ x, ((r.node.received l data).flexHandlePathReq s data).deferred x ≠
          r.node.deferred x → x = k := by
        intro x hx
        by_contra hne
        exact hx (by rw [hparks, Function.update_of_ne hne]; rfl)
      exact (honly i hci).trans (honly j hcj).symm

/-- One step of the numbering. -/
theorem Numbered.apply (h : r.Numbered) (step : ParkingStep) : (r.apply step).Numbered := by
  cases step with
  | other m => exact ⟨h.below, h.distinct, h.past, h.gone, h.once⟩
  | frame l data =>
    -- what a slot holds afterwards is this frame's request, or the one it held before
    have hheld : ∀ i, (((r.apply (.frame l data)).node.deferred i).inUse = true) →
        (r.Changes l data i ∧ ((r.apply (.frame l data)).parked i).id = r.count) ∨
        ((r.apply (.frame l data)).parked i = r.parked i ∧ (r.node.deferred i).inUse = true) := by
      intro i hi
      by_cases hc : r.Changes l data i
      · exact .inl ⟨hc, congrArg Request.id (if_pos ⟨hi, hc⟩)⟩
      · refine .inr ⟨if_neg fun hboth => hc hboth.2, ?_⟩
        rw [← not_not.mp hc]
        exact hi
    have hmem : ∀ x, x ∈ (r.apply (.frame l data)).replays ↔
        x ∈ r.replays ∨ x ∈ r.replaysOf l data := fun x => List.mem_append
    have hpast : ∀ x ∈ (r.apply (.frame l data)).replays, x.request.id < r.count := by
      intro x hx
      rcases (hmem x).mp hx with hx | hx
      · exact h.past x hx
      · obtain ⟨i, hparked, huse, -⟩ := replaysOf_left hx
        rw [hparked]
        exact h.below i huse
    refine ⟨fun i hi => ?_, fun i j hi hj hij => ?_, fun x hx => ?_, fun x hx i hi => ?_, ?_⟩
    · rcases hheld i hi with ⟨-, hid⟩ | ⟨hid, huse⟩
      · rw [hid]
        exact Nat.lt_succ_self _
      · rw [hid]
        exact Nat.lt_succ_of_lt (h.below i huse)
    · rcases hheld i hi with ⟨hci, hidi⟩ | ⟨hidi, husei⟩ <;>
        rcases hheld j hj with ⟨hcj, hidj⟩ | ⟨hidj, husej⟩
      · exact changes_one hi hci hcj
      · have := h.below j husej
        rw [hidi, hidj] at hij
        omega
      · have := h.below i husei
        rw [hidi, hidj] at hij
        omega
      · rw [hidi, hidj] at hij
        exact h.distinct i j husei husej hij
    · exact Nat.lt_succ_of_lt (hpast x hx)
    · rcases hheld i hi with ⟨-, hid⟩ | ⟨hid, huse⟩
      · rw [hid]
        exact (hpast x hx).ne
      · rw [hid]
        rcases (hmem x).mp hx with hx | hx
        · exact h.gone x hx i huse
        · obtain ⟨k, hparked, husek, hleft⟩ := replaysOf_left hx
          rw [hparked]
          intro hsame
          obtain rfl := h.distinct k i husek huse hsame
          rw [show ((r.apply (.frame l data)).node.deferred k).inUse = false from hleft] at hi
          cases hi
    · change ((r.replays ++ r.replaysOf l data).map fun x => x.request.id).Nodup
      rw [List.map_append]
      refine h.once.append (replaysOf_once h) fun id hold hnew => ?_
      obtain ⟨x, hx, rfl⟩ := List.mem_map.mp hold
      obtain ⟨y, hy, hid⟩ := List.mem_map.mp hnew
      obtain ⟨i, hparked, huse, -⟩ := replaysOf_left hy
      rw [hparked] at hid
      exact h.gone x hx i huse hid.symm

/-! ### To the sender, for the target -/

/-- What a frame has handled again is handled for the sender. -/
def ServesSender (r : Parking) (l : LinkId) (data : CStr) : Prop :=
  ∀ x ∈ r.replaysOf l data, x.before.sessPeerCall x.peer = x.request.call

/-- What a frame ends, ends as it should. -/
def EndsCovered (r : Parking) (l : LinkId) (data : CStr) : Prop :=
  ∀ i, (r.node.deferred i).inUse = true → r.Changes l data i →
    Ends (r.parked i) (r.endingOf l data i)

/-- The requests a frame has handled again are answered to the session they are handled for. -/
theorem replaysOf_answers {x : Replay} (hx : x ∈ r.replaysOf l data) {q : Slot} {frame : CStr}
    (hsends : x.before.Sends x.after q frame) (hreply : frame.head? = some 0x37) : q = x.peer := by
  unfold replaysOf at hx
  dsimp only at hx
  cases hanswered : (r.node.received l data).answered l data with
  | none =>
    rw [hanswered] at hx
    cases hx
  | some pf =>
    rw [hanswered] at hx
    obtain ⟨⟨i, k⟩, -, rfl⟩ := List.mem_map.mp hx
    exact answers_session hsends hreply

/-- The sessions they are handled for. -/
theorem servesSender_iff {p : ProbeSlot} {f : PathFrame}
    (h : (r.node.received l data).answered l data = some (p, f)) :
    r.ServesSender l data ↔
      ∀ i, (r.node.received l data).replays ((r.node.received l data).probedBase p) i = true →
        (r.node.received l data).sessPeerCall (r.node.deferred i).peer = (r.parked i).call := by
  have hslots := replayLog_slots ((r.node.received l data).probedBase p)
    ((r.node.received l data).noteAnswer p f) (List.nodup_finRange 8)
  obtain ⟨henv, hdeferred⟩ := (r.node.received l data).noteAnswer_fields p f
  -- the state a request is handled in has the sessions of the state before
  have hstate : ∀ i k, (i, k) ∈ replayLog ((r.node.received l data).probedBase p)
      ((r.node.received l data).noteAnswer p f) (List.finRange 8) →
      k.sessPeerCall (k.deferred i).peer =
        (r.node.received l data).sessPeerCall (r.node.deferred i).peer := by
    intro i k hik
    obtain ⟨hkenv, hk⟩ := replayLog_state (List.nodup_finRange 8) hik
    rw [hk, hdeferred, hkenv, henv]
    rfl
  unfold ServesSender replaysOf
  dsimp only
  rw [h, Option.elim_some]
  constructor
  · intro hall i hi
    have hmem : i ∈ (replayLog ((r.node.received l data).probedBase p)
        ((r.node.received l data).noteAnswer p f) (List.finRange 8)).map Prod.fst := by
      rw [hslots, noteAnswer_replays]
      exact List.mem_filter.mpr ⟨List.mem_finRange i, hi⟩
    obtain ⟨⟨j, k⟩, hjk, rfl⟩ := List.mem_map.mp hmem
    rw [← hstate j k hjk]
    exact hall _ (List.mem_map_of_mem hjk)
  · intro hall x hx
    obtain ⟨⟨i, k⟩, hik, rfl⟩ := List.mem_map.mp hx
    have hi : i ∈ (List.finRange 8).filter ((r.node.received l data).replays
        ((r.node.received l data).probedBase p)) := by
      rw [← noteAnswer_replays _ p f, ← hslots]
      exact List.mem_map_of_mem (f := Prod.fst) hik
    exact (hstate i k hik).trans (hall i (List.mem_filter.mp hi).2)

/-- How they end. -/
theorem endsCovered_iff {p : ProbeSlot} {f : PathFrame}
    (h : (r.node.received l data).answered l data = some (p, f))
    (hnext : r.node.flexNetProcessCE l data = (r.node.received l data).acceptAnswer p f) :
    r.EndsCovered l data ↔
      ∀ i, (r.node.received l data).waits ((r.node.received l data).probedBase p) i = true →
        ∃ d, (r.node.received l data).probedRow p = some d ∧
          d.CoversTarget (r.parked i).target := by
  have hchanges : ∀ i, r.Changes l data i ↔
      (r.node.received l data).settled ((r.node.received l data).probedBase p) i ≠
        (r.node.received l data).deferred i := by
    intro i
    unfold Changes
    rw [hnext, acceptAnswer_deferred]
    rfl
  have hleaves : ∀ d : DeferredReq, d.inUse = true → { d with inUse := false } ≠ d := by
    intro d huse heq
    have hfalse := congrArg DeferredReq.inUse heq
    rw [huse] at hfalse
    cases hfalse
  have hending : ∀ i, r.endingOf l data i =
      if (r.node.received l data).stale i then .stale
      else .answered ((r.node.received l data).probedRow p) := by
    intro i
    unfold endingOf
    dsimp only
    rw [h]
    rfl
  unfold EndsCovered
  simp only [hending]
  constructor
  · intro hall i hi
    simp only [waits, Bool.and_eq_true, Bool.not_eq_true'] at hi
    obtain ⟨⟨huse, hfresh⟩, hbase⟩ := hi
    have hends := hall i huse ((hchanges i).mpr ?_)
    · rwa [if_neg (by simp [hfresh])] at hends
    · rw [settled, if_pos ⟨huse, .inr hbase⟩]
      exact hleaves _ huse
  · intro hall i huse hc
    cases hstale : (r.node.received l data).stale i with
    | true =>
      rw [if_pos rfl]
      trivial
    | false =>
      rw [if_neg (by simp)]
      refine hall i ?_
      have hsettled := (hchanges i).mp hc
      unfold settled at hsettled
      have hbase : strcasecmp ((r.node.received l data).deferred i).targetBase
          ((r.node.received l data).probedBase p) = true := by
        by_contra hnot
        exact hsettled (if_neg (by simp [hstale, hnot]))
      simp only [waits, Bool.and_eq_true, Bool.not_eq_true']
      exact ⟨⟨huse, hstale⟩, hbase⟩

/-- A frame that is no answer to a probe ends only requests that are too old. -/
theorem endsCovered_of_none (h : (r.node.received l data).answered l data = none) :
    r.EndsCovered l data := by
  intro i huse hc
  have hstale : (r.node.received l data).stale i = true := by
    rcases flexNetProcessCE_parked r.node l data with ⟨p, f, hanswered, -⟩ | ⟨-, hsame | ⟨s, hreq⟩⟩
    · rw [h] at hanswered
      cases hanswered
    · exact absurd (congrFun hsame i) hc
    · unfold Changes at hc
      rw [hreq] at hc
      rcases (r.node.received l data).flexHandlePathReq_deferred s data with
        hsame | ⟨k, d, hparks, hold⟩
      · exact absurd (congrFun hsame i) hc
      · by_cases hik : i = k
        · rw [hik] at huse ⊢
          exact hold huse
        · rw [hparks, Function.update_of_ne hik] at hc
          exact absurd rfl hc
  unfold endingOf
  dsimp only
  rw [hstale, if_pos rfl]
  trivial

/-- One step: all goes well with a frame when the table is tidy. -/
theorem tidy_iff : r.Tidy (.frame l data) ↔ r.ServesSender l data ∧ r.EndsCovered l data := by
  rcases flexNetProcessCE_parked r.node l data with ⟨p, f, hanswered, hnext⟩ | ⟨hnone, -⟩
  · rw [servesSender_iff hanswered, endsCovered_iff hanswered hnext]
    constructor
    · intro htidy
      refine ⟨fun i hi => ?_, fun i hi => (htidy p f hanswered i hi).1⟩
      obtain ⟨hwaits, hlive⟩ := Bool.and_eq_true_iff.mp hi
      exact (htidy p f hanswered i hwaits).2 hlive
    · rintro ⟨hserves, hcovers⟩ p' f' hanswered' i hi
      obtain ⟨rfl, rfl⟩ := (Prod.mk.injEq ..).mp
        (Option.some.inj (hanswered.symm.trans hanswered'))
      exact ⟨hcovers i hi, fun hlive => hserves i (Bool.and_eq_true_iff.mpr ⟨hi, hlive⟩)⟩
  · constructor
    · intro _
      refine ⟨fun x hx => ?_, endsCovered_of_none hnone⟩
      rw [replaysOf_none hnone] at hx
      cases hx
    · intro _ p f hanswered
      rw [hnone] at hanswered
      cases hanswered

theorem right_apply (r : Parking) (step : ParkingStep) :
    (r.apply step).ToSender ∧ (r.apply step).Covered ↔
      (r.ToSender ∧ r.Covered) ∧ r.Tidy step := by
  cases step with
  | other m => exact (and_iff_left trivial).symm
  | frame l data =>
    have hsender : (r.apply (.frame l data)).ToSender ↔ r.ToSender ∧ r.ServesSender l data :=
      List.forall_mem_append
    have hcovered : (r.apply (.frame l data)).Covered ↔ r.Covered ∧ r.EndsCovered l data := by
      refine List.forall_mem_append.trans (and_congr_right fun _ => ?_)
      simp only [List.forall_mem_map, List.mem_filter, List.mem_finRange, true_and,
        Bool.and_eq_true, decide_eq_true_eq, and_imp]
      rfl
    rw [hsender, hcovered, tidy_iff]
    exact and_and_and_comm

theorem right_run (r : Parking) (steps : List ParkingStep) :
    (steps.foldl apply r).ToSender ∧ (steps.foldl apply r).Covered ↔
      (r.ToSender ∧ r.Covered) ∧ Chain apply Tidy r steps := by
  induction steps generalizing r with
  | nil => exact (and_iff_left trivial).symm
  | cons step steps ih =>
      rw [List.foldl_cons, ih, right_apply, and_assoc]
      rfl

theorem answers_run (n : PathNode) (steps : List ParkingStep) :
    (steps.foldl apply (start n)).Answers := by
  refine (Run.of_foldl apply (start n) steps).invariant (fun r step h _ => ?_)
    fun x hx => by cases hx
  cases step with
  | other m => exact h
  | frame l data =>
    refine List.forall_mem_append.mpr ⟨h, fun x hx q frame hsends hreply => ?_⟩
    exact replaysOf_answers hx hsends hreply

/-- In every run each parked request is handled again once at most, and answered to the session it
is handled for.  That session is one with the neighbour the request came from, and the request is
used up by its age or by an answer about a row that covers its target, in exactly the runs in which
no answer to a probe meets a request it does not belong to. -/
theorem parked_requests (n : PathNode) (steps : List ParkingStep) :
    (steps.foldl apply (start n)).Once ∧ (steps.foldl apply (start n)).Answers ∧
      ((steps.foldl apply (start n)).ToSender ∧ (steps.foldl apply (start n)).Covered ↔
        Chain apply Tidy (start n) steps) := by
  have hnumbered : (steps.foldl apply (start n)).Numbered :=
    (Run.of_foldl apply (start n) steps).invariant (fun r step h _ => h.apply step)
      (numbered_start n)
  refine ⟨hnumbered.once, answers_run n steps, (right_run (start n) steps).trans ?_⟩
  have hsender : (start n).ToSender := fun x hx => by cases hx
  have hcovered : (start n).Covered := fun x hx => by cases hx
  exact and_iff_right ⟨hsender, hcovered⟩

end Parking

/-! ## A slot used again, and another SSID -/

open Bench Parking

/-- The request of `B` for `K-0`. -/
def wantsK0 : CStr :=
  [0x36, 0x21, 0x20, 0x20, 0x20, 0x20, 0x30, 0x42, 0x20, 0x4B, 0x2D, 0x30]

/-- It is parked behind a probe. -/
def askedForK0 : Parking := (start unforwarding).apply (.frame 1 wantsK0)

/-- `B` is gone, and `C` has its row and its slot. -/
def replacedByC : PathNode :=
  { askedForK0.node with
    toNode := askedForK0.node.toNode.after
      [.closeSession 1, .row 1 (row (addr 0x43)), .initSession 1 1] }

/-- The answer of `A` to the probe. -/
def answerForK0 : CStr := pathFrame 0x37 0x22 (qsoField 1 false) [[0x4E], [0x41], [0x4B]] []

/-- What the node makes of it for `B`. -/
def answerForB : CStr := pathFrame 0x37 0x24 (qsoField 0 false) [[0x42], [0x4E], [0x41], [0x4B]] []

/-- Or, `A` has also told of `K-5`, and a probe for it is under way. -/
def probesK5 : PathNode :=
  let n := later { askedForK0.node with
    toNode := askedForK0.node.toNode.event
      (.processCE 0 ([0x33] ++ recordOctets ⟨.ofCStr [0x4B], 5, 5⟩ 10 ++ [0x0D])) } 3
  (n.flexSendPathReqEx (n.flexFindDestForTarget [0x4B, 0x2D, 0x35]) (.ofCStr [0x4B]) 5).1

/-- The answer of `A` to that one. -/
def answerForK5 : CStr :=
  pathFrame 0x37 0x22 (qsoField 2 false) [[0x4E], [0x41], [0x4B, 0x2D, 0x35]] []

set_option maxRecDepth 10000 in
/-- `C` gets the answer to the request of `B`; and the request for `K-0` is used up by the answer
about `K-5`. -/
theorem parked_requests_astray :
    (¬ ∀ (n : PathNode) (steps : List ParkingStep), ∀ x ∈ (steps.foldl apply (start n)).replays,
      ∀ q frame, x.before.Sends x.after q frame → frame.head? = some 0x37 →
        x.before.sessPeerCall q = x.request.call) ∧
    ¬ ∀ (n : PathNode) (steps : List ParkingStep), (steps.foldl apply (start n)).Covered := by
  constructor
  · intro hall
    have hsent : ((askedForK0.apply (.other replacedByC)).apply
        (.frame 0 answerForK0)).replays.any (fun x => decide (x.request.call = [0x42]) &&
          decide (x.before.sessPeerCall slotB = [0x43]) &&
          decide ((x.after.peers slotB).wire =
            (x.before.peers slotB).wire ++ [.frame pidCE answerForB])) = true := by
      decide +kernel
    obtain ⟨x, hx, hfacts⟩ := List.any_eq_true.mp hsent
    simp only [Bool.and_eq_true, decide_eq_true_eq] at hfacts
    obtain ⟨⟨hcall, hpeer⟩, hwire⟩ := hfacts
    have hsame := hall unforwarding [.frame 1 wantsK0, .other replacedByC, .frame 0 answerForK0] x
      hx slotB answerForB hwire rfl
    rw [hpeer, hcall] at hsame
    cases hsame
  · intro hall
    have hcovered := hall unforwarding [.frame 1 wantsK0, .other probesK5, .frame 0 answerForK5]
    revert hcovered
    decide +kernel

end PathNode

end FlexNet
