import FlexNet.Exchange.Inits
import FlexNet.Path.Answers
import FlexNet.Lib.Runs

/-!
# Probes on demand

A request for a target without a cached chain may have the node probe for it.  Two limits are kept:
a gap between any two probes, and a longer one between two for the same target.  The latter is
remembered in a ring of 32 entries, which has room for 96 s at the shorter gap, and whose search
stops at the first entry of a target, the oldest one.  `probes_spaced` is what is left: both limits
hold as long as the ring forgets nothing that is still needed and its search finds what it should.
-/

namespace FlexNet

open Runs

theorem ring_step_lt : 1 < 32 := by decide

/-- One entry on in the ring. -/
def ringStep : Fin 32 := ⟨1, ring_step_lt⟩

/-- The memory of the two limits. -/
structure Demand where
  recent : Fin 32 → CStr × ℤ
  next : Fin 32
  last : ℤ

namespace Demand

variable (d : Demand)

/-- An entry is about the target. -/
def remembers (target : CStr) (i : Fin 32) : Bool :=
  !(d.recent i).1.isEmpty && strcasecmp (d.recent i).1 target

/-- The entry the search of `flex_ondemand_probe` stops at. -/
def first (target : CStr) : Option (Fin 32) := (List.finRange 32).find? (d.remembers target)

/-- An entry still keeps its target from being probed. -/
def Young (now : ℤ) (i : Fin 32) : Prop := now - (d.recent i).2 < ondemandProbeRepeat

/-- Both limits let a probe for the target go out. -/
structure Allows (now : ℤ) (target : CStr) : Prop where
  gap : ondemandProbeGap ≤ now - d.last
  first : ∀ i, d.first target = some i → ¬ d.Young now i

/-- A probe that went out is noted in the next entry. -/
def note (now : ℤ) (target : CStr) : Demand where
  recent := Function.update d.recent d.next (target.take 19, now)
  next := d.next + ringStep
  last := now

/-- The ring serves a request for the target: where the gap has passed, the entry that would be
overwritten is free or old, and the search stops at a young entry of the target if there is one. -/
def Serves (now : ℤ) (target : CStr) : Prop :=
  ondemandProbeGap ≤ now - d.last →
    ((d.recent d.next).1 = [] ∨ ¬ d.Young now d.next) ∧
      ∀ i, d.remembers target i = true → d.Young now i →
        ∃ j, d.first target = some j ∧ d.Young now j

instance (now : ℤ) (i : Fin 32) : Decidable (d.Young now i) := inferInstanceAs (Decidable (_ < _))

instance (now : ℤ) (target : CStr) : Decidable (d.Serves now target) :=
  inferInstanceAs (Decidable (_ → _ ∧ _))

end Demand

namespace PathNode

variable {n m : PathNode} {s : Slot} {data : CStr}

/-- The memory of a node. -/
def demand (n : PathNode) : Demand := ⟨n.ondemandRecent, n.ondemandNext, n.lastOndemandProbe⟩

/-! ## What a request does to the memory -/

/-- Nothing, or a probe for the target that both limits allowed. -/
def Asks (n : PathNode) (target : CStr) (m : PathNode) : Prop :=
  m.demand = n.demand ∨
    target ≠ [] ∧ n.demand.Allows n.now target ∧ m.demand = n.demand.note n.now target

theorem demand_flexSendPathReqEx (n : PathNode) (dest : Option ℕ) (call : Callsign) (ssid : ℤ) :
    (n.flexSendPathReqEx dest call ssid).1.demand = n.demand := by
  have hvia : (n.flexProbeSession dest (probeTarget call ssid)).1.demand = n.demand := by
    rcases n.flexProbeSession_cases dest (probeTarget call ssid) with h | ⟨i, s, h⟩ <;> rw [h]
    rfl
  rcases n.flexSendPathReqEx_cases dest call ssid with ⟨_, h⟩ | ⟨_, _, h⟩ | ⟨_, _, _, _, _, h⟩ <;>
    rw [h]
  exacts [hvia, hvia]

theorem asks_flexOndemandProbe (n : PathNode) (dest : ℕ) {target : CStr} (hne : target ≠ []) :
    n.Asks target (n.flexOndemandProbe dest target).1 := by
  unfold flexOndemandProbe
  dsimp only
  split
  · exact .inl rfl
  rename_i hgap
  split
  · exact .inl rfl
  rename_i hfirst
  split
  · exact .inl rfl
  rename_i d _
  have hsent := demand_flexSendPathReqEx n (some dest) d.key.call d.key.lo
  have hkept := kept_flexSendPathReqEx n (some dest) d.key.call d.key.lo
  generalize n.flexSendPathReqEx (some dest) d.key.call d.key.lo = r at hsent hkept
  obtain ⟨m, _ | p⟩ := r
  · exact .inl hsent
  · have hrecent : m.ondemandRecent = n.ondemandRecent := congrArg Demand.recent hsent
    have hnext : m.ondemandNext = n.ondemandNext := congrArg Demand.next hsent
    have hnow : m.now = n.now := congrArg Env.now hkept.env
    refine .inr ⟨hne, ⟨not_lt.mp hgap, fun i hi hyoung => hfirst ?_⟩, ?_⟩
    · rw [Option.any_eq_true]
      exact ⟨i, hi, decide_eq_true hyoung⟩
    · simp only [demand, Demand.note, hrecent, hnext, hnow]
      rfl

/-- The target a request asks for. -/
def requestTarget (data : CStr) : CStr :=
  ((flexParsePathFrame data).bind fun f => f.hops.getLast?).elim [] Callsign.bytes

theorem length_requestTarget (data : CStr) : (requestTarget data).length ≤ 19 := by
  unfold requestTarget
  cases (flexParsePathFrame data).bind fun f => f.hops.getLast? with
  | none => simp
  | some last => exact last.2.trans (by decide)

theorem demand_forward (s : Slot) (target : CStr) (dest : Option ℕ) (f : PathFrame) (data : CStr) :
    (n.flexForwardPathReq s target dest f data).1.demand = n.demand := by
  rcases n.flexForwardPathReq_cases s target dest f data with h | ⟨via, frame, h⟩ <;> rw [h]
  rfl

theorem demand_answer (s : Slot) (target : CStr) (f : PathFrame) (data : CStr) (chain : List CStr) :
    (n.answerPathReq s target f data chain).demand = n.demand := by
  unfold answerPathReq
  split
  · exact demand_forward ..
  · split
    · rfl
    · split <;> rfl

/-- A request probes for its own target, or leaves the memory alone. -/
theorem asks_flexHandlePathReq (n : PathNode) (s : Slot) (data : CStr) :
    n.Asks (requestTarget data) (n.flexHandlePathReq s data) := by
  have hpass : ∀ target dest f, target ≠ [] →
      n.Asks target (n.passPathReq s target dest f data) := by
    intro target dest f hne
    unfold passPathReq
    rcases n.flexForwardPathReq_cases s target (some dest) f data with
      h | ⟨via, frame, h⟩ <;> rw [h]
    · have hprobe := asks_flexOndemandProbe n dest hne
      dsimp only
      generalize n.flexOndemandProbe dest target = r at hprobe
      obtain ⟨m, _ | _⟩ := r
      · exact hprobe
      · have hparked : (m.flexDeferPathReq s target data).demand = m.demand := by
          unfold flexDeferPathReq
          split_ifs
          · rfl
          · rfl
          · split <;> rfl
        unfold Asks at hprobe ⊢
        rwa [hparked]
    · exact .inl rfl
  have htransit : ∀ target f, target ≠ [] → n.Asks target (n.transitPathReq s target f data) := by
    intro target f hne
    unfold transitPathReq
    split
    · exact .inl rfl
    split
    · exact .inl rfl
    split
    · exact .inl rfl
    split
    · exact .inl (demand_answer ..)
    split
    · exact .inl (demand_answer ..)
    · exact hpass target _ f hne
  unfold flexHandlePathReq
  split
  · exact .inl rfl
  rename_i f hparse
  split
  · exact .inl rfl
  split
  · exact .inl rfl
  rename_i last hlast
  have htarget : requestTarget data = last.bytes := by simp [requestTarget, hparse, hlast]
  rw [htarget]
  split
  · exact htransit last.bytes f (hops_ne_empty hparse (List.mem_of_getLast? hlast))
  · exact .inl (demand_answer ..)
  · exact .inl (demand_answer ..)

/-! ## Runs -/

/-- A node, and the probes on demand it has sent, the newest first. -/
structure Asking where
  node : PathNode
  sent : List (CStr × ℤ)

/-- A request is handled, or the node does something else. -/
inductive AskingStep
  | request (s : Slot) (data : CStr)
  | other (m : PathNode)

namespace Asking

variable {r t : Asking} {step : AskingStep} {steps : List AskingStep}

/-- One step; a probe went out when the ring moved on. -/
def apply (r : Asking) : AskingStep → Asking
  | .request s data =>
    let m := r.node.flexHandlePathReq s data
    ⟨m, if m.ondemandNext = r.node.ondemandNext then r.sent
      else (requestTarget data, r.node.now) :: r.sent⟩
  | .other m => ⟨m, r.sent⟩

/-- What else a node does leaves the ring alone, and its clock does not go back. -/
def Legal (r : Asking) : AskingStep → Prop
  | .request _ _ => True
  | .other m => m.demand = r.node.demand ∧ r.node.now ≤ m.now

/-- The ring serves every request. -/
def Served (r : Asking) : AskingStep → Prop
  | .request _ data => r.node.demand.Serves r.node.now (requestTarget data)
  | .other _ => True

/-- Both limits were kept. -/
def Spaced (r : Asking) : Prop :=
  r.sent.Pairwise fun later earlier => ondemandProbeGap ≤ later.2 - earlier.2 ∧
    (strcasecmp later.1 earlier.1 = true → ondemandProbeRepeat ≤ later.2 - earlier.2)

/-- A probe that went out is long ago, or the ring has it. -/
def Recalls (r : Asking) (probe : CStr × ℤ) : Prop :=
  ondemandProbeRepeat ≤ r.node.now - probe.2 ∨
    ∃ i, r.node.demand.remembers probe.1 i = true ∧ (r.node.demand.recent i).2 = probe.2

/-- Everything a guarded run keeps. -/
structure Kept (r : Asking) : Prop where
  spaced : r.Spaced
  last : ∀ probe ∈ r.sent, probe.2 ≤ r.node.demand.last
  recalls : ∀ probe ∈ r.sent, r.Recalls probe

/-- With the ring as it was, a later clock changes nothing. -/
theorem Kept.same {m : PathNode} (h : r.Kept) (hdemand : m.demand = r.node.demand)
    (hnow : r.node.now ≤ m.now) : Kept ⟨m, r.sent⟩ where
  spaced := h.spaced
  last := by
    intro probe hprobe
    rw [hdemand]
    exact h.last probe hprobe
  recalls := by
    intro probe hprobe
    rcases h.recalls probe hprobe with hold | ⟨i, hi⟩
    · exact .inl (hold.trans (by linarith))
    · exact .inr ⟨i, by rwa [hdemand]⟩

/-- A probe both limits allowed, with the ring serving it. -/
theorem Kept.probe {m : PathNode} {target : CStr} (h : r.Kept) (hne : target ≠ [])
    (hlen : target.length ≤ 19) (hserves : r.node.demand.Serves r.node.now target)
    (hallows : r.node.demand.Allows r.node.now target)
    (hnote : m.demand = r.node.demand.note r.node.now target) (hnow : m.now = r.node.now) :
    Kept ⟨m, (target, r.node.now) :: r.sent⟩ := by
  obtain ⟨hfree, hfound⟩ := hserves hallows.gap
  have hfull : target.take 19 = target := List.take_of_length_le hlen
  refine ⟨List.pairwise_cons.mpr ⟨?_, h.spaced⟩, ?_, ?_⟩
  · intro probe hprobe
    have hlast := h.last probe hprobe
    have hgap := hallows.gap
    refine ⟨by dsimp only; linarith, fun hsame => ?_⟩
    rcases h.recalls probe hprobe with hold | ⟨i, hi, htime⟩
    · exact hold
    -- the ring has the earlier probe, so the search would have stopped at a young entry
    · by_contra hyoung
      have hremembers : r.node.demand.remembers target i = true := by
        simp only [Demand.remembers, Bool.and_eq_true, strcasecmp, beq_iff_eq] at hi hsame ⊢
        exact ⟨hi.1, hi.2.trans hsame.symm⟩
      obtain ⟨j, hj, hyoung'⟩ := hfound i hremembers (by
        unfold Demand.Young
        rw [htime]
        exact not_le.mp hyoung)
      exact hallows.first j hj hyoung'
  · intro probe hprobe
    rw [hnote]
    rcases List.mem_cons.mp hprobe with rfl | hprobe
    · exact le_rfl
    · have hlast := h.last probe hprobe
      have hgap := hallows.gap
      change probe.2 ≤ r.node.now
      unfold ondemandProbeGap at hgap
      linarith
  · intro probe hprobe
    unfold Recalls
    dsimp only
    rw [hnote, hnow]
    rcases List.mem_cons.mp hprobe with rfl | hprobe
    · refine .inr ⟨r.node.demand.next, ?_⟩
      simp [Demand.remembers, Demand.note, hfull, hne, strcasecmp]
    · rcases h.recalls probe hprobe with hold | ⟨i, hi, htime⟩
      · exact .inl hold
      · by_cases hslot : i = r.node.demand.next
        · -- the entry is overwritten: it was not young any more
          subst hslot
          rcases hfree with hempty | hold
          · simp [Demand.remembers, hempty] at hi
          · refine .inl ?_
            rw [← htime]
            exact not_lt.mp hold
        · refine .inr ⟨i, ?_⟩
          simpa [Demand.remembers, Demand.note, hslot] using And.intro (by
            simpa [Demand.remembers] using hi) htime

/-- One step of a run whose requests are served. -/
theorem kept_apply (h : r.Kept) (hlegal : r.Legal step) (hserved : r.Served step) :
    (r.apply step).Kept := by
  cases step with
  | other m => exact h.same hlegal.1 hlegal.2
  | request s data =>
      have hnow : (r.node.flexHandlePathReq s data).now = r.node.now :=
        congrArg Env.now (handles_flexHandlePathReq r.node s data).kept.env
      unfold apply
      dsimp only
      rcases asks_flexHandlePathReq r.node s data with hsame | ⟨hne, hallows, hnote⟩
      · have hstays : (r.node.flexHandlePathReq s data).ondemandNext = r.node.ondemandNext :=
          congrArg Demand.next hsame
        rw [if_pos hstays]
        exact h.same hsame hnow.ge
      · have hmoved : (r.node.flexHandlePathReq s data).ondemandNext ≠ r.node.ondemandNext := by
          have hnext : (r.node.flexHandlePathReq s data).ondemandNext = r.node.ondemandNext + 1 :=
            congrArg Demand.next hnote
          rw [hnext]
          have hstep : ∀ i : Fin 32, i + 1 ≠ i := by decide
          exact hstep _
        rw [if_neg hmoved]
        exact h.probe hne (length_requestTarget data) hserved hallows hnote hnow

/-- The limits are kept: in every run in which the ring serves every request, two probes on demand
are `FLEXNET_ONDEMAND_PROBE_GAP` apart, and two for the same target
`FLEXNET_ONDEMAND_PROBE_REPEAT`. -/
theorem probes_spaced {n : PathNode} {steps : List AskingStep}
    (hrun : GuardedRun apply (fun r step => r.Legal step ∧ r.Served step) ⟨n, []⟩ steps t) :
    t.Spaced := by
  have hkept : t.Kept := by
    refine hrun.invariant (fun r step h hok => kept_apply h hok.1 hok.2) ?_
    exact ⟨List.Pairwise.nil, fun _ h => absurd h List.not_mem_nil,
      fun _ h => absurd h List.not_mem_nil⟩
  exact hkept.spaced

/-! ## Frames are runs -/

/-- The node does something that leaves the ring and the clock alone. -/
theorem other_run {sent : List (CStr × ℤ)} (hdemand : m.demand = n.demand) (hnow : m.now = n.now) :
    GuardedRun apply Legal ⟨n, sent⟩ [.other m] ⟨m, sent⟩ := by
  have hstart : GuardedRun apply Legal ⟨n, sent⟩ [] ⟨n, sent⟩ := .start
  exact GuardedRun.step (AskingStep.other m) hstart ⟨hdemand, hnow.ge⟩

/-- The runs a node makes from one state to another. -/
def Reaches (n m : PathNode) : Prop :=
  ∀ sent, ∃ steps sent', GuardedRun apply Legal ⟨n, sent⟩ steps ⟨m, sent'⟩

theorem Reaches.trans {k : PathNode} (h : Reaches n m) (h' : Reaches m k) : Reaches n k := by
  intro sent
  obtain ⟨steps, sent', hrun⟩ := h sent
  obtain ⟨steps', sent'', hrun'⟩ := h' sent'
  exact ⟨steps ++ steps', sent'', hrun.append hrun'⟩

theorem reaches_other (hdemand : m.demand = n.demand) (hnow : m.now = n.now) : Reaches n m :=
  fun sent => ⟨_, sent, other_run hdemand hnow⟩

theorem reaches_request (n : PathNode) (s : Slot) (data : CStr) :
    Reaches n (n.flexHandlePathReq s data) := by
  intro sent
  have hstart : GuardedRun apply Legal ⟨n, sent⟩ [] ⟨n, sent⟩ := .start
  exact ⟨_, _, GuardedRun.step (AskingStep.request s data) hstart trivial⟩

theorem reaches_replays (base : CStr) (is : List DeferredSlot) (n : PathNode) :
    Reaches n (is.foldl (replayDeferred base) n) := by
  induction is generalizing n with
  | nil => exact reaches_other rfl rfl
  | cons i is ih =>
      refine .trans ?_ (ih _)
      unfold replayDeferred
      dsimp only
      split
      · exact reaches_other rfl rfl
      split
      · exact reaches_other rfl rfl
      split
      · exact reaches_other rfl rfl
      split
      · exact reaches_other rfl rfl
      · set d := n.deferred i
        set parked := Function.update n.deferred i { d with inUse := false }
        set m : PathNode := { n with deferred := parked, replaying := true }
        have hparked : Reaches n m := reaches_other rfl rfl
        have hhandled := hparked.trans (reaches_request m d.peer d.frame)
        exact hhandled.trans (reaches_other rfl rfl)

/-- A received frame is handled in such a run. -/
theorem reaches_flexNetProcessCE (n : PathNode) (l : LinkId) (data : CStr) :
    Reaches n (n.flexNetProcessCE l data) := by
  have hrelay : ∀ (m : PathNode) f, Reaches m (m.flexRelayPathRep f data) := fun m f => by
    unfold flexRelayPathRep
    split_ifs
    · exact reaches_other rfl rfl
    · exact reaches_other rfl rfl
    · split
      · exact reaches_other rfl rfl
      · split <;> exact reaches_other rfl rfl
  have haccept : ∀ (m : PathNode) p f, Reaches m (m.acceptAnswer p f) := fun m p f => by
    unfold acceptAnswer
    refine .trans (reaches_other ?_ ?_) (reaches_replays _ _ _)
    all_goals
      dsimp only [demand]
      unfold cacheAnswer
      split
      · rfl
      · split
        · rfl
        · split_ifs <;> rfl
  have hreply : ∀ m : PathNode, Reaches m (m.flexHandlePathRep data) := fun m => by
    unfold flexHandlePathRep
    split
    · exact reaches_other rfl rfl
    · split
      · exact reaches_other rfl rfl
      · split
        · exact hrelay m _
        · exact haccept m _ _
  have hnow : (n.toNode.flexNetProcessCE l data).now = n.now :=
    n.toNode.flexNetProcessCE_now l data
  have hnode : Reaches n { n with toNode := n.toNode.flexNetProcessCE l data } :=
    reaches_other rfl hnow
  unfold flexNetProcessCE
  refine hnode.trans ?_
  dsimp only
  split
  · exact reaches_other rfl rfl
  · split
    · exact reaches_request _ _ data
    · exact hreply _
    · exact reaches_other rfl rfl

end Asking

/-! ## A target probed three times -/

open Bench Asking

/-- The small node with forwarding off: `A` has taught it `K`. -/
def unforwarding : PathNode := { small with pathForward := false }

/-- `B` asks for `K`. -/
def asksForK : AskingStep :=
  .request slotB [0x36, 0x21, 0x20, 0x20, 0x20, 0x20, 0x30, 0x42, 0x20, 0x4B]

/-- The node some seconds later. -/
def later (n : PathNode) (seconds : ℕ) : PathNode :=
  { n with toNode := n.toNode.event (.clock seconds 0) }

/-- The small node asked once, and again two minutes later. -/
def askedOnce : Asking := (⟨unforwarding, []⟩ : Asking).apply asksForK

/-- Two minutes later. -/
def waited : Asking := askedOnce.apply (.other (later askedOnce.node 120))

/-- Asked again. -/
def askedTwice : Asking := waited.apply asksForK

/-- Three seconds later. -/
def waitedAgain : Asking := askedTwice.apply (.other (later askedTwice.node 3))

theorem askedTwice_served : GuardedRun apply (fun r step => r.Legal step ∧ r.Served step)
    ⟨unforwarding, []⟩ ([] ++ [asksForK] ++ [.other (later askedOnce.node 120)] ++ [asksForK])
    askedTwice := by
  have hasked : GuardedRun apply (fun r step => r.Legal step ∧ r.Served step)
      ⟨unforwarding, []⟩ ([] ++ [asksForK]) askedOnce :=
    GuardedRun.step asksForK .start ⟨trivial, show Demand.Serves _ _ _ by decide +kernel⟩
  have hwaited := GuardedRun.step (AskingStep.other (later askedOnce.node 120)) hasked
    ⟨⟨rfl, show _ ≤ _ + ((120 : ℕ) : ℤ) by omega⟩, trivial⟩
  exact GuardedRun.step asksForK hwaited ⟨trivial, show Demand.Serves _ _ _ by decide +kernel⟩

theorem probes_spaced_askedTwice : askedTwice.sent.length = 2 ∧ askedTwice.Spaced :=
  ⟨by decide +kernel, probes_spaced askedTwice_served⟩

/-- The search stops at the first entry of the target, which is the old one: a third probe goes out
three seconds after the second. -/
theorem not_always_spaced :
    ∃ steps t, GuardedRun apply Legal ⟨unforwarding, []⟩ steps t ∧ ¬ t.Spaced := by
  have htwice : GuardedRun apply Legal _ _ askedTwice := askedTwice_served.mono fun r step h => h.1
  have hwaited := GuardedRun.step (AskingStep.other (later askedTwice.node 3)) htwice
    ⟨rfl, show _ ≤ _ + ((3 : ℕ) : ℤ) by omega⟩
  have hagain := GuardedRun.step asksForK hwaited trivial
  refine ⟨_, _, hagain, fun hspaced => ?_⟩
  have hsent : (waitedAgain.apply asksForK).sent =
      [([0x4B], 1123), ([0x4B], 1120), ([0x4B], 1000)] := by decide +kernel
  change (waitedAgain.apply asksForK).Spaced at hspaced
  rw [Spaced, hsent] at hspaced
  revert hspaced
  decide

end PathNode

end FlexNet
