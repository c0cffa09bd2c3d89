import FlexNet.Path.Layer

/-!
# Answers on their way to somebody else

An answer carries the QSO number of the request it belongs to, and every node counts its own
requests up from the same start.  `flex_handle_path_rep` matches an answer to a probe of ours by
that number alone, before it looks at who asked.  `flexHandlePathRep_foreign` says what follows: an
answer of another node's traversal is passed on untouched exactly when no probe of ours happens to
wait for its number.
-/

namespace FlexNet

namespace PathNode

variable {n m : PathNode} {f : PathFrame} {data : CStr} {s : Slot}

/-! ## What handling a request leaves alone -/

/-- The chain every row has cached. -/
def chains (n : PathNode) : List (Key × List Callsign × ℤ) :=
  n.dests.map fun d => (d.key, d.path, d.pathUpdated)

/-- The configuration, the tables of the sessions and the cached chains are the same, and while a
parked request is handled so are the parked ones. -/
structure Kept (n m : PathNode) : Prop where
  env : m.toEnv = n.toEnv
  pathForward : m.pathForward = n.pathForward
  replaying : m.replaying = n.replaying
  chains : m.chains = n.chains
  parked : n.replaying = true → m.deferred = n.deferred

theorem Kept.refl (n : PathNode) : n.Kept n := ⟨rfl, rfl, rfl, rfl, fun _ => rfl⟩

theorem Kept.trans {k : PathNode} (h : n.Kept m) (h' : m.Kept k) : n.Kept k :=
  ⟨h'.env.trans h.env, h'.pathForward.trans h.pathForward, h'.replaying.trans h.replaying,
    h'.chains.trans h.chains, fun hr => (h'.parked (h.replaying.trans hr)).trans (h.parked hr)⟩

theorem kept_sendCe (n : PathNode) (s : Slot) (data : CStr) : n.Kept (n.sendCe s data) :=
  ⟨rfl, rfl, rfl, rfl, fun _ => rfl⟩

/-- A traversal goes on in one frame, away from who asked, or nothing happens. -/
theorem flexForwardPathReq_away (n : PathNode) (s : Slot) (target : CStr) (dest : Option ℕ)
    (f : PathFrame) (data : CStr) :
    n.flexForwardPathReq s target dest f data = (n, false) ∨
      ∃ via frame, via ≠ s ∧ n.flexForwardPathReq s target dest f data =
        (n.sendCe via frame, true) := by
  unfold flexForwardPathReq
  dsimp only
  split
  · exact .inl rfl
  split
  · exact .inl rfl
  split
  · exact .inl rfl
  split
  · exact .inl rfl
  split
  · exact .inl rfl
  rename_i haway
  split
  · exact .inl rfl
  split
  · exact .inl rfl
  split
  · exact .inl rfl
  split
  · exact .inl rfl
  split
  · exact .inl rfl
  · exact .inr ⟨_, _, haway, rfl⟩

theorem flexForwardPathReq_cases (n : PathNode) (s : Slot) (target : CStr) (dest : Option ℕ)
    (f : PathFrame) (data : CStr) :
    n.flexForwardPathReq s target dest f data = (n, false) ∨
      ∃ via frame, n.flexForwardPathReq s target dest f data = (n.sendCe via frame, true) := by
  rcases n.flexForwardPathReq_away s target dest f data with h | ⟨via, frame, -, h⟩
  · exact .inl h
  · exact .inr ⟨via, frame, h⟩

/-- Which session a probe goes to: a row's next hop may be healed, and nothing else is written. -/
theorem flexProbeSession_cases (n : PathNode) (dest : Option ℕ) (target : CStr) :
    (n.flexProbeSession dest target).1 = n ∨ ∃ i s, (n.flexProbeSession dest target).1 =
      { n with dests := n.dests.modify i fun d => { d with viaSession := some s } } := by
  unfold flexProbeSession
  dsimp only
  split
  · split
    · exact .inl rfl
    · split
      · exact .inr ⟨_, _, rfl⟩
      · exact .inl rfl
  · exact .inl rfl

/-- A probe: no slot is free, or nothing is sent and at most the counter moves, or the probe of a
free slot goes out. -/
theorem flexSendPathReqEx_cases (n : PathNode) (dest : Option ℕ) (call : Callsign) (ssid : ℤ) :
    let m := (n.flexProbeSession dest (probeTarget call ssid)).1
    (∃ e, n.flexSendPathReqEx dest call ssid = (n, .error e)) ∨
    (∃ e counter, n.flexSendPathReqEx dest call ssid =
      (({ m with qsoCounter := counter } : PathNode), .error e)) ∨
    ∃ p s counter qso frame, n.flexSendPathReqEx dest call ssid =
      (({ m with qsoCounter := counter } : PathNode).sendProbe p s qso dest call ssid frame,
        .ok p) := by
  intro m
  unfold flexSendPathReqEx
  split
  · exact .inl ⟨_, rfl⟩
  · simp only [m]
    generalize n.flexProbeSession dest (probeTarget call ssid) = r
    obtain ⟨k, _ | s⟩ := r
    · exact .inr (.inl ⟨_, k.qsoCounter, rfl⟩)
    · dsimp only
      generalize freshQso k.pendingQso 65536 k.qsoCounter = q
      obtain ⟨counter, _ | qso⟩ := q
      · exact .inr (.inl ⟨_, counter, rfl⟩)
      · dsimp only
        split
        · exact .inr (.inl ⟨_, counter, rfl⟩)
        · exact .inr (.inr ⟨_, s, counter, qso, _, rfl⟩)

/-- A change of the next hops and of the probes leaves the chains alone. -/
theorem kept_flexProbeSession (n : PathNode) (dest : Option ℕ) (target : CStr) :
    n.Kept (n.flexProbeSession dest target).1 := by
  rcases n.flexProbeSession_cases dest target with h | ⟨i, s, h⟩ <;> rw [h]
  · exact .refl n
  · refine ⟨rfl, rfl, rfl, ?_, fun _ => rfl⟩
    refine List.ext_getElem? fun j => ?_
    simp only [chains, List.getElem?_map, List.getElem?_modify]
    split_ifs <;> cases n.dests[j]? <;> rfl

theorem kept_flexSendPathReqEx (n : PathNode) (dest : Option ℕ) (call : Callsign) (ssid : ℤ) :
    n.Kept (n.flexSendPathReqEx dest call ssid).1 := by
  have hvia := kept_flexProbeSession n dest (probeTarget call ssid)
  rcases n.flexSendPathReqEx_cases dest call ssid with ⟨_, h⟩ | ⟨_, _, h⟩ | ⟨_, _, _, _, _, h⟩ <;>
    rw [h]
  · exact .refl n
  · exact hvia.trans ⟨rfl, rfl, rfl, rfl, fun _ => rfl⟩
  · exact hvia.trans ⟨rfl, rfl, rfl, rfl, fun _ => rfl⟩

theorem kept_flexOndemandProbe (n : PathNode) (dest : ℕ) (target : CStr) :
    n.Kept (n.flexOndemandProbe dest target).1 := by
  unfold flexOndemandProbe
  dsimp only
  split_ifs
  · exact .refl n
  · exact .refl n
  · split
    · exact .refl n
    · rename_i d _
      have hsent := kept_flexSendPathReqEx n (some dest) d.key.call d.key.lo
      generalize n.flexSendPathReqEx (some dest) d.key.call d.key.lo = r at hsent
      obtain ⟨m, _ | p⟩ := r
      · exact hsent
      · exact hsent.trans ⟨rfl, rfl, rfl, rfl, fun _ => rfl⟩

theorem kept_flexDeferPathReq (n : PathNode) (s : Slot) (target data : CStr) :
    n.Kept (n.flexDeferPathReq s target data) := by
  unfold flexDeferPathReq
  split_ifs with hreplay
  · exact .refl n
  · exact .refl n
  · split
    · exact .refl n
    · exact ⟨rfl, rfl, rfl, rfl, fun h => absurd h hreplay⟩

/-- What handling a request comes to: nothing, one frame, or a probe on demand, behind which the
request may be parked. -/
inductive Handles (n : PathNode) (s : Slot) (data : CStr) : PathNode → Prop
  | nothing : Handles n s data n
  | frame (via : Slot) (frame : CStr) : Handles n s data (n.sendCe via frame)
  | probe (dest : ℕ) (target : CStr) : Handles n s data (n.flexOndemandProbe dest target).1
  | parked (dest : ℕ) (target : CStr) :
      Handles n s data ((n.flexOndemandProbe dest target).1.flexDeferPathReq s target data)

theorem handles_flexForwardPathReq (n : PathNode) (s : Slot) (target : CStr) (dest : Option ℕ)
    (f : PathFrame) (data : CStr) :
    Handles n s data (n.flexForwardPathReq s target dest f data).1 := by
  rcases n.flexForwardPathReq_cases s target dest f data with h | ⟨via, frame, h⟩ <;> rw [h]
  · exact .nothing
  · exact .frame via frame

theorem handles_answerPathReq (n : PathNode) (s : Slot) (target : CStr) (f : PathFrame)
    (data : CStr) (chain : List CStr) :
    Handles n s data (n.answerPathReq s target f data chain) := by
  unfold answerPathReq
  split
  · exact handles_flexForwardPathReq ..
  split
  · exact .nothing
  split
  · exact .nothing
  · exact .frame ..

theorem handles_passPathReq (n : PathNode) (s : Slot) (target : CStr) (dest : ℕ) (f : PathFrame)
    (data : CStr) : Handles n s data (n.passPathReq s target dest f data) := by
  unfold passPathReq
  rcases n.flexForwardPathReq_cases s target (some dest) f data with h | ⟨via, frame, h⟩ <;> rw [h]
  · have hprobe : Handles n s data (n.flexOndemandProbe dest target).1 := .probe dest target
    have hparked : Handles n s data
        ((n.flexOndemandProbe dest target).1.flexDeferPathReq s target data) := .parked dest target
    dsimp only
    generalize n.flexOndemandProbe dest target = r at hprobe hparked ⊢
    obtain ⟨m, _ | _⟩ := r
    · exact hprobe
    · exact hparked
  · exact .frame via frame

theorem handles_transitPathReq (n : PathNode) (s : Slot) (target : CStr) (f : PathFrame)
    (data : CStr) : Handles n s data (n.transitPathReq s target f data) := by
  unfold transitPathReq
  split
  · exact .nothing
  split
  · exact .nothing
  split
  · exact .nothing
  split
  · exact handles_answerPathReq ..
  split
  · exact handles_answerPathReq ..
  · exact handles_passPathReq ..

theorem handles_flexHandlePathReq (n : PathNode) (s : Slot) (data : CStr) :
    Handles n s data (n.flexHandlePathReq s data) := by
  unfold flexHandlePathReq
  split
  · exact .nothing
  split
  · exact .nothing
  split
  · exact .nothing
  split
  · exact handles_transitPathReq ..
  · exact handles_answerPathReq ..
  · exact handles_answerPathReq ..

theorem Handles.kept (h : Handles n s data m) : n.Kept m := by
  cases h with
  | nothing => exact .refl n
  | frame via frame => exact kept_sendCe n via frame
  | probe dest target => exact kept_flexOndemandProbe n dest target
  | parked dest target =>
      exact (kept_flexOndemandProbe n dest target).trans (kept_flexDeferPathReq _ s target data)

/-! ## Parked requests -/

/-- One parked request is left as it is, or taken out of its slot. -/
theorem replayDeferred_cases (base : CStr) (n : PathNode) (i : DeferredSlot) :
    replayDeferred base n i = n ∨
      ((n.deferred i).inUse = true ∧ ((replayDeferred base n i).deferred i).inUse = false ∧
        ∀ j, j ≠ i → (replayDeferred base n i).deferred j = n.deferred j) := by
  unfold replayDeferred
  dsimp only
  by_cases huse : (n.deferred i).inUse = true
  swap
  · rw [if_pos (by simpa using huse)]
    exact .inl rfl
  rw [if_neg (by simpa using huse)]
  split
  · refine .inr ⟨huse, by simp, fun j hj => Function.update_of_ne hj _ _⟩
  split
  · exact .inl rfl
  refine .inr ⟨huse, ?_⟩
  split
  · exact ⟨by simp, fun j hj => Function.update_of_ne hj _ _⟩
  · rw [(handles_flexHandlePathReq _ _ _).kept.parked rfl]
    exact ⟨by simp, fun j hj => Function.update_of_ne hj _ _⟩

/-- The parked requests are all left, or one is gone. -/
theorem replays_cases (base : CStr) (n : PathNode) (is : List DeferredSlot) :
    is.foldl (replayDeferred base) n = n ∨
      ∃ i, (n.deferred i).inUse = true ∧
        ((is.foldl (replayDeferred base) n).deferred i).inUse = false := by
  have hgone : ∀ (n : PathNode) is j, (n.deferred j).inUse = false →
      ((List.foldl (replayDeferred base) n is).deferred j).inUse = false := by
    intro n is j hj
    induction is generalizing n with
    | nil => exact hj
    | cons i is ih =>
        refine ih _ ?_
        rcases replayDeferred_cases base n i with h | ⟨-, hi, hothers⟩
        · rw [h]
          exact hj
        · by_cases hji : j = i
          · rw [hji]
            exact hi
          · rw [hothers j hji]
            exact hj
  induction is generalizing n with
  | nil => exact .inl rfl
  | cons i is ih =>
      rw [List.foldl_cons]
      rcases replayDeferred_cases base n i with h | ⟨huse, hi, -⟩
      · rw [h]
        exact ih n
      · exact .inr ⟨i, huse, hgone _ is i hi⟩

/-! ## Who an answer is passed back to -/

/-- The callsign before the first one that is ours. -/
def Precedes (call : CStr) (chain : List Callsign) (prev : Callsign) : Prop :=
  ∃ before us after, chain = before ++ prev :: us :: after ∧ strcasecmp us.bytes call = true ∧
    ∀ c ∈ before ++ [prev], strcasecmp c.bytes call = false

/-- No callsign of a frame is empty. -/
theorem parseCalls_ne_empty {turns : ℕ} {text : CStr} {call : Callsign}
    (h : call ∈ parseCalls turns text) : call.bytes ≠ [] := by
  induction turns generalizing text with
  | zero => cases h
  | succ turns ih =>
      unfold parseCalls at h
      dsimp only at h
      split at h
      · cases h
      · rename_i hne
        rcases List.mem_cons.mp h with rfl | h
        · intro hempty
          refine hne ?_
          change List.take _ (List.take _ _) = [] at hempty
          rw [List.take_take, Nat.min_self] at hempty
          rw [hempty]
          rfl
        · exact ih h

theorem hops_ne_empty (hparse : flexParsePathFrame data = some f) {hop : Callsign}
    (hhop : hop ∈ f.hops) : hop.bytes ≠ [] := by
  unfold flexParsePathFrame at hparse
  dsimp only at hparse
  split_ifs at hparse
  cases hparse
  exact parseCalls_ne_empty (List.mem_of_mem_tail hhop)

/-- The relay finds the callsign before ours. -/
theorem relayTo_eq_some (hours : n.cfg.pathCall ≠ [])
    (hforeign : strcasecmp f.origin.bytes n.cfg.pathCall = false) {prev : Callsign} :
    n.relayTo f = some prev ↔ Precedes n.cfg.pathCall (f.origin :: f.hops) prev := by
  unfold relayTo
  rw [if_neg (by simp [hours, hforeign]), Option.map_eq_some_iff]
  constructor
  · rintro ⟨me, hme, rfl⟩
    obtain ⟨hlt, hus, hfirst⟩ := List.findIdx?_eq_some_iff_getElem.mp hme
    have hnot : ∀ c ∈ f.hops.take me, strcasecmp c.bytes n.cfg.pathCall = false := by
      intro c hc
      obtain ⟨j, hj, rfl⟩ := List.mem_take_iff_getElem.mp hc
      simpa using hfirst j (by omega)
    cases me with
    | zero =>
        refine ⟨[], f.hops[0], f.hops.drop 1, ?_, hus, by simpa using hforeign⟩
        rw [if_pos rfl, List.nil_append, ← List.drop_eq_getElem_cons hlt, List.drop_zero]
    | succ j =>
        have hj : j < f.hops.length := by omega
        have hprev : f.hops.getD j .empty = f.hops[j] := by
          rw [List.getD_eq_getElem?_getD, List.getElem?_eq_getElem hj, Option.getD_some]
        refine ⟨f.origin :: f.hops.take j, f.hops[j + 1], f.hops.drop (j + 2), ?_, hus, ?_⟩
        · rw [if_neg (by omega), Nat.add_sub_cancel, hprev, List.cons_append,
            ← List.drop_eq_getElem_cons hlt, ← List.drop_eq_getElem_cons hj, List.take_append_drop]
        · intro c hc
          rw [Nat.add_sub_cancel, if_neg (by omega), hprev, List.cons_append, List.mem_cons] at hc
          rcases hc with rfl | hc
          · exact hforeign
          · rw [← List.take_succ_eq_append_getElem hj] at hc
            exact hnot c hc
  · rintro ⟨before, us, after, hchain, hus, hfirst⟩
    cases before with
    | nil =>
        rw [List.nil_append, List.cons.injEq] at hchain
        refine ⟨0, ?_, by rw [if_pos rfl, hchain.1]⟩
        rw [hchain.2, List.findIdx?_cons, if_pos hus]
    | cons b bs =>
        rw [List.cons_append, List.cons.injEq] at hchain
        refine ⟨bs.length + 1, ?_, ?_⟩
        · have hnone :
              (bs ++ [prev]).findIdx? (fun h => strcasecmp h.bytes n.cfg.pathCall) = none :=
            List.findIdx?_eq_none_iff.mpr fun c hc => hfirst c (by
              rw [List.cons_append]
              exact List.mem_cons_of_mem _ hc)
          rw [hchain.2, show bs ++ prev :: us :: after = bs ++ [prev] ++ us :: after by simp,
            List.findIdx?_append, hnone, List.findIdx?_cons, if_pos hus]
          simp
        · rw [if_neg (by omega), Nat.add_sub_cancel, hchain.2]
          simp

/-! ## Answers of other nodes -/

/-- The answer was passed on and nothing else happened: no probe of ours was closed, no chain was
cached, no parked request was handled, and the frame went, as it came, to the session of the
callsign before us, if that session is live. -/
structure PassedOn (n m : PathNode) (f : PathFrame) (data : CStr) : Prop where
  probes : m.probes = n.probes
  chains : m.chains = n.chains
  parked : m.deferred = n.deferred
  relayed : ∀ prev s, Precedes n.cfg.pathCall (f.origin :: f.hops) prev →
    n.flexSessionForCall prev.bytes = some s → n.live s = true →
    m.toNode = n.toNode.flexSendFrame s pidCE data
  otherwise : (∀ prev s, Precedes n.cfg.pathCall (f.origin :: f.hops) prev →
    n.flexSessionForCall prev.bytes = some s → n.live s = false) → m.toNode = n.toNode

theorem matchedProbe_eq_none {qso : ℤ} :
    n.matchedProbe qso = none ↔ n.pendingQso qso = false := by
  rw [matchedProbe, pendingQso, List.find?_eq_none, List.any_eq_false]

/-- Nobody comes before a callsign that is not in the chain. -/
theorem Precedes.mem_hops {call : CStr} {prev : Callsign}
    (h : Precedes call (f.origin :: f.hops) prev) :
    ∃ us ∈ f.hops, strcasecmp us.bytes call = true := by
  obtain ⟨before, us, after, hchain, hus, -⟩ := h
  refine ⟨us, ?_, hus⟩
  cases before with
  | nil =>
      rw [List.nil_append, List.cons.injEq] at hchain
      simp [hchain.2]
  | cons b bs =>
      rw [List.cons_append, List.cons.injEq] at hchain
      simp [hchain.2]

theorem relayTo_iff (hparse : flexParsePathFrame data = some f)
    (hforeign : strcasecmp f.origin.bytes n.cfg.pathCall = false) {prev : Callsign} :
    n.relayTo f = some prev ↔ Precedes n.cfg.pathCall (f.origin :: f.hops) prev := by
  by_cases hours : n.cfg.pathCall = []
  · refine iff_of_false (by simp [relayTo, hours]) fun h => ?_
    obtain ⟨us, hmem, hus⟩ := h.mem_hops
    rw [hours] at hus
    exact hops_ne_empty hparse hmem (by simpa [strcasecmp] using hus)
  · exact relayTo_eq_some hours hforeign

/-- The relay passes an answer on. -/
theorem flexRelayPathRep_passedOn (hparse : flexParsePathFrame data = some f)
    (hforward : n.pathForward = true)
    (hforeign : strcasecmp f.origin.bytes n.cfg.pathCall = false) :
    n.PassedOn (n.flexRelayPathRep f data) f data := by
  have hdata : data.isEmpty = false := by
    cases data with
    | nil => cases hparse
    | cons b rest => rfl
  have hstays : (∀ prev s, n.relayTo f = some prev → n.flexSessionForCall prev.bytes = some s →
      n.live s = false) → n.PassedOn n f data := fun hnone => by
    refine ⟨rfl, rfl, rfl, fun prev s hprev hs hlive => ?_, fun _ => rfl⟩
    rw [hnone prev s ((relayTo_iff hparse hforeign).mpr hprev) hs] at hlive
    cases hlive
  unfold flexRelayPathRep
  rw [if_neg (by simp [hforward])]
  split
  · rename_i hshort
    refine hstays fun prev s hprev => ?_
    obtain ⟨us, hmem, -⟩ := ((relayTo_iff hparse hforeign).mp hprev).mem_hops
    have hlong := List.length_pos_of_mem hmem
    simp only [hdata, Bool.false_eq_true, or_false] at hshort
    omega
  split
  · rename_i hnone
    exact hstays fun prev s hprev => by rw [hnone] at hprev; cases hprev
  · rename_i prev hprev
    have honly : ∀ prev' s, Precedes n.cfg.pathCall (f.origin :: f.hops) prev' →
        n.flexSessionForCall prev'.bytes = some s → n.flexSessionForCall prev.bytes = some s := by
      intro prev' s hprev' hs
      rw [← relayTo_iff hparse hforeign, hprev, Option.some.injEq] at hprev'
      rw [hprev']
      exact hs
    split
    · rename_i hdown
      refine hstays fun prev' s hprev' hs => ?_
      rw [hprev, Option.some.injEq] at hprev'
      rw [Option.filter_eq_none_iff] at hdown
      simpa using hdown s (hprev' ▸ hs)
    · rename_i via hvia
      rw [Option.filter_eq_some_iff] at hvia
      refine ⟨rfl, rfl, rfl, fun prev' s hprev' hs _ => ?_, fun hnone => ?_⟩
      · rw [honly prev' s hprev' hs, Option.some.injEq] at hvia
        rw [hvia.1]
        rfl
      · rw [hnone prev via ((relayTo_iff hparse hforeign).mp hprev) hvia.1] at hvia
        cases hvia.2

/-- An answer to a probe of ours does not pass. -/
theorem acceptAnswer_not_passedOn {p : ProbeSlot} (hp : (n.probes p).active = true) :
    ¬ n.PassedOn (n.acceptAnswer p f) f data := by
  intro h
  have hprobes := h.probes
  have hparked := h.parked
  have hcached : ((n.cacheAnswer (n.probes p) f.hops).probes = n.probes) ∧
      (n.cacheAnswer (n.probes p) f.hops).deferred = n.deferred := by
    unfold cacheAnswer
    split
    · exact ⟨rfl, rfl⟩
    split
    · exact ⟨rfl, rfl⟩
    split
    · exact ⟨rfl, rfl⟩
    · exact ⟨rfl, rfl⟩
  unfold acceptAnswer at hprobes hparked
  dsimp only at hprobes hparked
  -- a parked request that was handled is gone, and without one the probe stays closed
  rcases replays_cases (flexBaseCall (n.probes p).targetCall.bytes) _ (List.finRange 8) with
    hnone | ⟨i, huse, hgone⟩
  · rw [hnone] at hprobes
    have hclosed := congrArg PathProbe.active (congrFun hprobes p)
    dsimp only at hclosed
    rw [Function.update_self, hp] at hclosed
    cases hclosed
  · rw [hparked] at hgone
    dsimp only at huse
    rw [hcached.2, hgone] at huse
    cases huse

/-- An answer of somebody else's traversal is passed on untouched exactly when no probe of ours
waits for its QSO number. -/
theorem flexHandlePathRep_foreign (n : PathNode) (data : CStr) (f : PathFrame)
    (hparse : flexParsePathFrame data = some f) (hreply : f.isReply = true)
    (hforward : n.pathForward = true)
    (hforeign : strcasecmp f.origin.bytes n.cfg.pathCall = false) :
    n.PassedOn (n.flexHandlePathRep data) f data ↔
      ∀ p, (n.probes p).active = true → (n.probes p).qso ≠ f.qso := by
  have hpending : n.pendingQso f.qso = false ↔
      ∀ p, (n.probes p).active = true → (n.probes p).qso ≠ f.qso := by
    simp [pendingQso]
  unfold flexHandlePathRep
  rw [hparse]
  dsimp only
  rw [if_neg (by simp [hreply]), ← hpending, ← matchedProbe_eq_none]
  cases hmatch : n.matchedProbe f.qso with
  | none => exact iff_of_true (flexRelayPathRep_passedOn hparse hforward hforeign) rfl
  | some p =>
      have hp := List.find?_some hmatch
      rw [Bool.and_eq_true] at hp
      exact iff_of_false (acceptAnswer_not_passedOn hp.1) (by simp)

/-! ### Two nodes at their first request -/

open Bench

/-- The small node with forwarding of path frames; `A` has taught it `K`. -/
def small : PathNode :=
  { (node true).after [record 0 0x4B 10] with pathForward := true, portMaxDigis := fun _ => 0 }

/-- The small node with its first probe outstanding, for `K`. -/
def probing : PathNode :=
  (small.flexSendPathReqEx (small.flexFindDestForTarget [0x4B]) (.ofCStr [0x4B]) 0).1

/-- The answer of `B` to the first request of `A`, whose traversal towards `L` came through the
node. -/
def answerForA : CStr :=
  pathFrame 0x37 0x24 (qsoField 1 false) [[0x41], [0x4E], [0x42], [0x4C]] []

/-- `answerForA` as it is read. -/
def answerRead : PathFrame :=
  ⟨true, 1, false, 4, .ofCStr [0x41], [.ofCStr [0x4E], .ofCStr [0x42], .ofCStr [0x4C]]⟩

set_option maxRecDepth 10000 in
/-- Without a probe of its own the node passes the answer on. -/
theorem flexHandlePathRep_foreign_small :
    small.PassedOn (small.flexHandlePathRep answerForA) answerRead answerForA :=
  (flexHandlePathRep_foreign small answerForA answerRead (by decide +kernel) rfl rfl
    (by decide +kernel)).mpr (by decide +kernel)

set_option maxRecDepth 10000 in
/-- An answer meant for `A` is taken for the answer to the node's own first probe. -/
theorem flexHandlePathRep_swallowed :
    ¬ ∀ (n : PathNode) (data : CStr) (f : PathFrame), flexParsePathFrame data = some f →
      f.isReply = true → n.pathForward = true → strcasecmp f.origin.bytes n.cfg.pathCall = false →
      n.PassedOn (n.flexHandlePathRep data) f data := by
  intro hall
  have hpassed := hall probing answerForA answerRead (by decide +kernel) rfl rfl (by decide +kernel)
  have hprobe := congrArg PathProbe.active (congrFun hpassed.probes 0)
  revert hprobe
  decide +kernel

end PathNode

end FlexNet
