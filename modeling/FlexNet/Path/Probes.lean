import FlexNet.Path.Answers

/-!
# Probes and their QSO numbers

What `flex_send_path_req_ex` leaves behind: one frame to the neighbour it chose, and a probe whose
number no other outstanding probe has (`flexSendPathReqEx_ok`).  Eight probes can be outstanding, so
the search for a number ends within nine tries, and a number that was just answered does not come
back for a long time (`freshQso_near`).
-/

namespace FlexNet

/-! ## The numbers -/

theorem toNat_nextQso (c : UInt16) : (nextQso c).toNat = c.toNat % 65535 + 1 := by
  have hc := c.toNat_lt
  unfold nextQso
  split
  · rename_i h
    have := congrArg UInt16.toNat h
    rw [UInt16.toNat_add] at this
    simp at this ⊢
    omega
  · rename_i h
    have hne : (c + 1).toNat ≠ 0 := fun h0 => h (UInt16.toNat_inj.mp h0)
    rw [UInt16.toNat_add] at hne ⊢
    simp at hne ⊢
    omega

/-- The numbers go round in 65535 steps. -/
theorem toNat_iterate_nextQso {c : UInt16} (hc : 0 < c.toNat) (t : ℕ) :
    (nextQso^[t] c).toNat = (c.toNat - 1 + t) % 65535 + 1 := by
  have hlt := c.toNat_lt
  induction t with
  | zero => simp; omega
  | succ t ih =>
      rw [Function.iterate_succ_apply', toNat_nextQso, ih]
      omega

/-- The search stops at the first number that is not taken. -/
theorem freshQso_some {taken : ℤ → Bool} {tries : ℕ} {c c' : UInt16} {qso : ℤ}
    (h : freshQso taken tries c = (c', some qso)) :
    ∃ t, t < tries ∧ c' = nextQso^[t + 1] c ∧ qso = c'.toNat ∧ taken qso = false ∧
      ∀ i, i < t → taken (nextQso^[i + 1] c).toNat = true := by
  induction tries generalizing c with
  | zero => cases h
  | succ tries ih =>
      unfold freshQso at h
      split at h
      · rename_i htaken
        obtain ⟨t, ht, rfl, hqso, hfree, hbefore⟩ := ih h
        refine ⟨t + 1, by omega, rfl, hqso, hfree, fun i hi => ?_⟩
        cases i with
        | zero => exact htaken
        | succ i => exact hbefore i (by omega)
      · rename_i hfree
        cases h
        exact ⟨0, by omega, rfl, rfl, by simpa using hfree, fun i hi => absurd hi (by omega)⟩

/-- A failed search has tried them all. -/
theorem freshQso_none {taken : ℤ → Bool} {tries : ℕ} {c c' : UInt16}
    (h : freshQso taken tries c = (c', none)) :
    ∀ i, i < tries → taken (nextQso^[i + 1] c).toNat = true := by
  induction tries generalizing c with
  | zero => exact fun i hi => absurd hi (by omega)
  | succ tries ih =>
      unfold freshQso at h
      split at h
      · rename_i htaken
        intro i hi
        cases i with
        | zero => exact htaken
        | succ i => exact ih h i (by omega)
      · cases h

namespace PathNode

variable {n m : PathNode}

/-- Nine numbers in a row are not all taken. -/
theorem not_taken_nine {c : UInt16} (hc : 0 < c.toNat) :
    ∃ i, i < 9 ∧ n.pendingQso (nextQso^[i + 1] c).toNat = false := by
  by_contra hall
  push Not at hall
  have hslot : ∀ i : Fin 9, ∃ p, (n.probes p).qso = ((nextQso^[(i : ℕ) + 1] c).toNat : ℤ) := by
    intro i
    have hpend := hall i i.isLt
    simp only [ne_eq, Bool.not_eq_false, pendingQso, List.any_eq_true, Bool.and_eq_true,
      decide_eq_true_eq] at hpend
    obtain ⟨p, -, -, hp⟩ := hpend
    exact ⟨p, hp⟩
  choose slot hslot using hslot
  obtain ⟨i, j, hne, heq⟩ := Fintype.exists_ne_map_eq_of_card_lt slot (by simp)
  have hqso := (hslot i).symm.trans (heq ▸ hslot j)
  rw [toNat_iterate_nextQso hc, toNat_iterate_nextQso hc] at hqso
  have hi := i.isLt
  have hj := j.isLt
  exact hne (Fin.ext (by omega))

/-- The search finds a number within nine tries. -/
theorem freshQso_near {c c' : UInt16} {found : Option ℤ} (hc : 0 < c.toNat)
    (h : freshQso n.pendingQso 65536 c = (c', found)) :
    ∃ t, t < 9 ∧ c' = nextQso^[t + 1] c ∧ found = some (c'.toNat : ℤ) ∧
      n.pendingQso c'.toNat = false := by
  obtain ⟨i, hi, hfree⟩ := not_taken_nine (n := n) hc
  cases found with
  | none =>
      rw [freshQso_none h i (by omega)] at hfree
      cases hfree
  | some qso =>
      obtain ⟨t, -, rfl, rfl, hnot, hbefore⟩ := freshQso_some h
      refine ⟨t, ?_, rfl, rfl, hnot⟩
      by_contra hlate
      rw [hbefore i (by omega)] at hfree
      cases hfree

/-! ## Sending -/

/-- A change of next hops touches neither the probes, nor the counter, nor the peers, nor the
number of sessions. -/
theorem flexProbeSession_probes (n : PathNode) (dest : Option ℕ) (target : CStr) :
    (n.flexProbeSession dest target).1.probes = n.probes ∧
      (n.flexProbeSession dest target).1.qsoCounter = n.qsoCounter ∧
      (n.flexProbeSession dest target).1.peers = n.peers ∧
      (n.flexProbeSession dest target).1.sessionCount = n.sessionCount := by
  rcases n.flexProbeSession_cases dest target with h | ⟨i, s, h⟩ <;> rw [h] <;>
    exact ⟨rfl, rfl, rfl, rfl⟩

/-- A probe that went out. -/
theorem flexSendPathReqEx_ok {dest : Option ℕ} {call : Callsign} {ssid : ℤ} {p : ProbeSlot}
    (h : n.flexSendPathReqEx dest call ssid = (m, .ok p)) :
    ∃ n' s counter qso frame, n.flexProbeSession dest (probeTarget call ssid) = (n', some s) ∧
      freshQso n'.pendingQso 65536 n'.qsoCounter = (counter, some qso) ∧
      flexBuildPathReq 128 qso false n'.cfg.pathCall (n'.sessPeerCall s) (probeTarget call ssid) =
        some frame ∧
      m =
        ({ n' with qsoCounter := counter } : PathNode).sendProbe p s qso dest call ssid frame := by
  unfold flexSendPathReqEx at h
  split at h
  · cases h
  · dsimp only at h
    split at h
    · cases h
    · rename_i n' s hvia
      split at h
      · cases h
      · rename_i counter qso hqso
        split at h
        · cases h
        · rename_i frame hframe
          cases h
          exact ⟨n', s, counter, qso, frame, hvia, hqso, hframe, rfl⟩

/-- The number of a probe that went out is its own. -/
theorem qso_sent {dest : Option ℕ} {call : Callsign} {ssid : ℤ} {p : ProbeSlot}
    (h : n.flexSendPathReqEx dest call ssid = (m, .ok p)) :
    (m.probes p).active = true ∧ (m.probes p).qso = m.qsoCounter.toNat ∧
      (∀ i, (m.probes i).active = true → (m.probes i).qso = (m.probes p).qso → i = p) := by
  obtain ⟨n', s, counter, qso, frame, -, hqso, -, rfl⟩ := flexSendPathReqEx_ok h
  obtain ⟨t, -, -, rfl, hfree, -⟩ := freshQso_some hqso
  refine ⟨by simp [sendProbe], by simp [sendProbe, sendCe], fun i hi hsame => ?_⟩
  by_contra hne
  simp only [sendProbe, Function.update_self, Function.update_of_ne hne] at hi hsame
  simp only [pendingQso, List.any_eq_false, Bool.and_eq_true, decide_eq_true_eq, not_and] at hfree
  exact hfree i (List.mem_finRange i) hi hsame

/-! ## A number that was answered -/

/-- No probe waits for the number, and the counter is at most `steps` past it. -/
structure Past (number : UInt16) (steps : ℕ) (n : PathNode) : Prop where
  notPending : n.pendingQso number.toNat = false
  counter : ∃ t, t ≤ steps ∧ n.qsoCounter = nextQso^[t] number

theorem Past.congr {number : UInt16} {steps : ℕ} (h : Past number steps n)
    (hprobes : m.probes = n.probes) (hcounter : m.qsoCounter = n.qsoCounter) :
    Past number steps m :=
  ⟨by unfold pendingQso; rw [hprobes]; exact h.notPending, hcounter ▸ h.counter⟩

theorem Past.mono {number : UInt16} {steps steps' : ℕ} (h : Past number steps n)
    (hle : steps ≤ steps') : Past number steps' n :=
  ⟨h.notPending, h.counter.imp fun _ ht => ⟨ht.1.trans hle, ht.2⟩⟩

/-- Another probe moves the counter nine steps at most, and takes another number. -/
theorem past_flexSendPathReqEx {number : UInt16} {steps : ℕ} (hnumber : 0 < number.toNat)
    (hsteps : steps + 9 < 65535) (h : Past number steps n) (dest : Option ℕ) (call : Callsign)
    (ssid : ℤ) : Past number (steps + 9) (n.flexSendPathReqEx dest call ssid).1 := by
  unfold flexSendPathReqEx
  split
  · exact h.mono (by omega)
  · rename_i p _
    dsimp only
    generalize probeTarget call ssid = target
    obtain ⟨hprobes, hcounter, -, -⟩ := n.flexProbeSession_probes dest target
    have hpast : Past number steps (n.flexProbeSession dest target).1 := h.congr hprobes hcounter
    generalize n.flexProbeSession dest target = r at hpast
    obtain ⟨m, _ | via⟩ := r
    · exact hpast.mono (by omega)
    · dsimp only at hpast ⊢
      obtain ⟨t, ht, hc⟩ := hpast.counter
      have hpos : 0 < m.qsoCounter.toNat := by
        rw [hc, toNat_iterate_nextQso hnumber]
        omega
      generalize hq : freshQso m.pendingQso 65536 m.qsoCounter = q
      obtain ⟨counter, found⟩ := q
      obtain ⟨t', ht', rfl, rfl, -⟩ := freshQso_near hpos hq
      rw [hc, ← Function.iterate_add_apply] at hq ⊢
      have hmoved : ∃ u, u ≤ steps + 9 ∧ nextQso^[t' + 1 + t] number = nextQso^[u] number :=
        ⟨t' + 1 + t, by omega, rfl⟩
      dsimp only
      split
      · exact ⟨hpast.notPending, hmoved⟩
      · refine ⟨?_, hmoved⟩
        have hother : (nextQso^[t' + 1 + t] number).toNat ≠ number.toNat := by
          rw [toNat_iterate_nextQso hnumber]
          have := number.toNat_lt
          omega
        have hfree := hpast.notPending
        simp only [pendingQso, List.any_eq_false, Bool.and_eq_true, decide_eq_true_eq, not_and]
          at hfree ⊢
        intro i hi hactive
        by_cases hip : i = p
        · subst hip
          simpa [sendProbe] using hother
        · simp only [sendProbe, Function.update_of_ne hip] at hactive ⊢
          exact hfree i hi hactive

/-- Handling a request sends one probe at most. -/
theorem Handles.past {number : UInt16} {steps : ℕ} {s : Slot} {data : CStr}
    (hnumber : 0 < number.toNat) (hsteps : steps + 9 < 65535) (h : Past number steps n)
    (hm : Handles n s data m) : Past number (steps + 9) m := by
  have hprobe : ∀ dest target, Past number (steps + 9) (n.flexOndemandProbe dest target).1 := by
    intro dest target
    unfold flexOndemandProbe
    dsimp only
    split
    · exact h.mono (by omega)
    split
    · exact h.mono (by omega)
    split
    · exact h.mono (by omega)
    · rename_i d _
      have hsent := past_flexSendPathReqEx hnumber hsteps h (some dest) d.key.call d.key.lo
      generalize n.flexSendPathReqEx (some dest) d.key.call d.key.lo = r at hsent
      obtain ⟨m, _ | p⟩ := r
      · exact hsent
      · exact hsent.congr rfl rfl
  cases hm with
  | nothing => exact h.mono (by omega)
  | frame via frame => exact (h.mono (by omega)).congr rfl rfl
  | probe dest target => exact hprobe dest target
  | parked dest target =>
      have hdefer : ∀ m : PathNode, (m.flexDeferPathReq s target data).probes = m.probes ∧
          (m.flexDeferPathReq s target data).qsoCounter = m.qsoCounter := fun m => by
        unfold flexDeferPathReq
        split
        · exact ⟨rfl, rfl⟩
        split
        · exact ⟨rfl, rfl⟩
        split <;> exact ⟨rfl, rfl⟩
      exact (hprobe dest target).congr (hdefer _).1 (hdefer _).2

/-- A parked request that is handled again keeps the chains, and sends one probe at most. -/
theorem past_replayDeferred {number : UInt16} {steps : ℕ} (hnumber : 0 < number.toNat)
    (hsteps : steps + 9 < 65535) (h : Past number steps n) (base : CStr) (i : DeferredSlot) :
    Past number (steps + 9) (replayDeferred base n i) ∧
      (replayDeferred base n i).chains = n.chains := by
  unfold replayDeferred
  dsimp only
  split
  · exact ⟨h.mono (by omega), rfl⟩
  split
  · exact ⟨(h.mono (by omega)).congr rfl rfl, rfl⟩
  split
  · exact ⟨h.mono (by omega), rfl⟩
  split
  · exact ⟨(h.mono (by omega)).congr rfl rfl, rfl⟩
  · have hhandles := fun k : PathNode =>
      handles_flexHandlePathReq k (n.deferred i).peer (n.deferred i).frame
    refine ⟨((hhandles _).past hnumber hsteps ?_).congr rfl rfl, (hhandles _).kept.chains⟩
    exact h.congr rfl rfl

theorem past_replays {number : UInt16} {steps : ℕ} (hnumber : 0 < number.toNat) (base : CStr)
    (is : List DeferredSlot) (hsteps : steps + 9 * is.length < 65535) (h : Past number steps n) :
    (is.foldl (replayDeferred base) n).pendingQso number.toNat = false ∧
      (is.foldl (replayDeferred base) n).chains = n.chains := by
  induction is generalizing n steps with
  | nil => exact ⟨h.notPending, rfl⟩
  | cons i is ih =>
      rw [List.length_cons] at hsteps
      obtain ⟨hpast, hchains⟩ := past_replayDeferred hnumber (by omega) h base i
      obtain ⟨hnot, hrest⟩ := ih (by omega) hpast
      exact ⟨hnot, hrest.trans hchains⟩

/-- An accepted answer: the number is free again and stays so while the parked requests are handled,
and the row the probe was for has cached the chain. -/
theorem acceptAnswer_cached {p : ProbeSlot} {f : PathFrame} {i : ℕ} {d : DestEntry}
    (hqso : (n.probes p).qso = n.qsoCounter.toNat) (hpos : 0 < n.qsoCounter.toNat)
    (hown : ∀ j, (n.probes j).active = true → (n.probes j).qso = (n.probes p).qso → j = p)
    (hdest : (n.probes p).destIndex = some i) (hd : n.dests[i]? = some d)
    (hloop : flexChainHasCall f.hops n.cfg.pathCall = false)
    (hend : flexChainEndsAt f.hops d.key = true) :
    (n.acceptAnswer p f).pendingQso (n.probes p).qso = false ∧
      (n.acceptAnswer p f).chains[i]? = some (d.key, f.hops, n.now) := by
  have hcache : n.cacheAnswer (n.probes p) f.hops =
        { n with
          dests := n.dests.modify i fun d => { d with path := f.hops, pathUpdated := n.now } } := by
    unfold cacheAnswer
    rw [hdest]
    dsimp only
    rw [hd]
    dsimp only
    rw [if_neg (by simp [hloop, hend])]
  have hpast : Past n.qsoCounter 0 { n.cacheAnswer (n.probes p) f.hops with
      probes := Function.update (n.cacheAnswer (n.probes p) f.hops).probes p { n.probes p with
        active := false, qso := 0, gotReply := true, replyHops := f.hops } } := by
    rw [hcache]
    refine ⟨?_, 0, le_rfl, rfl⟩
    simp only [pendingQso, List.any_eq_false, Bool.and_eq_true, decide_eq_true_eq, not_and]
    intro j _ hactive hsame
    by_cases hjp : j = p
    · subst hjp
      simp at hactive
    · simp only [Function.update_of_ne hjp] at hactive hsame
      exact hjp (hown j hactive (hsame.trans hqso.symm))
  unfold acceptAnswer
  dsimp only
  obtain ⟨hnot, hchains⟩ := past_replays hpos (flexBaseCall (n.probes p).targetCall.bytes)
    (List.finRange 8) (by simp) hpast
  refine ⟨hqso ▸ hnot, ?_⟩
  rw [hchains, hcache]
  simp [chains, hd]

end PathNode

end FlexNet
