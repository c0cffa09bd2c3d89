import FlexNet.Exchange.Handled
import FlexNet.Path.Answers

/-!
# Path frames at a frozen clock

A path request on a link may come back on it as an answer, or as a probe of our own; a parked
request may be passed on by the answer it waits for.  `PathNode.Pays` charges what is said on the
link of a session to the request that is handled, to the requests that stop waiting, and to the gap
between two probes on demand.
-/

namespace FlexNet

/-- The stake of what was put on a transmit queue. -/
def totalStake (gained : List WireEvent) : ℕ := (gained.map WireEvent.stake).sum

theorem totalStake_append (xs ys : List WireEvent) :
    totalStake (xs ++ ys) = totalStake xs + totalStake ys := by
  simp [totalStake]

theorem totalStake_eq_zero {gained : List WireEvent} (h : ∀ w ∈ gained, w.stake = 0) :
    totalStake gained = 0 := by
  refine List.sum_eq_zero fun k hk => ?_
  obtain ⟨w, hw, rfl⟩ := List.mem_map.mp hk
  exact h w hw

theorem stake_le (data : CStr) : stake data ≤ 3 := by
  unfold stake
  split_ifs <;> omega

/-- Callsigns are appended to a frame. -/
theorem head_appendCalls {buflen margin : ℕ} {skip first : Bool} {calls : List CStr} {b : UInt8}
    {frame frame' : CStr} (hframe : frame.head? = some b)
    (h : appendCalls buflen margin skip first calls frame = some frame') :
    frame'.head? = some b := by
  induction calls generalizing first frame with
  | nil =>
      unfold appendCalls at h
      exact (Option.some.inj h) ▸ hframe
  | cons call calls ih =>
      have hlonger : ∀ sep, (frame ++ sep ++ call).head? = some b := fun sep => by
        rw [List.append_assoc, List.head?_append_of_ne_nil, hframe]
        rintro rfl
        cases hframe
      unfold appendCalls at h
      by_cases hskip : (skip && call.isEmpty) = true
      · rw [if_pos hskip] at h
        exact ih hframe h
      rw [if_neg hskip] at h
      extract_lets sep at h
      by_cases hfull : buflen ≤ frame.length + sep.length + call.length + margin
      · rw [if_pos hfull] at h
        cases h
      · rw [if_neg hfull] at h
        exact ih (hlonger sep) h

theorem stake_flexBuildPathRep {buflen : ℕ} {qso : ℤ} {trace : Bool} {hops : List CStr}
    {frame : CStr} (h : flexBuildPathRep buflen qso trace hops = some frame) :
    stake frame = 1 := by
  unfold flexBuildPathRep at h
  split at h
  · cases h
  split at h
  · cases h
  have hhead := head_appendCalls (b := 0x37) rfl h
  unfold stake
  rw [hhead, if_neg (by decide), if_pos rfl]

namespace PathNode

/-- The requests that are parked. -/
def parked (n : PathNode) : ℕ :=
  (Finset.univ.filter fun i => (n.deferred i).inUse = true).card

/-- A probe on demand may go out. -/
def ProbeOpen (n : PathNode) : Prop := ondemandProbeGap ≤ n.now - n.lastOndemandProbe

instance (n : PathNode) : Decidable n.ProbeOpen := by unfold ProbeOpen; infer_instance

/-- An answer to somebody else's probe is relayed to the session it came by. -/
def handsBack (n : PathNode) (s : Slot) (data : CStr) : Bool :=
  (flexParsePathFrame data).any fun f =>
    f.isReply && (n.matchedProbe f.qso).isNone && n.pathForward &&
      (n.relayTo f).any fun prev => (n.flexSessionForCall prev.bytes).filter n.live == some s

/-- Frames are dispatched as before, and what is said on the link of a session is paid for: by the
probe on demand, or by what handling is worth and the requests that stop waiting. -/
structure Pays (n : PathNode) (s : Slot) (cost : ℕ) (m : PathNode) : Prop where
  env : m.toEnv = n.toEnv
  sessionCount : m.sessionCount = n.sessionCount
  probe : m.ProbeOpen → n.ProbeOpen
  paid : ∃ gained, (m.peers s).wire = (n.peers s).wire ++ gained ∧
    (n.ProbeOpen ∧ ¬ m.ProbeOpen ∨ 4 * m.parked + totalStake gained ≤ 4 * n.parked + cost)

variable {n m o : PathNode} {s : Slot} {a b : ℕ}

theorem Pays.refl (n : PathNode) (s : Slot) (a : ℕ) : n.Pays s a n :=
  ⟨rfl, rfl, id, [], by simp, .inr (by simp [totalStake])⟩

theorem Pays.mono (h : n.Pays s a m) (hab : a ≤ b) : n.Pays s b m := by
  obtain ⟨gained, hwire, hpaid⟩ := h.paid
  refine ⟨h.env, h.sessionCount, h.probe, gained, hwire, hpaid.imp_right fun hle => ?_⟩
  omega

theorem Pays.trans (h : n.Pays s a m) (h' : m.Pays s b o) : n.Pays s (a + b) o := by
  obtain ⟨gained, hwire, hpaid⟩ := h.paid
  obtain ⟨gained', hwire', hpaid'⟩ := h'.paid
  refine ⟨h'.env.trans h.env, h'.sessionCount.trans h.sessionCount, fun ho => h.probe (h'.probe ho),
    gained ++ gained', by rw [hwire', hwire, List.append_assoc], ?_⟩
  rcases hpaid with ⟨hopen, hshut⟩ | hle
  · exact .inl ⟨hopen, fun ho => hshut (h'.probe ho)⟩
  rcases hpaid' with ⟨hopen, hshut⟩ | hle'
  · exact .inl ⟨h.probe hopen, hshut⟩
  · rw [totalStake_append]
    exact .inr (by omega)

/-- The tables of the path layer that nothing here reads. -/
theorem pays_of_eq (henv : m.toEnv = n.toEnv) (hcount : m.sessionCount = n.sessionCount)
    (hprobe : m.lastOndemandProbe = n.lastOndemandProbe)
    (hwire : (m.peers s).wire = (n.peers s).wire) (hparked : m.parked = n.parked) :
    n.Pays s a m := by
  refine ⟨henv, hcount, fun h => ?_, [], by simp [hwire], .inr (by simp [hparked, totalStake])⟩
  simpa only [ProbeOpen, hprobe, henv] using h

/-! ## One function at a time -/

/-- What handling a request may put on the link of a session: `a` when the request came by it, the
most a frame has a stake when a parked request of another link is handled. -/
def charge (s asker : Slot) (a : ℕ) : ℕ := if asker = s then a else 3

theorem charge_mono {asker : Slot} (h : a ≤ b) : charge s asker a ≤ charge s asker b := by
  unfold charge
  split_ifs <;> omega

theorem pays_sendCe (n : PathNode) (s via : Slot) (frame : CStr) :
    n.Pays s (if via = s then stake frame else 0) (n.sendCe via frame) := by
  refine ⟨rfl, rfl, id, ?_⟩
  by_cases hvia : via = s
  · rw [if_pos hvia, hvia]
    have hpeer : ((n.sendCe s frame).peers s) =
        n.toEnv.flexSendFrame s pidCE frame (n.peers s) :=
      Node.setPeer_peers_self n.toNode s _
    rw [hpeer]
    unfold Env.flexSendFrame
    dsimp only
    split_ifs
    · refine ⟨[.frame pidCE frame], rfl, .inr (Nat.add_le_add_left ?_ _)⟩
      exact le_rfl
    · exact ⟨[], (List.append_nil _).symm, .inr (Nat.le_add_right _ _)⟩
  · refine ⟨[], ?_, .inr (Nat.le_add_right _ _)⟩
    rw [List.append_nil]
    exact congrArg Peer.wire (Node.setPeer_peers_of_ne n.toNode _ fun h => hvia h.symm)

/-- A traversal does not go on to who asked. -/
theorem pays_flexForwardPathReq (n : PathNode) (s asker : Slot) (target : CStr) (dest : Option ℕ)
    (f : PathFrame) (data : CStr) :
    n.Pays s (charge s asker 0) (n.flexForwardPathReq asker target dest f data).1 := by
  rcases n.flexForwardPathReq_away asker target dest f data with
    h | ⟨via, frame, hvia, h⟩ <;> rw [h]
  · exact .refl n s _
  · refine (n.pays_sendCe s via frame).mono ?_
    have hle := stake_le frame
    unfold charge
    split_ifs with hs hasker
    · exact absurd (hs.trans hasker.symm) hvia
    · exact hle
    · exact le_rfl
    · exact Nat.zero_le 3

theorem pays_answerPathReq (n : PathNode) (s asker : Slot) (target : CStr) (f : PathFrame)
    (data : CStr) (chain : List CStr) :
    n.Pays s (charge s asker 1) (n.answerPathReq asker target f data chain) := by
  unfold answerPathReq
  split
  · exact (n.pays_flexForwardPathReq s asker target _ f data).mono (charge_mono (Nat.zero_le 1))
  split
  · exact .refl n s _
  rename_i frame hframe
  split
  · exact .refl n s _
  · refine (n.pays_sendCe s asker frame).mono ?_
    rw [stake_flexBuildPathRep hframe]
    unfold charge
    split_ifs <;> omega

/-- A frame of the link, and nothing else that is counted, when something was sent. -/
structure Said (n : PathNode) (s : Slot) (m : PathNode) (sent : Bool) : Prop where
  sessionCount : m.sessionCount = n.sessionCount
  probe : m.lastOndemandProbe = n.lastOndemandProbe
  parked : m.parked = n.parked
  wire : ∃ gained, (m.peers s).wire = (n.peers s).wire ++ gained ∧ (sent = false → gained = [])

theorem said_of_silent (hcount : m.sessionCount = n.sessionCount)
    (hprobe : m.lastOndemandProbe = n.lastOndemandProbe) (hdeferred : m.deferred = n.deferred)
    (hpeers : m.peers = n.peers) (sent : Bool) : n.Said s m sent :=
  ⟨hcount, hprobe, by unfold PathNode.parked; rw [hdeferred],
    [], by rw [hpeers, List.append_nil], fun _ => rfl⟩

/-- A probe comes to at most one frame. -/
theorem flexSendPathReqEx_said (n : PathNode) (s : Slot) (dest : Option ℕ) (call : Callsign)
    (ssid : ℤ) :
    n.Said s (n.flexSendPathReqEx dest call ssid).1
      (n.flexSendPathReqEx dest call ssid).2.isOk := by
  have hprobed : (n.flexProbeSession dest (probeTarget call ssid)).1.sessionCount = n.sessionCount ∧
      (n.flexProbeSession dest (probeTarget call ssid)).1.lastOndemandProbe = n.lastOndemandProbe ∧
      (n.flexProbeSession dest (probeTarget call ssid)).1.deferred = n.deferred ∧
      (n.flexProbeSession dest (probeTarget call ssid)).1.peers = n.peers := by
    rcases n.flexProbeSession_cases dest (probeTarget call ssid) with h | ⟨i, s, h⟩ <;> rw [h] <;>
      exact ⟨rfl, rfl, rfl, rfl⟩
  rcases n.flexSendPathReqEx_cases dest call ssid with ⟨_, h⟩ | ⟨_, _, h⟩ |
    ⟨_, via, counter, _, frame, h⟩ <;> rw [h]
  · exact said_of_silent rfl rfl rfl rfl _
  · obtain ⟨hcount, hlast, hdeferred, hpeers⟩ := hprobed
    refine said_of_silent ?_ ?_ ?_ ?_ _
    exacts [hcount, hlast, hdeferred, hpeers]
  · generalize (n.flexProbeSession dest (probeTarget call ssid)).1 = m at hprobed
    obtain ⟨hcount, hlast, hdeferred, hpeers⟩ := hprobed
    obtain ⟨gained, hwire, -⟩ := (pays_sendCe { m with qsoCounter := counter } s via frame).paid
    refine ⟨hcount, hlast, ?_, gained, hwire.trans (by rw [hpeers]), nofun⟩
    change Finset.card _ = Finset.card _
    rw [← hdeferred]
    rfl

/-- A probe on demand shuts its gate. -/
theorem flexOndemandProbe_said (n : PathNode) (s : Slot) (dest : ℕ) (target : CStr) :
    n.Pays s 0 (n.flexOndemandProbe dest target).1 ∧
      ((n.flexOndemandProbe dest target).2 = true →
        n.ProbeOpen ∧ ¬ (n.flexOndemandProbe dest target).1.ProbeOpen) := by
  have henv := (kept_flexOndemandProbe n dest target).env
  unfold flexOndemandProbe at henv ⊢
  by_cases hgap : n.now - n.lastOndemandProbe < ondemandProbeGap
  · rw [if_pos hgap]
    exact ⟨.refl n s 0, nofun⟩
  rw [if_neg hgap] at henv ⊢
  have hopen : n.ProbeOpen := not_lt.mp hgap
  dsimp only at henv ⊢
  split at henv
  · rename_i hrecent
    rw [if_pos hrecent]
    exact ⟨.refl n s 0, nofun⟩
  rename_i hrecent
  rw [if_neg hrecent]
  split
  · exact ⟨.refl n s 0, nofun⟩
  rename_i d hd
  rw [hd] at henv
  dsimp only at henv
  have hsaid := n.flexSendPathReqEx_said s (some dest) d.key.call d.key.lo
  generalize n.flexSendPathReqEx (some dest) d.key.call d.key.lo = r at henv hsaid
  obtain ⟨m, sent⟩ := r
  obtain ⟨hcount, hlast, hparked, gained, hwire, herror⟩ := hsaid
  dsimp only at hcount hlast hparked hwire
  cases sent with
  | error err =>
      rw [herror rfl, List.append_nil] at hwire
      exact ⟨pays_of_eq henv hcount hlast hwire hparked, nofun⟩
  | ok p =>
      dsimp only at henv ⊢
      have hshut : ∀ o : PathNode, o.now = m.now → o.lastOndemandProbe = m.now → ¬ o.ProbeOpen :=
        fun o hnow hstamp => by
          unfold ProbeOpen ondemandProbeGap
          omega
      exact ⟨⟨henv, hcount, fun _ => hopen, gained, hwire, .inl ⟨hopen, hshut _ rfl rfl⟩⟩,
        fun _ => ⟨hopen, hshut _ rfl rfl⟩⟩

theorem flexDeferPathReq_fields (n : PathNode) (asker : Slot) (target data : CStr) :
    (n.flexDeferPathReq asker target data).toNode = n.toNode ∧
      (n.flexDeferPathReq asker target data).lastOndemandProbe = n.lastOndemandProbe := by
  unfold flexDeferPathReq
  split_ifs
  · exact ⟨rfl, rfl⟩
  · exact ⟨rfl, rfl⟩
  · split
    · exact ⟨rfl, rfl⟩
    · exact ⟨rfl, rfl⟩

theorem pays_passPathReq (n : PathNode) (s asker : Slot) (target : CStr) (dest : ℕ) (f : PathFrame)
    (data : CStr) :
    n.Pays s (charge s asker 0) (n.passPathReq asker target dest f data) := by
  have hforward := n.pays_flexForwardPathReq s asker target (some dest) f data
  unfold passPathReq
  rcases n.flexForwardPathReq_away asker target (some dest) f data with h | ⟨via, frame, -, h⟩ <;>
    rw [h] at hforward ⊢
  swap
  · exact hforward
  dsimp only
  obtain ⟨hprobe, hsent⟩ := n.flexOndemandProbe_said s dest target
  generalize n.flexOndemandProbe dest target = r at hprobe hsent
  obtain ⟨m, sent⟩ := r
  cases sent with
  | false => exact hprobe.mono (Nat.zero_le _)
  | true =>
      -- the request is parked behind the probe that went out
      obtain ⟨hopen, hshut⟩ := hsent rfl
      obtain ⟨hnode, hlast⟩ := m.flexDeferPathReq_fields asker target data
      obtain ⟨gained, hwire, -⟩ := hprobe.paid
      have henv : (m.flexDeferPathReq asker target data).toEnv = m.toEnv := congrArg _ hnode
      refine ⟨henv.trans hprobe.env, ?_, fun _ => hopen, gained, ?_, .inl ⟨hopen, ?_⟩⟩
      · exact (congrArg Node.sessionCount hnode).trans hprobe.sessionCount
      · rw [← hwire]
        exact congrArg (fun x : Node => (x.peers s).wire) hnode
      · simpa only [ProbeOpen, hlast, henv] using hshut

theorem pays_transitPathReq (n : PathNode) (s asker : Slot) (target : CStr) (f : PathFrame)
    (data : CStr) :
    n.Pays s (charge s asker 1) (n.transitPathReq asker target f data) := by
  unfold transitPathReq
  split
  · exact .refl n s _
  split
  · exact .refl n s _
  split
  · exact .refl n s _
  split
  · exact n.pays_answerPathReq ..
  split
  · exact n.pays_answerPathReq ..
  · exact (n.pays_passPathReq s asker target _ f data).mono (charge_mono (Nat.zero_le 1))

/-- A request is answered on its own link with one answer. -/
theorem pays_flexHandlePathReq (n : PathNode) (s asker : Slot) (data : CStr) :
    n.Pays s (charge s asker 1) (n.flexHandlePathReq asker data) := by
  unfold flexHandlePathReq
  split
  · exact .refl n s _
  split
  · exact .refl n s _
  split
  · exact .refl n s _
  split
  · exact n.pays_transitPathReq ..
  · exact n.pays_answerPathReq ..
  · exact n.pays_answerPathReq ..

/-! ## Parked requests -/

/-- A request waits no longer. -/
def freed (n : PathNode) (i : DeferredSlot) : PathNode :=
  let d := { n.deferred i with inUse := false }
  { n with deferred := Function.update n.deferred i d }

/-- A slot that is freed pays for its request. -/
theorem pays_freed {i : DeferredSlot} (huse : (n.deferred i).inUse = true)
    (h : (n.freed i).Pays s 3 m) : n.Pays s 0 m := by
  have hparked : (n.freed i).parked + 1 = n.parked := by
    have herase : (Finset.univ.filter fun j => ((n.freed i).deferred j).inUse = true) =
        (Finset.univ.filter fun j => (n.deferred j).inUse = true).erase i := by
      ext j
      rw [Finset.mem_filter, Finset.mem_erase, Finset.mem_filter]
      by_cases hj : j = i
      · subst hj
        simp [freed]
      · simp only [freed, Function.update_of_ne hj, hj, ne_eq, not_false_eq_true, true_and]
    unfold parked
    rw [herase]
    exact Finset.card_erase_add_one (Finset.mem_filter.mpr ⟨Finset.mem_univ i, huse⟩)
  obtain ⟨gained, hwire, hpaid⟩ := h.paid
  refine ⟨h.env, h.sessionCount, h.probe, gained, hwire, ?_⟩
  rcases hpaid with hshut | hle
  · exact .inl hshut
  · exact .inr (by omega)

/-- A parked request that is handled again, or given up, has paid for what it sets off. -/
theorem pays_replayDeferred (base : CStr) (n : PathNode) (s : Slot) (i : DeferredSlot) :
    n.Pays s 0 (replayDeferred base n i) := by
  unfold replayDeferred
  dsimp only
  by_cases huse : (n.deferred i).inUse = true
  swap
  · rw [if_pos (by simpa using huse)]
    exact .refl n s 0
  rw [if_neg (by simpa using huse)]
  split
  · exact pays_freed huse (.refl (n.freed i) s 3)
  split
  · exact .refl n s 0
  split
  · exact pays_freed huse (.refl (n.freed i) s 3)
  · set m : PathNode := { n.freed i with replaying := true }
    have hstarted : (n.freed i).Pays s 0 m := pays_of_eq rfl rfl rfl rfl rfl
    have hhandled : m.Pays s 3 (m.flexHandlePathReq (n.deferred i).peer (n.deferred i).frame) := by
      refine (m.pays_flexHandlePathReq s _ _).mono ?_
      unfold charge
      split_ifs <;> omega
    refine pays_freed huse ((hstarted.trans hhandled).trans (b := 0) ?_)
    exact pays_of_eq rfl rfl rfl rfl rfl

theorem pays_acceptAnswer (n : PathNode) (s : Slot) (p : ProbeSlot) (f : PathFrame) :
    n.Pays s 0 (n.acceptAnswer p f) := by
  have hcached : n.Pays s 0 (n.cacheAnswer (n.probes p) f.hops) := by
    unfold cacheAnswer
    split
    · exact .refl n s 0
    split
    · exact .refl n s 0
    split
    · exact .refl n s 0
    · exact pays_of_eq rfl rfl rfl rfl rfl
  have hreplays : ∀ (base : CStr) (is : List DeferredSlot) (m : PathNode),
      m.Pays s 0 (is.foldl (replayDeferred base) m) := fun base is => by
    induction is with
    | nil => exact fun m => .refl m s 0
    | cons i is ih => exact fun m => (pays_replayDeferred base m s i).trans (ih _)
  unfold acceptAnswer
  refine .trans (a := 0) (b := 0) ?_ (hreplays _ _ _)
  exact .trans (b := 0) hcached (pays_of_eq rfl rfl rfl rfl rfl)

/-- An answer sets off nothing on its link but the requests that wait for it. -/
theorem pays_flexHandlePathRep (n : PathNode) (s : Slot) (data : CStr)
    (hback : n.handsBack s data = false) : n.Pays s 0 (n.flexHandlePathRep data) := by
  unfold flexHandlePathRep
  split
  · exact .refl n s 0
  rename_i f hparse
  split
  · exact .refl n s 0
  rename_i hreply
  split
  swap
  · exact n.pays_acceptAnswer s _ f
  rename_i hprobe
  unfold flexRelayPathRep
  split
  · exact .refl n s 0
  rename_i hforward
  split
  · exact .refl n s 0
  split
  · exact .refl n s 0
  rename_i prev hprev
  split
  · exact .refl n s 0
  rename_i via hvia
  have haway : via ≠ s := by
    rintro rfl
    simp [handsBack, hparse, hprobe, hprev, hvia] at hback hreply hforward
    rw [hback hreply] at hforward
    cases hforward
  have hsent := n.pays_sendCe s via data
  rwa [if_neg haway] at hsent

end PathNode

end FlexNet
