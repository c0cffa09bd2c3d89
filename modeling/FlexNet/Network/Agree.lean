import FlexNet.Advert.WireTruth
import FlexNet.Network.Hops
import FlexNet.Network.Learned

/-!
# Two ends agree

A sender queues frames for a peer, the link hands them over one by one, late or very late, and the
peer's node takes them between its other events.  Frames may be lost where the sender has cleared
what it told the peer since they were queued: the link has been set up again.  `ends_agree` says
that a receiver that has caught up has learned, for every destination the sender's table has told,
what the table says it was last told.
-/

namespace FlexNet

open Runs AdvRoute

/-! ## What the peer reads -/

/-- The cost the peer reads last for a destination, on a queue since the table was cleared. -/
def lastRead (cfg : Config) (wire : List WireEvent) (k : Key) : Option ℤ :=
  lastHeard (wireRecords cfg wire) k

/-- The node's own frame announces the destination. -/
def Config.Announces (cfg : Config) (k : Key) : Prop :=
  ∃ frame, cfg.ownFrame = some frame ∧ ∃ r ∈ flexParseCompactRecords frame 64, r.key = k

section

variable {cfg : Config} {wire : List WireEvent} {k : Key} {pid : UInt8} {data : CStr}

theorem lastHeard_append (rs rs' : List Record) (k : Key) :
    lastHeard (rs ++ rs') k = (lastHeard rs' k).or (lastHeard rs k) := by
  rw [lastHeard, List.filter_append, lastSaid_append]
  rfl

theorem lastHeard_eq_none {rs : List Record} (h : ∀ r ∈ rs, r.key ≠ k) : lastHeard rs k = none := by
  unfold lastHeard lastSaid
  rw [List.find?_eq_none.mpr, Option.map_none]
  intro r hr
  have hmem := List.mem_of_mem_filter (List.mem_reverse.mp hr)
  simpa using h r hmem

theorem lastRead_cleared : lastRead cfg (wire ++ [.cleared]) k = none := by
  simp [lastRead, wireRecords, List.foldl_append, lastHeard]

theorem lastRead_other (h : pid ≠ pidCE) :
    lastRead cfg (wire ++ [.frame pid data]) k = lastRead cfg wire k := by
  simp [lastRead, wireRecords, List.foldl_append, h]

theorem lastRead_frame :
    lastRead cfg (wire ++ [.frame pidCE data]) k =
      (lastHeard (frameRecords cfg data) k).or (lastRead cfg wire k) := by
  have hrecords : wireRecords cfg (wire ++ [.frame pidCE data]) =
      wireRecords cfg wire ++ frameRecords cfg data := by
    simp [wireRecords, List.foldl_append]
  rw [lastRead, hrecords, lastHeard_append]
  rfl

/-- A frame without a record for the destination changes nothing about it. -/
theorem lastRead_of_notMem (h : pid = pidCE → ∀ r ∈ frameRecords cfg data, r.key ≠ k) :
    lastRead cfg (wire ++ [.frame pid data]) k = lastRead cfg wire k := by
  by_cases hpid : pid = pidCE
  · subst hpid
    rw [lastRead_frame, lastHeard_eq_none (h rfl), Option.none_or]
  · exact lastRead_other hpid

theorem mem_frameRecords {r : Record} (h : r ∈ frameRecords cfg data) :
    r ∈ flexParseCompactRecords data 64 := by
  rwa [← (Node.frameRecords_ne_nil (List.ne_nil_of_mem h)).2]

theorem frameRecords_of_head (h : data.head? ≠ some 0x33) : frameRecords cfg data = [] := by
  refine List.eq_nil_iff_forall_not_mem.mpr fun r hr => ?_
  have hmem := mem_frameRecords hr
  unfold flexParseCompactRecords at hmem
  split at hmem
  · exact h rfl
  · cases hmem

/-- The record of an entry in a frame of several. -/
theorem lastHeard_picks {picks : List AdvRoute} {a : AdvRoute}
    (hdistinct : (picks.map AdvRoute.key).Nodup) (hcosts : ∀ b ∈ picks, IsCost b.pendingRtt)
    (ha : a ∈ picks) :
    lastHeard (picks.map fun b => readBack b.key b.pendingRtt) a.key =
      some (wireCost a.pendingRtt) := by
  have hmarkers : (picks.map fun b => readBack b.key b.pendingRtt).filter (fun r => !r.isMarker) =
      picks.map fun b => readBack b.key b.pendingRtt := by
    refine List.filter_eq_self.mpr fun r hr => ?_
    obtain ⟨b, hb, rfl⟩ := List.mem_map.mp hr
    have hpos : 0 < wireCost b.pendingRtt := by
      have hcost := (hcosts b hb).1
      unfold wireCost rttWireMax
      split_ifs <;> omega
    simp [Record.isMarker, readBack, hpos.ne']
  have hlast : picks.reverse.find? (fun b => b.key = a.key) = some a :=
    KeyedTable.lookup_of_mem (by simpa [KeyedTable.Distinct] using hdistinct)
      (List.mem_reverse.mpr ha)
  have hcomp : ((fun r : Record => decide (r.key = a.key)) ∘ fun b : AdvRoute =>
      readBack b.key b.pendingRtt) = fun b => decide (b.key = a.key) := rfl
  rw [lastHeard, hmarkers, lastSaid, ← List.map_reverse, List.find?_map, hcomp, hlast]
  rfl

end

/-! ## One peer of the sender -/

/-- The table says what the peer reads last, in the costs of the wire. -/
def Peer.Synced (cfg : Config) (k : Key) (x : Peer) : Prop :=
  lastRead cfg x.wire k = (sentCost x.adv k).map wireCost

/-- The queue grows, and keeps telling what the table says. -/
structure Peer.Tells (cfg : Config) (k : Key) (x y : Peer) : Prop where
  queue : x.wire <+: y.wire
  synced : x.Synced cfg k → y.Synced cfg k

section

variable {told : Callsign → ℤ → Prop} {cfg : Config} {k : Key} {x y z : Peer} {e : Env} {p : Slot}
  {isPcf : Bool}

theorem Peer.Tells.refl (x : Peer) : x.Tells cfg k x := ⟨List.prefix_rfl, id⟩

theorem Peer.Tells.trans (h : x.Tells cfg k y) (h' : y.Tells cfg k z) : x.Tells cfg k z :=
  ⟨h.queue.trans h'.queue, fun hx => h'.synced (h.synced hx)⟩

/-- Nothing is sent, and what was sent stands. -/
theorem Peer.Tells.of_eq (hwire : y.wire = x.wire) (hsent : sentCost y.adv k = sentCost x.adv k) :
    x.Tells cfg k y :=
  ⟨by rw [hwire], fun hx => by rw [Synced, hwire, hsent]; exact hx⟩

/-- A frame goes out that says nothing of the destination. -/
theorem tells_flexSendFrame {pid : UInt8} {data : CStr}
    (hdata : pid = pidCE → ∀ r ∈ frameRecords cfg data, r.key ≠ k) :
    x.Tells cfg k (e.flexSendFrame p pid data x) := by
  have hwire : (e.flexSendFrame p pid data x).wire = x.wire ∨
      (e.flexSendFrame p pid data x).wire = x.wire ++ [.frame pid data] := by
    unfold Env.flexSendFrame
    dsimp only
    split_ifs
    · exact .inr rfl
    · exact .inl rfl
  rcases hwire with hwire | hwire
  · exact .of_eq hwire rfl
  · refine ⟨hwire ▸ List.prefix_append _ _, fun hx => ?_⟩
    rw [Peer.Synced, hwire, lastRead_of_notMem hdata]
    exact hx

theorem tells_check {k' : Key} {force : Bool} :
    x.Tells cfg k (e.flexAdvertiseCheck p k' force x) :=
  .of_eq (by rw [Env.flexAdvertiseCheck_frame]) View.sentCost_check

/-- A frame of queued entries says what the table has committed. -/
theorem tells_emitFrame (hbuf : ∀ i, e.cfg.getBuff p i = true) (hx : x.Honest told) :
    x.Tells cfg k (e.emitFrame p isPcf x).1 := by
  rcases e.emitFrame_cases p isPcf hx.sound with ⟨-, heq⟩ | ⟨picks, st, hne, hlen, hpacked, heq⟩
  · rw [heq]
    exact .refl x
  have hcosts : ∀ a ∈ picks, IsCost a.pendingRtt := fun a ha =>
    (hx.sound.entries a (hpacked.picked a ha).1).queued (hpacked.picked a ha).2
  have hrecords := @frameRecords_picks cfg picks hne hlen fun a ha =>
    ⟨(hx.entries a (hpacked.picked a ha).1).encodable, hcosts a ha⟩
  have hwire : (e.emitFrame p isPcf x).1.wire =
      x.wire ++ [.frame pidCE (recordsFrame (pickRecords picks))] := by
    rw [heq]
    simp [Env.flexSendFrame, hbuf]
  have hfind : (e.emitFrame p isPcf x).1.adv.find k =
      (x.adv.find k).map fun a => if a ∈ picks then a.commit e.now else a := by
    rw [heq]
    exact hpacked.find k
  refine ⟨hwire ▸ List.prefix_append _ _, fun hsync => ?_⟩
  unfold Peer.Synced at hsync ⊢
  rw [hwire, lastRead_frame, hrecords]
  by_cases hpick : ∃ a ∈ picks, a.key = k
  · obtain ⟨a, ha, rfl⟩ := hpick
    rw [lastHeard_picks hpacked.distinct hcosts ha, Option.some_or, sentCost, hfind,
      hx.sound.find_of_mem (hpacked.picked a ha).1]
    simp [ha, AdvRoute.commit, Option.filter, (hcosts a ha).1.le]
  · have hnone : ∀ r ∈ picks.map fun b => readBack b.key b.pendingRtt, r.key ≠ k := by
      intro r hr hk
      obtain ⟨a, ha, rfl⟩ := List.mem_map.mp hr
      exact hpick ⟨a, ha, hk⟩
    rw [lastHeard_eq_none hnone, Option.none_or, hsync, sentCost, sentCost, hfind]
    cases ha : x.adv.find k with
    | none => rfl
    | some a =>
        have hnot : a ∉ picks := fun hmem => hpick ⟨a, hmem, AdvertisedState.find_key ha⟩
        simp [hnot]

theorem tells_drainFrames (hbuf : ∀ i, e.cfg.getBuff p i = true)
    (hclamp : ∀ c cost, told c cost → told c (min cost rttWireMax)) (turns : ℕ)
    (hx : x.Honest told) : x.Tells cfg k (e.drainFrames p isPcf turns x).1 := by
  induction turns generalizing x with
  | zero => exact .refl x
  | succ turns ih =>
      have hemit : x.Tells cfg k (e.emitFrame p isPcf x).1 := tells_emitFrame hbuf hx
      have honest : (e.emitFrame p isPcf x).1.Honest told := Env.honest_emitFrame hclamp hx
      unfold Env.drainFrames
      rcases hresult : e.emitFrame p isPcf x with ⟨y, _ | _⟩
      · rwa [hresult] at hemit
      · rw [hresult] at hemit honest
        exact hemit.trans (ih honest)

theorem tells_drainEob {frames : ℕ} : x.Tells cfg k (e.drainEob p isPcf frames x) := by
  have hsent : sentCost (e.drainEob p isPcf frames x).adv k = sentCost x.adv k :=
    View.sentCost_congr View.drainEob_advs
  rcases View.drainEob_wire e isPcf frames x with hwire | hwire
  · exact .of_eq hwire hsent
  · refine ⟨hwire ▸ List.prefix_append _ _, fun hx => ?_⟩
    rw [Peer.Synced, hwire, hsent,
      lastRead_of_notMem fun _ => by simp [Env.frameRecords_releaseToken]]
    exact hx

theorem tells_flexAdvertiseDrain (hbuf : ∀ i, e.cfg.getBuff p i = true)
    (hclamp : ∀ c cost, told c cost → told c (min cost rttWireMax)) (hx : x.Honest told) :
    x.Tells cfg k (e.flexAdvertiseDrain p x) := by
  unfold Env.flexAdvertiseDrain
  split_ifs
  · exact .refl x
  · exact .refl x
  · extract_lets isPcf y turns
    have hy : y.Honest told := hx.congr AdvertisedState.advs_refill fun _ _ hmem => hmem
    have hxy : x.Tells cfg k y := .of_eq rfl (View.sentCost_congr AdvertisedState.advs_refill)
    have hframes : y.Tells cfg k (e.drainFrames p isPcf turns y).1 :=
      tells_drainFrames hbuf hclamp turns hy
    generalize e.drainFrames p isPcf turns y = r at hframes ⊢
    obtain ⟨z, frames⟩ := r
    exact hxy.trans (hframes.trans tells_drainEob)

theorem tells_flexSendOwnRoutes {deferEob : Bool} (hown : ¬ e.cfg.Announces k) :
    x.Tells cfg k (e.flexSendOwnRoutes p deferEob x) := by
  unfold Env.flexSendOwnRoutes
  extract_lets y
  have hy : x.Tells cfg k y := by
    unfold y
    split
    · exact .refl x
    · rename_i frame hframe
      exact tells_flexSendFrame fun _ r hr hk => hown ⟨frame, hframe, r, mem_frameRecords hr, hk⟩
  split_ifs
  · exact hy
  · exact hy.trans (tells_flexSendFrame fun _ => by simp [Env.frameRecords_releaseToken])

end

namespace Node

variable {heard : Callsign → ℤ → Prop} {cfg : Config} {c : Scope} {n m : Node} {p : Slot} {k : Key}
  {e : Event}

/-- What one write of the sender tells a peer. -/
theorem Write.tells (hwrite : n.Write c m) (hbuf : ∀ i, n.cfg.getBuff p i = true)
    (hown : ¬ n.cfg.Announces k) (hn : n.Honest heard) : (n.peers p).Tells cfg k (m.peers p) := by
  have hset : ∀ (i : Slot) (x : Peer), (p = i → (n.peers p).Tells cfg k x) →
      (n.peers p).Tells cfg k ((n.setPeer i x).peers p) := fun i x hx => by
    by_cases hi : p = i
    · subst hi
      rw [setPeer_peers_self]
      exact hx rfl
    · rw [setPeer_peers_of_ne n x hi]
      exact .refl _
  cases hwrite with
  | other hsame =>
      exact .of_eq (hsame.peers p).2 (View.sentCost_congr (hsame.peers p).1)
  | check i k' force =>
      refine hset i _ fun hi => ?_
      subst hi
      exact tells_check
  | drain i =>
      refine hset i _ fun hi => ?_
      subst hi
      exact tells_flexAdvertiseDrain hbuf tells_clamp (hn.peers p)
  | own i deferEob =>
      refine hset i _ fun hi => ?_
      subst hi
      exact tells_flexSendOwnRoutes hown
  | send i pid data hdata =>
      refine hset i _ fun hi => ?_
      subst hi
      exact tells_flexSendFrame fun hpid => by simp [frameRecords_of_head (hdata hpid)]
  | clear i =>
      refine hset i _ fun hi => ?_
      subst hi
      exact ⟨List.prefix_append _ _, fun _ => lastRead_cleared⟩
  | _ => exact .refl _

/-- What an event of the sender tells a peer. -/
theorem event_tells (hbuf : ∀ i, n.cfg.getBuff p i = true) (hown : ¬ n.cfg.Announces k)
    (hn : n.Honest heard) (he : e.Heard heard) :
    (n.peers p).Tells cfg k ((n.event e).peers p) := by
  have hstep : ∀ m o : Node,
      (m.cfg = n.cfg ∧ m.Honest heard ∧ (n.peers p).Tells cfg k (m.peers p)) →
      m.Write (n.scope e) o →
        o.cfg = n.cfg ∧ o.Honest heard ∧ (n.peers p).Tells cfg k (o.peers p) :=
    fun m o ⟨hcfg, hm, htells⟩ hwrite => by
      refine ⟨hwrite.cfg.trans hcfg, hm.write (Scope.Heard.of_event n he) hwrite, htells.trans ?_⟩
      exact hwrite.tells (by rwa [hcfg]) (by rwa [hcfg]) hm
  exact ((n.event_writes e).invariant hstep ⟨rfl, hn, .refl _⟩).2.2

end Node

/-! ## The two ends -/

/-- A sender, a receiver, and how much of the sender's queue the link has handed over. -/
structure Ends where
  sender : Node
  receiver : Node
  taken : ℕ

/-- What can happen to the two ends. -/
inductive EndsEvent
  /-- the sender takes an event -/
  | sender (e : Event)
  /-- the receiver takes an event, which is no frame of the sender -/
  | receiver (e : Event)
  /-- the receiver takes the next frame -/
  | hand (e : Event)
  /-- the next entry of the queue is no CE frame, or it is lost -/
  | pass

namespace Ends

/-- The step function. -/
def step (x : Ends) : EndsEvent → Ends
  | .sender e => { x with sender := x.sender.event e }
  | .receiver e => { x with receiver := x.receiver.event e }
  | .hand e => { x with receiver := x.receiver.event e, taken := x.taken + 1 }
  | .pass => { x with taken := x.taken + 1 }

/-- What the sender has queued for the receiver. -/
def queue (p : Slot) (x : Ends) : List WireEvent := (x.sender.peers p).wire

/-- The link keeps the order of the frames, and loses only those of before the sender's table was
cleared; the receiver listens. -/
def Allowed (p s : Slot) (k : Key) (x : Ends) : EndsEvent → Prop
  | .sender e => ∀ l a, e = .row l a → a.linkCall.isEmpty = false →
    ∃ base ssid, a.linkCall.Names base ssid
  | .receiver e => x.receiver.Listens s k e ∧ x.receiver.heardBy s e = []
  | .hand e => x.receiver.Listens s k e ∧ x.receiver.hearer e = some s ∧ ∃ l data,
    e.frame = some (l, data) ∧ (x.queue p)[x.taken]? = some (.frame pidCE data)
  | .pass => ∃ w, (x.queue p)[x.taken]? = some w ∧
    ∀ data, w = .frame pidCE data → .cleared ∈ (x.queue p).drop x.taken

/-- A sender that has just booted and always finds a buffer for the receiver, and a receiver whose
session is up.  The destination is no own one of either, and no neighbour's of the receiver. -/
structure Begins (p s : Slot) (k : Key) (x : Ends) : Prop where
  boots : ∃ axipPorts portLinks links now,
    x.sender = .boot x.sender.cfg axipPorts portLinks links now ∧
      (∀ l, (links l).linkCall.isEmpty = false → ∃ base ssid, (links l).linkCall.Names base ssid) ∧
      ∀ pl ∈ portLinks, ∃ base ssid, pl.axcall.Names base ssid
  hosts : ∃ base ssid, x.sender.cfg.Hosts base ssid
  buffers : ∀ i, x.sender.cfg.getBuff p i = true
  foreign : ¬ x.sender.cfg.Announces k
  transit : x.receiver.cfg.transit = true
  covers : x.receiver.cfg.localCovers k = false
  up : (x.receiver.sessions s).active = true
  far : x.receiver.Far k
  taken : x.taken = 0

/-- Anything may be heard. -/
def anything (_ : Callsign) (_ : ℤ) : Prop := True

/-- The sender's table says what its queue does, and the receiver has learned what it was handed,
unless the table was cleared and the receiver has yet to see it. -/
structure InStep (p s : Slot) (k : Key) (x : Ends) : Prop where
  honest : x.sender.Honest anything
  buffers : ∀ i, x.sender.cfg.getBuff p i = true
  foreign : ¬ x.sender.cfg.Announces k
  transit : x.receiver.cfg.transit = true
  covers : x.receiver.cfg.localCovers k = false
  up : (x.receiver.sessions s).active = true
  far : x.receiver.Far k
  synced : (x.sender.peers p).Synced x.receiver.cfg k
  within : x.taken ≤ (x.queue p).length
  learned : .cleared ∈ (x.queue p).drop x.taken ∨
    ∀ cost, lastRead x.receiver.cfg ((x.queue p).take x.taken) k = some cost →
      (x.receiver.learned s).cost k = some cost

variable {p s : Slot} {k : Key} {x y : Ends}

theorem meets_anything {a : AxCall} (h : ∃ base ssid, a.Names base ssid) : Meets anything a := by
  obtain ⟨base, ssid, hnames⟩ := h
  exact ⟨base, ssid, hnames, trivial⟩

theorem Begins.inStep (h : x.Begins p s k) : x.InStep p s k := by
  obtain ⟨axipPorts, portLinks, links, now, hboot, hrows, hdeclared⟩ := h.boots
  have hqueue : x.queue p = [] := by rw [queue, hboot]; rfl
  refine ⟨?_, h.buffers, h.foreign, h.transit, h.covers, h.up, h.far, ?_, ?_, .inr ?_⟩
  · rw [hboot]
    exact Node.honest_boot h.hosts (fun l hl => meets_anything (hrows l hl))
      fun pl hpl => meets_anything (hdeclared pl hpl)
  · rw [hboot]
    rfl
  · rw [h.taken]
    exact Nat.zero_le _
  · rw [h.taken, List.take_zero]
    intro cost hcost
    cases hcost

/-- What the receiver has learned after an event. -/
theorem InStep.cost (h : x.InStep p s k) {e : Event} (he : x.receiver.Listens s k e) :
    ((x.receiver.event e).learned s).cost k =
      (lastHeard (x.receiver.heardBy s e) k).or ((x.receiver.learned s).cost k) :=
  Node.cost_event h.transit h.covers h.up h.far he

/-- The receiver takes an event, and has learned what it was handed up to there. -/
theorem InStep.received (h : x.InStep p s k) {e : Event} (he : x.receiver.Listens s k e) {taken : ℕ}
    (hwithin : taken ≤ (x.queue p).length)
    (hlearned : .cleared ∈ (x.queue p).drop taken ∨
      ∀ cost, lastRead x.receiver.cfg ((x.queue p).take taken) k = some cost →
        ((x.receiver.event e).learned s).cost k = some cost) :
    InStep p s k { x with receiver := x.receiver.event e, taken := taken } := by
  have hwrites := x.receiver.event_writes e
  have hcfg : (x.receiver.event e).cfg = x.receiver.cfg := Node.event_cfg _ e
  refine ⟨h.honest, h.buffers, h.foreign, ?_, ?_, hwrites.up he.stays h.up, h.far.event he.far, ?_,
    hwithin, ?_⟩
  · exact (congrArg Config.transit hcfg).trans h.transit
  · exact (congrArg (fun cfg : Config => cfg.localCovers k) hcfg).trans h.covers
  · change (x.sender.peers p).Synced (x.receiver.event e).cfg k
    rw [hcfg]
    exact h.synced
  · change _ ∈ (x.queue p).drop taken ∨ ∀ cost, lastRead (x.receiver.event e).cfg
      ((x.queue p).take taken) k = some cost → ((x.receiver.event e).learned s).cost k = some cost
    rw [hcfg]
    exact hlearned

/-- The entry that is taken is the next one of the queue. -/
theorem take_succ {w : WireEvent} (hw : (x.queue p)[x.taken]? = some w) :
    (x.queue p).take (x.taken + 1) = (x.queue p).take x.taken ++ [w] ∧
      (x.queue p).drop x.taken = w :: (x.queue p).drop (x.taken + 1) ∧
      x.taken + 1 ≤ (x.queue p).length := by
  obtain ⟨hlt, hget⟩ := List.getElem?_eq_some_iff.mp hw
  refine ⟨?_, ?_, hlt⟩
  · rw [List.take_succ_eq_append_getElem hlt, hget]
  · rw [List.drop_eq_getElem_cons hlt, hget]

/-- The sender takes an event: it may queue more, and clear what it told. -/
theorem InStep.sends (h : x.InStep p s k) {e : Event} (he : x.Allowed p s k (.sender e)) :
    (x.step (.sender e)).InStep p s k := by
  have hheard : e.Heard anything :=
    ⟨fun l a hrow ha => meets_anything (he l a hrow ha), fun _ _ _ _ _ _ _ => trivial⟩
  have htells : (x.sender.peers p).Tells x.receiver.cfg k ((x.sender.event e).peers p) :=
    Node.event_tells h.buffers h.foreign h.honest hheard
  have hcfg : (x.sender.event e).cfg = x.sender.cfg := Node.event_cfg _ e
  obtain ⟨more, hmore⟩ := htells.queue
  have hqueue : (x.step (.sender e)).queue p = x.queue p ++ more := hmore.symm
  refine ⟨h.honest.event hheard, ?_, ?_, h.transit, h.covers, h.up, h.far,
    htells.synced h.synced, ?_, ?_⟩
  · exact fun i => (congrArg (fun cfg : Config => cfg.getBuff p i) hcfg).trans (h.buffers i)
  · change ¬ (x.sender.event e).cfg.Announces k
    rw [hcfg]
    exact h.foreign
  · rw [hqueue, List.length_append]
    exact h.within.trans (Nat.le_add_right _ _)
  · rw [hqueue]
    change _ ∈ (x.queue p ++ more).drop x.taken ∨ ∀ cost, lastRead x.receiver.cfg
      ((x.queue p ++ more).take x.taken) k = some cost →
        (x.receiver.learned s).cost k = some cost
    rw [List.drop_append_of_le_length h.within, List.take_append_of_le_length h.within]
    exact h.learned.imp_left (List.mem_append_left more)

/-- The receiver takes the next frame, and learns what it says. -/
theorem InStep.handed (h : x.InStep p s k) {e : Event} (he : x.Allowed p s k (.hand e)) :
    (x.step (.hand e)).InStep p s k := by
  obtain ⟨hlistens, hearer, l, data, hframe, hnext⟩ := he
  obtain ⟨htake, hdrop, hwithin⟩ := take_succ hnext
  have hheard : x.receiver.heardBy s e = frameRecords x.receiver.cfg data := by
    rw [Node.heardBy, if_pos hearer, hframe]
    rfl
  refine h.received hlistens hwithin ?_
  rw [h.cost hlistens, hheard, htake, lastRead_frame]
  rcases h.learned with hcleared | hlearned
  · rw [hdrop] at hcleared
    exact .inl (by simpa using hcleared)
  · refine .inr fun cost hread => ?_
    cases hsaid : lastHeard (frameRecords x.receiver.cfg data) k with
    | some cost' =>
        rw [hsaid, Option.some_or] at hread
        rw [Option.some_or, hread]
    | none =>
        rw [hsaid, Option.none_or] at hread
        rw [Option.none_or]
        exact hlearned cost hread

/-- The next entry of the queue is no CE frame, or was queued before the table was cleared. -/
theorem InStep.passed (h : x.InStep p s k) (he : x.Allowed p s k .pass) :
    (x.step .pass).InStep p s k := by
  obtain ⟨w, hnext, hlost⟩ := he
  obtain ⟨htake, hdrop, hwithin⟩ := take_succ hnext
  refine ⟨h.honest, h.buffers, h.foreign, h.transit, h.covers, h.up, h.far, h.synced,
    hwithin, ?_⟩
  change _ ∈ (x.queue p).drop (x.taken + 1) ∨ ∀ cost, lastRead x.receiver.cfg
    ((x.queue p).take (x.taken + 1)) k = some cost → (x.receiver.learned s).cost k = some cost
  rw [htake]
  cases w with
  | cleared =>
      refine .inr fun cost hread => ?_
      rw [lastRead_cleared] at hread
      cases hread
  | frame pid data =>
      have hleft : .cleared ∈ (x.queue p).drop x.taken →
          WireEvent.cleared ∈ (x.queue p).drop (x.taken + 1) := fun hmem => by
        rw [hdrop] at hmem
        simpa using hmem
      by_cases hpid : pid = pidCE
      · subst hpid
        exact .inl (hleft (hlost data rfl))
      · rw [lastRead_other hpid]
        exact h.learned.imp_left hleft

/-- What one step keeps. -/
theorem InStep.step (h : x.InStep p s k) {e : EndsEvent} (he : x.Allowed p s k e) :
    (x.step e).InStep p s k := by
  cases e with
  | sender e => exact h.sends he
  | receiver e =>
      obtain ⟨hlistens, hnothing⟩ := he
      refine h.received hlistens h.within (h.learned.imp_right fun hlearned cost hread => ?_)
      rw [h.cost hlistens, hnothing]
      exact hlearned cost hread
  | hand e => exact h.handed he
  | pass => exact h.passed he

/-- **The two ends agree.**  In every run, whatever else the two nodes do and however late the link
hands the frames over: a receiver that has taken all that was queued has learned, for a destination
the sender's table has told it, the cost the table says it was last told, up to the largest cost of
the wire. -/
theorem ends_agree {es : List EndsEvent} (hstart : x.Begins p s k)
    (hrun : GuardedRun step (Allowed p s k) x es y) (hcaught : y.taken = (y.queue p).length)
    {a : AdvRoute} (ha : (y.sender.peers p).adv.find k = some a) (htold : 0 ≤ a.lastRtt) :
    (y.receiver.learned s).cost k = some (wireCost a.lastRtt) := by
  have hend : y.InStep p s k := hrun.invariant (fun _ _ h he => h.step he) hstart.inStep
  have hsent : sentCost (y.sender.peers p).adv k = some a.lastRtt :=
    sentCost_eq_some.mpr ⟨⟨a, ha, rfl⟩, htold⟩
  have hread : lastRead y.receiver.cfg (y.queue p) k = some (wireCost a.lastRtt) := by
    have hsynced := hend.synced
    rw [Peer.Synced, hsent] at hsynced
    exact hsynced
  rcases hend.learned with hcleared | hlearned
  · rw [hcaught, List.drop_length] at hcleared
    cases hcleared
  · rw [hcaught, List.take_length] at hlearned
    exact hlearned _ hread

end Ends

namespace Bench

/-- `N` with its stations `A` and `B`, and the node `B`. -/
def northEnd : Ends where
  sender := .boot (config false) [] [] links 1000
  receiver := (Node.boot (stationConfig 0x42) [] [] (rowsTo [0x4E]) 1000).event (.initSession 0 1)
  taken := 0

/-- What `N` tells `B` of `K`. -/
def frameOfK : CStr := recordsFrame [(dest 0x4B, 12)]

/-- `A` tells `N` of `K`, and `B` takes what `N` has for it. -/
def carried : List EndsEvent :=
  [.sender (.initSession 0 1), .sender (.initSession 1 1), .sender (record 0 0x4B 10), .pass,
    .hand (.processCE 0 (flexBuildInit 0)), .hand (.processCE 0 flexBuildKeepalive),
    .hand (.processCE 0 frameForB), .hand (.processCE 0 frameOfK)]

/-- `K` is no neighbour of `B`. -/
theorem far_station :
    ((Node.boot (stationConfig 0x42) [] [] (rowsTo [0x4E]) 1000).event (.initSession 0 1)).Far
      (dest 0x4B) := by
  have hboot : (Node.boot (stationConfig 0x42) [] [] (rowsTo [0x4E]) 1000).Far (dest 0x4B) := by
    refine far_boot fun l => ?_
    match l with
    | 0 => decide +kernel
    | _ + 1 =>
        change ({} : Link).linkCall.entered ≠ (dest 0x4B).call
        decide +kernel
  exact hboot.event (keepsFar_initSession 0 1)

theorem northEnd_begins : northEnd.Begins slotB 0 (dest 0x4B) where
  boots := by
    refine ⟨[], [], links, 1000, rfl, fun l hl => ?_, fun _ hpl => by cases hpl⟩
    match l, hl with
    | 0, _ => exact ⟨[0x41], 0, names_addr (by decide)⟩
    | 1, _ => exact ⟨[0x42], 0, names_addr (by decide)⟩
    | _ + 2, hl => cases hl
  hosts := ⟨[0x4E], 0, hosts_config false⟩
  buffers := fun _ => rfl
  foreign := by
    rintro ⟨frame, hframe, r, hr, hk⟩
    have hown : dest 0x4B ∉ (config false).ownFrame.elim [] fun frame =>
        (flexParseCompactRecords frame 64).map Record.key := by decide +kernel
    change (config false).ownFrame = some frame at hframe
    rw [hframe] at hown
    exact hown (List.mem_map.mpr ⟨r, hr, hk⟩)
  transit := rfl
  covers := by decide +kernel
  up := by decide +kernel
  far := far_station
  taken := rfl

/-- The next frame of the queue is handed over. -/
theorem allowed_hand {x : Ends} {data : CStr}
    (hdests : DestRoom (x.receiver.event (.processCE 0 data)).dests (dest 0x4B))
    (hlearned : ((x.receiver.event (.processCE 0 data)).learned 0).Room (dest 0x4B))
    (hearer : x.receiver.hearer (.processCE 0 data) = some 0)
    (hnext : (x.queue slotB)[x.taken]? = some (.frame pidCE data)) :
    x.Allowed slotB 0 (dest 0x4B) (.hand (.processCE 0 data)) :=
  ⟨⟨id, fun _ _ h => (by cases h), ⟨hdests, hlearned⟩⟩, hearer, 0, data, rfl, hnext⟩

theorem carried_run :
    GuardedRun Ends.step (Ends.Allowed slotB 0 (dest 0x4B)) northEnd carried
      (carried.foldl Ends.step northEnd) := by
  refine .of_chain ⟨fun _ _ h => (by cases h), fun _ _ h => (by cases h),
    fun _ _ h => (by cases h), ⟨.cleared, ?_, fun _ h => (by cases h)⟩, allowed_hand ?_ ?_ ?_ ?_,
    allowed_hand ?_ ?_ ?_ ?_, allowed_hand ?_ ?_ ?_ ?_, allowed_hand ?_ ?_ ?_ ?_, trivial⟩
  all_goals decide +kernel

/-- `B` has learned that `N` reaches `K` at cost 12. -/
theorem ends_agree_carried :
    (((carried.foldl Ends.step northEnd).receiver.learned 0).cost (dest 0x4B)) = some 12 := by
  obtain ⟨a, ha, hcost⟩ : ∃ a, ((carried.foldl Ends.step northEnd).sender.peers slotB).adv.find
      (dest 0x4B) = some a ∧ a.lastRtt = 12 := by
    have hfound : (((carried.foldl Ends.step northEnd).sender.peers slotB).adv.find
        (dest 0x4B)).map AdvRoute.lastRtt = some 12 := by decide +kernel
    obtain ⟨a, ha, hcost⟩ := Option.map_eq_some_iff.mp hfound
    exact ⟨a, ha, hcost⟩
  have hagree := Ends.ends_agree northEnd_begins carried_run (by decide +kernel) ha
    (by rw [hcost]; decide)
  rw [hagree, hcost]
  rfl

end Bench

end FlexNet
