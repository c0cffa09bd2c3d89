import FlexNet.Advert.WireTruth

/-!
# What a drain packs is what its frames say

A drain takes a prefix of the queue, in table order, and cuts it into frames: no record is split,
no frame is longer than `advertFrameBytes`, and the peer's parser gives the records of every frame
back with their costs clamped to the wire.
-/

namespace FlexNet

open AdvRoute

/-! ## Destinations of the table -/

/-- A base of one to six letters or digits, and a range of SSIDs. -/
structure Key.Station (k : Key) : Prop where
  nonempty : k.call.bytes ≠ []
  short : k.call.bytes.length ≤ 6
  alnum : ∀ b ∈ k.call.bytes, isAlnum b = true
  range : 0 ≤ k.lo ∧ k.lo ≤ k.hi ∧ k.hi ≤ 15

theorem ne_of_isAlnum {b : UInt8} (h : isAlnum b = true) :
    b ≠ 0x20 ∧ b ≠ 0 ∧ b ≠ 0x0D ∧ b ≠ 0x0A := by
  refine ⟨?_, ?_, ?_, ?_⟩ <;> rintro rfl <;> revert h <;> decide

/-- A record can carry a station. -/
theorem Key.Station.encodable {k : Key} (hk : k.Station) : k.Encodable where
  short := hk.short
  graphic := fun b hb => ⟨(ne_of_isAlnum (hk.alnum b hb)).1, (ne_of_isAlnum (hk.alnum b hb)).2.1⟩
  head := by
    obtain ⟨b, rest, hbytes⟩ := List.exists_cons_of_ne_nil hk.nonempty
    have hb : b ∈ k.call.bytes := by rw [hbytes]; exact List.mem_cons_self
    refine ⟨b, by rw [hbytes]; rfl, ?_, ?_⟩
    · exact (ne_of_isAlnum (hk.alnum b hb)).2.2.1
    · exact (ne_of_isAlnum (hk.alnum b hb)).2.2.2
  lo := ⟨hk.range.1, hk.range.2.1.trans hk.range.2.2⟩
  hi := ⟨hk.range.1.trans hk.range.2.1, hk.range.2.2⟩

/-! ## The queue in table order -/

namespace AdvertisedState

variable {st : AdvertisedState} {a : AdvRoute} {now : ℤ}

/-- The queued entries, in the order a drain takes them. -/
def queue (st : AdvertisedState) : List AdvRoute :=
  st.advs.filter fun a => a.pending

theorem mem_queue : a ∈ st.queue ↔ a ∈ st.advs ∧ a.pending = true := by
  simp [queue]

/-- Committing the first queued entry takes it off the head of the queue. -/
theorem queue_commit (hd : KeyedTable.Distinct AdvRoute.key st.advs) (h : st.pick = some a) :
    st.queue = a :: (st.put (a.commit now)).queue := by
  obtain ⟨hpend, pre, post, hadvs, hpre⟩ := List.find?_eq_some_iff_append.mp h
  have hne : ∀ b ∈ pre, b.key ≠ (a.commit now).key := by
    intro b hb hk
    have hnodup : (pre.map AdvRoute.key ++ a.key :: post.map AdvRoute.key).Nodup := by
      simpa [KeyedTable.Distinct, hadvs] using hd
    have hdisj := (List.nodup_append.mp hnodup).2.2 b.key (List.mem_map_of_mem hb) a.key
      List.mem_cons_self
    exact hdisj hk
  have hidle : pre.filter (fun b => b.pending) = [] :=
    List.filter_eq_nil_iff.mpr fun b hb => by simpa using hpre b hb
  have hput : (st.put (a.commit now)).advs = pre ++ a.commit now :: post := by
    rw [put, hadvs, KeyedTable.store_append_of_ne hne, KeyedTable.store,
      if_pos (commit_key now a).symm]
  have hcommit : (a.commit now).pending = false := rfl
  rw [queue, queue, hput, hadvs, List.filter_append, List.filter_append, hidle,
    List.filter_cons_of_pos (by simpa using hpend), List.filter_cons_of_neg (by simp [hcommit]),
    List.nil_append, List.nil_append]

end AdvertisedState

open AdvertisedState

/-- Entries a record can carry, with costs the rule can queue. -/
def Carriable (as : List AdvRoute) : Prop :=
  ∀ a ∈ as, a.key.Encodable ∧ IsCost a.pendingRtt

theorem Carriable.sendable {as : List AdvRoute} (h : Carriable as) : Sendable (pickRecords as) := by
  intro r hr
  obtain ⟨a, ha, rfl⟩ := List.mem_map.mp hr
  exact h a ha

/-! ## One frame -/

/-- The packing loop takes a prefix of the queue, and keeps a frame within its budget. -/
theorem packRecords_queue (now : ℤ) (max : ℕ) {st : AdvertisedState}
    (hd : KeyedTable.Distinct AdvRoute.key st.advs) (hq : Carriable st.queue) (body : CStr)
    (inFrame : ℕ) (hroom : inFrame = 0 → body.length < 100)
    (hbudget : body.length < advertFrameBytes) :
    ∃ picks, picks.length ≤ max ∧
      st.queue = picks ++ (packRecords now max body inFrame st).2.2.queue ∧
      KeyedTable.Distinct AdvRoute.key (packRecords now max body inFrame st).2.2.advs ∧
      (packRecords now max body inFrame st).1 = body ++ recordsOctets (pickRecords picks) ∧
      (packRecords now max body inFrame st).1.length < advertFrameBytes ∧
      (packRecords now max body inFrame st).2.1 = inFrame + picks.length := by
  induction max generalizing body inFrame st with
  | zero =>
      exact ⟨[], le_rfl, rfl, hd, by simp [packRecords, pickRecords, recordsOctets], hbudget, rfl⟩
  | succ max ih =>
      unfold packRecords
      cases hpick : st.pick with
      | none =>
          exact ⟨[], by simp, rfl, hd, by simp [pickRecords, recordsOctets], hbudget, rfl⟩
      | some a =>
          have hhead := @queue_commit _ _ now hd hpick
          have hcost := (hq a (by rw [hhead]; exact List.mem_cons_self)).2
          have hlen := length_recordOctets_le (k := a.key) hcost.1 hcost.2
          dsimp only
          by_cases hfit :
              advertFrameBytes - body.length - 1 ≤ (recordOctets a.key a.pendingRtt).length
          · -- a record always fits a frame that has none
            have hfull : inFrame ≠ 0 := fun h0 => by
              have := hroom h0
              unfold advertFrameBytes at hfit
              omega
            rw [flexBuildRouteRec, if_pos hfit]
            refine ⟨[], by simp, ?_, ?_, by simp [pickRecords, recordsOctets], hbudget, rfl⟩
            · simp [hfull]
            · simpa [hfull] using hd
          · rw [flexBuildRouteRec, if_neg hfit]
            have hbody : (body ++ recordOctets a.key a.pendingRtt).length < advertFrameBytes := by
              rw [List.length_append]
              omega
            have hrest : Carriable (st.put (a.commit now)).queue := by
              intro b hb
              exact hq b (by rw [hhead]; exact List.mem_cons_of_mem a hb)
            obtain ⟨picks, hmax, hqueue, hdist, hoctets, hlong, hcount⟩ :=
              ih (KeyedTable.distinct_store hd) hrest (body ++ recordOctets a.key a.pendingRtt)
                (inFrame + 1) (by simp) hbody
            refine ⟨a :: picks, by simpa using hmax, ?_, hdist, ?_, hlong, ?_⟩
            · rw [hhead]
              exact congrArg (a :: ·) hqueue
            · rw [hoctets, recordsOctets_pick, List.append_assoc]
            · rw [hcount, List.length_cons]
              omega

/-- A frame as the drain builds it: some records that fit its budget. -/
structure FrameOf (g : List AdvRoute) : Prop where
  nonempty : g ≠ []
  records : g.length ≤ 20
  carriable : Carriable g
  budget : (recordsFrame (pickRecords g)).length ≤ advertFrameBytes

/-- One turn of the frame loop: nothing is queued, or the head of the queue leaves in a frame. -/
theorem Env.emitFrame_queue (e : Env) (p : Slot) (isPcf : Bool) {x : Peer}
    (hd : KeyedTable.Distinct AdvRoute.key x.adv.advs) (hq : Carriable x.adv.queue) :
    ((e.emitFrame p isPcf x).2 = false ∧ (e.emitFrame p isPcf x).1.adv.queue = x.adv.queue ∧
      (e.emitFrame p isPcf x).1.wire = x.wire) ∨
    ∃ g y, FrameOf g ∧ x.adv.queue = g ++ y.adv.queue ∧
      KeyedTable.Distinct AdvRoute.key y.adv.advs ∧ y.wire = x.wire ∧
      e.emitFrame p isPcf x = (e.flexSendFrame p pidCE (recordsFrame (pickRecords g)) y, true) := by
  obtain ⟨g, hmax, hqueue, hdist, hbody, hlong, hcount⟩ :=
    packRecords_queue e.now (advertRecs isPcf) hd hq [0x33] 0 (by simp) (by decide)
  have h20 : g.length ≤ 20 := hmax.trans (by cases isPcf <;> decide)
  unfold emitFrame
  rcases hp : packRecords e.now (advertRecs isPcf) [0x33] 0 x.adv with ⟨body, inFrame, st⟩
  rw [hp] at hqueue hdist hbody hlong hcount
  dsimp only at hqueue hdist hbody hlong hcount ⊢
  rw [Nat.zero_add] at hcount
  by_cases hnil : g = []
  · left
    subst hnil
    have hzero : inFrame = 0 := hcount
    rw [if_pos hzero]
    exact ⟨rfl, hqueue.symm, rfl⟩
  · right
    have hpos : inFrame ≠ 0 := by
      rw [hcount]
      simpa using hnil
    have hframe : body ++ [0x0D] = recordsFrame (pickRecords g) := by rw [hbody, recordsFrame]
    rw [if_neg hpos, hframe]
    refine ⟨g, { x with adv := { st with tokens := st.tokens - 1 } }, ⟨hnil, h20, ?_, ?_⟩, hqueue,
      hdist, rfl, rfl⟩
    · intro a ha
      exact hq a (by rw [hqueue]; exact List.mem_append_left _ ha)
    · rw [← hframe, List.length_append, List.length_singleton]
      exact hlong

/-! ## A drain -/

/-- The frames of some groups of records, as events on a transmit queue. -/
def groupFrames (gs : List (List AdvRoute)) : List WireEvent :=
  gs.map fun g => .frame pidCE (recordsFrame (pickRecords g))

/-- What a drain did: the head of the queue was packed into frames, and those that found a buffer
are on the wire. -/
structure Drained (buffers : Prop) (x y : Peer) (packed sent : List (List AdvRoute)) : Prop where
  frames : ∀ g ∈ packed, FrameOf g
  queue : x.adv.queue = packed.flatten ++ y.adv.queue
  sublist : sent.Sublist packed
  wire : y.wire = x.wire ++ groupFrames sent
  buffered : buffers → sent = packed

theorem Drained.refl {buffers : Prop} {x y : Peer} (hqueue : y.adv.queue = x.adv.queue)
    (hwire : y.wire = x.wire) : Drained buffers x y [] [] :=
  ⟨fun _ hg => absurd hg List.not_mem_nil, by simp [hqueue], .refl _, by simp [groupFrames, hwire],
    fun _ => rfl⟩

namespace Env

variable (e : Env) (p : Slot) (isPcf : Bool)

/-- `GetBuff()` finds a buffer for every frame to the peer. -/
def Buffered (p : Slot) : Prop := ∀ i, e.cfg.getBuff p i = true

theorem drainFrames_queue (turns : ℕ) {x : Peer}
    (hd : KeyedTable.Distinct AdvRoute.key x.adv.advs) (hq : Carriable x.adv.queue) :
    ∃ packed sent, Drained (e.Buffered p) x (e.drainFrames p isPcf turns x).1 packed sent := by
  induction turns generalizing x with
  | zero => exact ⟨[], [], .refl rfl rfl⟩
  | succ turns ih =>
      unfold drainFrames
      rcases e.emitFrame_queue p isPcf hd hq with ⟨hsent, hqueue, hwire⟩ |
        ⟨g, y, hframe, hqueue, hdist, hwire, hemit⟩
      · rcases hemit : e.emitFrame p isPcf x with ⟨y, sent⟩
        rw [hemit] at hsent hqueue hwire
        obtain rfl : sent = false := hsent
        exact ⟨[], [], .refl hqueue hwire⟩
      · rw [hemit]
        dsimp only
        set y' := e.flexSendFrame p pidCE (recordsFrame (pickRecords g)) y with hy'
        have hrest : Carriable y'.adv.queue :=
          fun a ha => hq a (by rw [hqueue]; exact List.mem_append_right g ha)
        obtain ⟨packed, sent, h⟩ := ih (x := y') hdist hrest
        have hframes : ∀ g' ∈ g :: packed, FrameOf g' := by
          intro g' hg'
          rcases List.mem_cons.mp hg' with rfl | hg'
          · exact hframe
          · exact h.frames g' hg'
        have hflat : x.adv.queue =
            (g :: packed).flatten ++ (e.drainFrames p isPcf turns y').1.adv.queue := by
          rw [hqueue, List.flatten_cons, List.append_assoc]
          exact congrArg (g ++ ·) h.queue
        cases hbuff : e.cfg.getBuff p y.getBuffCalls with
        | true =>
            refine ⟨g :: packed, g :: sent, hframes, hflat, h.sublist.cons_cons g, ?_, ?_⟩
            · rw [h.wire]
              simp [hy', flexSendFrame, hbuff, hwire, groupFrames]
            · intro hall
              rw [h.buffered hall]
        | false =>
            refine ⟨g :: packed, sent, hframes, hflat, h.sublist.cons g, ?_, ?_⟩
            · rw [h.wire]
              simp [hy', flexSendFrame, hbuff, hwire]
            · intro hall
              rw [hall] at hbuff
              cases hbuff

theorem queue_drainEob {frames : ℕ} {x : Peer} :
    (e.drainEob p isPcf frames x).adv.queue = x.adv.queue := by
  rw [AdvertisedState.queue, View.drainEob_advs]
  rfl

/-- A drain packs the head of the queue, and may close the answer with a `'3-'`. -/
theorem drain_queue {x : Peer} (hd : KeyedTable.Distinct AdvRoute.key x.adv.advs)
    (hq : Carriable x.adv.queue) :
    ∃ packed sent y, Drained (e.Buffered p) x y packed sent ∧
      (e.flexAdvertiseDrain p x).adv.queue = y.adv.queue ∧
      ((e.flexAdvertiseDrain p x).wire = y.wire ∨
        (e.flexAdvertiseDrain p x).wire = y.wire ++ [.frame pidCE releaseToken]) := by
  unfold flexAdvertiseDrain
  split_ifs
  · exact ⟨[], [], x, .refl rfl rfl, rfl, .inl rfl⟩
  · exact ⟨[], [], x, .refl rfl rfl, rfl, .inl rfl⟩
  · dsimp only
    set isPcf := (e.sessions p).flexPeerIsPcf
    set z : Peer := { x with adv := x.adv.refill isPcf e.now } with hz
    have hadvs : z.adv.advs = x.adv.advs := AdvertisedState.advs_refill
    have hqueue : z.adv.queue = x.adv.queue := by
      rw [AdvertisedState.queue, AdvertisedState.queue, hadvs]
    obtain ⟨packed, sent, h⟩ := e.drainFrames_queue p isPcf
      (if e.cfg.recordsAllowed z = true then z.adv.tokens.floor.toNat else 0) (hadvs ▸ hd)
      (hqueue ▸ hq)
    generalize e.drainFrames p isPcf _ z = r at h ⊢
    obtain ⟨y, frames⟩ := r
    refine ⟨packed, sent, y, ⟨h.frames, hqueue ▸ h.queue, h.sublist, h.wire, h.buffered⟩, ?_, ?_⟩
    · exact e.queue_drainEob p isPcf
    · exact View.drainEob_wire e isPcf frames y

end Env

/-! ## What the peer reads -/

/-- The record a frame carries for a queued entry: the cost as it is up to `FLEXNET_RTT_WIRE_MAX`,
clamped to that below the sentinel, and the sentinel as it is. -/
def AdvRoute.carried (a : AdvRoute) : Record where
  key := a.key
  rtt := if a.pendingRtt < rttInfinity then min a.pendingRtt rttWireMax else rttInfinity
  isInfinity := decide (a.pendingRtt = rttInfinity)

theorem readBack_eq_carried {a : AdvRoute} (h : IsCost a.pendingRtt) :
    readBack a.key a.pendingRtt = a.carried := by
  obtain ⟨hpos, hle⟩ := h
  unfold readBack carried wireCost rttWireMax rttInfinity at *
  rcases lt_or_eq_of_le hle with hlt | heq
  · rw [if_pos hlt]
    by_cases hbig : 4095 < a.pendingRtt
    · rw [if_pos ⟨hbig, hlt⟩, min_eq_right hbig.le]
      simp [hlt.ne]
    · rw [if_neg fun h => hbig h.1, min_eq_left (not_lt.mp hbig)]
      simp [hlt.ne, hlt]
  · rw [heq]
    simp

/-- A frame of the drain is read back record for record. -/
theorem FrameOf.parse {g : List AdvRoute} (h : FrameOf g) :
    flexParseCompactRecords (recordsFrame (pickRecords g)) 64 = g.map AdvRoute.carried := by
  have hne : pickRecords g ≠ [] := by simpa [pickRecords] using h.nonempty
  have hlen : (pickRecords g).length ≤ 20 := by simpa [pickRecords] using h.records
  rw [parse_recordsFrame hne h.carriable.sendable (by omega) (by omega), pickRecords, List.map_map]
  exact List.map_congr_left fun a ha => readBack_eq_carried (h.carriable a ha).2

theorem FrameOf.frameType {g : List AdvRoute} (h : FrameOf g) (lt3byte : Bool) :
    flexParseCeFrame lt3byte (recordsFrame (pickRecords g)) = some .compact :=
  frameType_recordsFrame (by simpa [pickRecords] using h.nonempty)

/-- What a frame must be for its receiver to read it as the records `g`, whole. -/
structure ReadsAs (frame : CStr) (g : List AdvRoute) : Prop where
  fits : frame.length ≤ advertFrameBytes
  compact : ∀ lt3byte, flexParseCeFrame lt3byte frame = some .compact
  parsed : flexParseCompactRecords frame 64 = g.map AdvRoute.carried

theorem FrameOf.readsAs {g : List AdvRoute} (h : FrameOf g) :
    ReadsAs (recordsFrame (pickRecords g)) g :=
  ⟨h.budget, h.frameType, h.parse⟩

/-- Compact record frames round-trip: a drain packs the head of the queue, and the frames it sends
give back what was packed into them, in order. -/
theorem Env.drain_roundTrip (e : Env) (p : Slot) (x : Peer)
    (hd : KeyedTable.Distinct AdvRoute.key x.adv.advs)
    (hq : ∀ a ∈ x.adv.queue, a.key.Station ∧ IsCost a.pendingRtt) :
    ∃ (packed sent : List (List AdvRoute)) (frames : List CStr) (eob : List WireEvent),
      x.adv.queue = packed.flatten ++ (e.flexAdvertiseDrain p x).adv.queue ∧
      sent.Sublist packed ∧ ((∀ i, e.cfg.getBuff p i = true) → sent = packed) ∧
      (e.flexAdvertiseDrain p x).wire = x.wire ++ frames.map (.frame pidCE) ++ eob ∧
      (eob = [] ∨ eob = [.frame pidCE releaseToken]) ∧
      List.Forall₂ ReadsAs frames sent ∧
      frames.flatMap (fun f => flexParseCompactRecords f 64) =
        sent.flatten.map AdvRoute.carried := by
  have hcarry : Carriable x.adv.queue := fun a ha => ⟨(hq a ha).1.encodable, (hq a ha).2⟩
  obtain ⟨packed, sent, y, h, hqueue, hwire⟩ := e.drain_queue p hd hcarry
  have hsent : ∀ g ∈ sent, FrameOf g := fun g hg => h.frames g (h.sublist.mem hg)
  have hread : List.Forall₂ ReadsAs (sent.map fun g => recordsFrame (pickRecords g)) sent :=
    List.forall₂_map_left_iff.mpr (List.forall₂_same.mpr fun g hg => (hsent g hg).readsAs)
  have hparse : (sent.map fun g => recordsFrame (pickRecords g)).flatMap
      (fun f => flexParseCompactRecords f 64) = sent.flatten.map AdvRoute.carried := by
    rw [List.flatMap_map, List.map_flatten, ← List.flatMap_def]
    exact List.flatMap_congr fun g hg => (hsent g hg).parse
  have hframes : groupFrames sent =
      (sent.map fun g => recordsFrame (pickRecords g)).map (.frame pidCE) := by
    rw [groupFrames, List.map_map]
    rfl
  rcases hwire with hwire | hwire
  · refine ⟨packed, sent, _, [], hqueue ▸ h.queue, h.sublist, h.buffered, ?_, .inl rfl, hread,
      hparse⟩
    rw [hwire, h.wire, hframes, List.append_nil]
  · refine ⟨packed, sent, _, _, hqueue ▸ h.queue, h.sublist, h.buffered, ?_, .inr rfl, hread,
      hparse⟩
    rw [hwire, h.wire, hframes]

namespace Bench

/-- `B` is owed a withdrawal and a cost no record can carry. -/
def twoQueued : Peer :=
  { adv := { advs := [{ key := dest 0x4B, pending := true, pendingRtt := 60000 },
      { key := dest 0x4C, pending := true, pendingRtt := 5000 }] } }

theorem station_dest {c : UInt8} (h : isAlnum c = true) : (dest c).Station where
  nonempty := List.cons_ne_nil c []
  short := by
    have hlen : (dest c).call.bytes.length = 1 := rfl
    omega
  alnum := by
    intro b hb
    obtain rfl : b = c := List.mem_singleton.mp hb
    exact h
  range := ⟨le_rfl, le_rfl, by
    have hhi : (dest c).hi = 0 := rfl
    omega⟩

/-- The withdrawal is packed before the clamped cost, and both are read back. -/
theorem drain_roundTrip_two :
    ∃ (packed sent : List (List AdvRoute)) (frames : List CStr) (eob : List WireEvent),
      twoQueued.adv.queue =
        packed.flatten ++ ((node false).toEnv.flexAdvertiseDrain slotB twoQueued).adv.queue ∧
      sent.Sublist packed ∧
      ((∀ i, (node false).cfg.getBuff slotB i = true) → sent = packed) ∧
      ((node false).toEnv.flexAdvertiseDrain slotB twoQueued).wire =
        twoQueued.wire ++ frames.map (.frame pidCE) ++ eob ∧
      (eob = [] ∨ eob = [.frame pidCE releaseToken]) ∧
      List.Forall₂ ReadsAs frames sent ∧
      frames.flatMap (fun f => flexParseCompactRecords f 64) =
        sent.flatten.map AdvRoute.carried := by
  have hdistinct : (twoQueued.adv.advs.map AdvRoute.key).Nodup := by decide
  refine (node false).toEnv.drain_roundTrip slotB twoQueued hdistinct ?_
  intro a ha
  rcases List.mem_cons.mp ha with rfl | ha
  · exact ⟨station_dest rfl, by constructor <;> decide⟩
  · obtain rfl := List.mem_singleton.mp ha
    exact ⟨station_dest rfl, by constructor <;> decide⟩

end Bench

end FlexNet
