import FlexNet.Advert.Steps
import FlexNet.Node.Events

/-!
# What the peer was told is what the wire carried

A drain commits the cost it has queued, but the record carries the cost `wireCost` makes of it,
and the frame is lost when `GetBuff()` finds no buffer.  In a run whose frames find a buffer and
carry costs the wire can express, the advertised table agrees with a peer that reads every frame:
`told_is_sent`.
-/

namespace FlexNet

open Runs AdvRoute

/-! ## The peer's reading of the queue -/

/-- The records on a transmit queue since the table was last cleared, oldest first. -/
def wireRecords (cfg : Config) (wire : List WireEvent) : List Record :=
  wire.foldl (fun rs ev =>
    match ev with
    | .cleared => []
    | .frame pid data => if pid = pidCE then rs ++ frameRecords cfg data else rs) []

/-- The cost of the last record for a destination. -/
def lastCost (cfg : Config) (wire : List WireEvent) (k : Key) : Option ℤ :=
  ((wireRecords cfg wire).reverse.find? fun r => r.key = k).map Record.rtt

/-- The cost the advertised table says the peer was last told. -/
def sentCost (st : AdvertisedState) (k : Key) : Option ℤ :=
  ((st.find k).map AdvRoute.lastRtt).filter fun c => 0 ≤ c

theorem sentCost_eq_some {st : AdvertisedState} {k : Key} {c : ℤ} :
    sentCost st k = some c ↔ (∃ a, st.find k = some a ∧ a.lastRtt = c) ∧ 0 ≤ c := by
  simp [sentCost, Option.filter_eq_some_iff]

section

variable {cfg : Config} {wire : List WireEvent} {k : Key}

theorem lastCost_cleared : lastCost cfg (wire ++ [.cleared]) k = none := by
  simp [lastCost, wireRecords, List.foldl_append]

theorem lastCost_other {pid : UInt8} {data : CStr} (h : pid ≠ pidCE) :
    lastCost cfg (wire ++ [.frame pid data]) k = lastCost cfg wire k := by
  simp [lastCost, wireRecords, List.foldl_append, h]

theorem lastCost_frame {data : CStr} :
    lastCost cfg (wire ++ [.frame pidCE data]) k =
      (((frameRecords cfg data).reverse.find? fun r => r.key = k).map Record.rtt).or
        (lastCost cfg wire k) := by
  simp [lastCost, wireRecords, List.foldl_append, List.find?_append, Option.map_or]

/-- A frame without a record for the destination changes nothing about it. -/
theorem lastCost_of_notMem {data : CStr} (h : ∀ r ∈ frameRecords cfg data, r.key ≠ k) :
    lastCost cfg (wire ++ [.frame pidCE data]) k = lastCost cfg wire k := by
  rw [lastCost_frame, List.find?_eq_none.mpr (by simpa using h)]
  rfl

end

/-! ## A frame of records, read by the peer -/

/-- The records of a frame of queued entries, when the wire can express their costs. -/
theorem frameRecords_picks {cfg : Config} {picks : List AdvRoute} (hne : picks ≠ [])
    (hlen : picks.length ≤ 20)
    (hpicks : ∀ a ∈ picks, a.key.Encodable ∧ IsCost a.pendingRtt) :
    frameRecords cfg (recordsFrame (pickRecords picks)) =
      picks.map fun a => readBack a.key a.pendingRtt := by
  have hne' : pickRecords picks ≠ [] := by simpa [pickRecords] using hne
  have hlen' : (pickRecords picks).length ≤ 20 := by simpa [pickRecords] using hlen
  have hsend : Sendable (pickRecords picks) := by
    intro r hr
    obtain ⟨a, ha, rfl⟩ := List.mem_map.mp hr
    exact ⟨(hpicks a ha).1, (hpicks a ha).2⟩
  rw [frameRecords, if_pos (frameType_recordsFrame hne'),
    parse_recordsFrame hne' hsend (by omega) (by omega), pickRecords, List.map_map]
  rfl

namespace View

variable {p : Slot} {v : View} {k : Key}

/-- A frame turn finds a buffer, and queues only costs the wire can express, for destinations a
record can carry; every other act. -/
def WireFaithful (p : Slot) (v : View) : PeerAct → Prop
  | .emit => ∀ a ∈ v.entries, a.pending = true →
    v.env.cfg.getBuff p v.peer.getBuffCalls = true ∧ a.key.Encodable ∧
      (a.pendingRtt ≤ rttWireMax ∨ a.pendingRtt = rttInfinity)
  | _ => True

/-- The invariant: table and wire agree on every destination but the node's own. -/
structure WireAgrees (v : View) : Prop where
  tidy : v.Tidy
  agrees : ∀ k, k ∉ v.env.cfg.ownKeys →
    sentCost v.peer.adv k = lastCost v.env.cfg v.peer.wire k

/-- What a faithful frame turn does: nothing, or it sends some queued entries, and the peer reads
their queued costs. -/
theorem emit_faithful (hv : v.Tidy) (hok : v.WireFaithful p .emit) :
    v.apply p .emit = v ∨ ∃ (picks : List AdvRoute) (data : CStr),
      AdvertisedState.Packed v.env.now picks v.peer.adv
          { (v.apply p .emit).peer.adv with tokens := v.peer.adv.tokens } ∧
      (v.apply p .emit).peer.wire = v.peer.wire ++ [.frame pidCE data] ∧
      frameRecords v.env.cfg data = picks.map fun a => ⟨a.key, a.pendingRtt,
        decide (rttInfinity ≤ a.pendingRtt)⟩ := by
  rcases v.env.emitFrame_cases p (v.isPcf p) hv.sound with
    ⟨-, heq⟩ | ⟨picks, st, hne, hlen, hpacked, heq⟩
  · left
    simp only [apply, heq]
  · right
    have hpicks : ∀ a ∈ picks, v.env.cfg.getBuff p v.peer.getBuffCalls = true ∧ a.key.Encodable ∧
        (a.pendingRtt ≤ rttWireMax ∨ a.pendingRtt = rttInfinity) := fun a ha =>
      hok a (hpacked.picked a ha).1 (hpacked.picked a ha).2
    obtain ⟨a, ha⟩ := List.exists_mem_of_ne_nil picks hne
    refine ⟨picks, recordsFrame (pickRecords picks), ?_, ?_, ?_⟩
    · have hrest := hpacked.rest
      simp only [apply, heq, Env.flexSendFrame]
      rw [hrest] at hpacked ⊢
      exact hpacked
    · simp [apply, heq, Env.flexSendFrame, (hpicks a ha).1]
    · rw [frameRecords_picks hne hlen fun a ha => ⟨(hpicks a ha).2.1,
        (hv.sound.entries a (hpacked.picked a ha).1).queued (hpacked.picked a ha).2⟩]
      refine List.map_congr_left fun a ha => ?_
      rw [readBack, wireCost_eq (hpicks a ha).2.2]

theorem sentCost_congr {st st' : AdvertisedState} (h : st'.advs = st.advs) :
    sentCost st' k = sentCost st k := by
  simp only [sentCost, AdvertisedState.find, h]

/-- The end of a drain puts a `'3-'` on the queue at most. -/
theorem drainEob_wire (e : Env) (isPcf : Bool) (frames : ℕ) (x : Peer) :
    (e.drainEob p isPcf frames x).wire = x.wire ∨
      (e.drainEob p isPcf frames x).wire = x.wire ++ [.frame pidCE releaseToken] := by
  unfold Env.drainEob Env.flexSendFrame
  dsimp only
  split_ifs <;> simp

/-- A check leaves what was sent alone. -/
theorem sentCost_check {e : Env} {x : Peer} {k' : Key} {force : Bool} :
    sentCost (e.flexAdvertiseCheck p k' force x).adv k = sentCost x.adv k := by
  rcases e.flexAdvertiseCheck_cases p k' force x with h | ⟨b, h, rfl, -, hent⟩
  · rw [h]
  · rw [h]
    unfold sentCost
    by_cases hk : k = b.key
    · subst hk
      rw [AdvertisedState.find_put_self]
      rcases checkEntry_cases hent with ⟨hfind, -⟩ | ⟨a, hfind, hb, -⟩ | ⟨hb, -⟩
      · rw [hfind]
      · rw [hfind, hb]
        rfl
      · have hsent : b.lastRtt = ((x.adv.find b.key).getD (.fresh b.key)).lastRtt :=
          (congrArg AdvRoute.lastRtt hb).trans (decideEntry_lastRtt Env.checkInput_penalty)
        rw [Option.map_some, hsent]
        cases x.adv.find b.key <;> rfl
    · rw [AdvertisedState.find_put_of_ne hk]

theorem wireAgrees_apply {act : PeerAct} (hv : v.WireAgrees) (hl : v.Legal p act)
    (hok : v.WireFaithful p act) : (v.apply p act).WireAgrees where
  tidy := tidy_apply hv.tidy hl
  agrees := fun k hk => by
    rw [cfg_apply hl] at hk ⊢
    have hold := hv.agrees k hk
    cases act with
    | check k' force =>
        simp only [apply]
        rw [sentCost_check, hold]
        rw [Env.flexAdvertiseCheck_frame]
    | refill =>
        simpa only [apply, sentCost, AdvertisedState.find_refill] using hold
    | close frames =>
        rw [apply, sentCost_congr drainEob_advs, hold]
        rcases drainEob_wire v.env (v.isPcf p) frames v.peer with hwire | hwire <;> rw [hwire]
        exact (lastCost_of_notMem (by simp [Env.frameRecords_releaseToken])).symm
    | clear => rw [apply, lastCost_cleared]; rfl
    | send pid data =>
        rw [apply, flexSendFrame_adv, hold]
        unfold Env.flexSendFrame
        dsimp only
        split_ifs
        · by_cases hpid : pid = pidCE
          · subst hpid
            refine (lastCost_of_notMem fun r hr hrk => hk ?_).symm
            rw [← hrk]
            exact hl rfl r hr
          · exact (lastCost_other hpid).symm
        · rfl
    | emit =>
        rcases emit_faithful hv.tidy hok with heq | ⟨picks, data, hpacked, hwire, hrecords⟩
        · rw [heq, hold]
        · rw [hwire, lastCost_frame, hrecords]
          have hfind : (v.apply p .emit).peer.adv.find k =
            (v.peer.adv.find k).map fun a => if a ∈ picks then a.commit v.env.now else a :=
              hpacked.find k
          rw [← List.map_reverse, List.find?_map]
          by_cases hpick : ∃ a ∈ picks, a.key = k
          · obtain ⟨a, ha, rfl⟩ := hpick
            have hmem := (hpacked.picked a ha).1
            have hcost := (hv.tidy.sound.entries a hmem).queued (hpacked.picked a ha).2
            have hlast : picks.reverse.find? (fun b => b.key = a.key) = some a :=
              KeyedTable.lookup_of_mem
                (by simpa [KeyedTable.Distinct] using hpacked.distinct) (List.mem_reverse.mpr ha)
            have hcomp : ((fun r : Record => decide (r.key = a.key)) ∘ fun b : AdvRoute =>
                (⟨b.key, b.pendingRtt, decide (rttInfinity ≤ b.pendingRtt)⟩ : Record)) =
                  fun b => decide (b.key = a.key) := rfl
            rw [hcomp, hlast, sentCost, hfind, hv.tidy.sound.find_of_mem hmem]
            simp [ha, AdvRoute.commit, Option.filter, hcost.1.le]
          · have hnone : picks.reverse.find? ((fun r : Record => decide (r.key = k)) ∘
                fun b : AdvRoute => (⟨b.key, b.pendingRtt,
                  decide (rttInfinity ≤ b.pendingRtt)⟩ : Record)) = none :=
              List.find?_eq_none.mpr fun a ha hak =>
                hpick ⟨a, List.mem_reverse.mp ha, by simpa using hak⟩
            rw [hnone, Option.map_none, Option.map_none, Option.none_or, ← hold, sentCost, hfind,
              sentCost]
            cases ha : v.peer.adv.find k with
            | none => rfl
            | some a =>
                have hnot : a ∉ picks := fun hmem => hpick ⟨a, hmem, AdvertisedState.find_key ha⟩
                simp [hnot]
    | tables | rename | owe | release => exact hold

/-- How a queued record can leave the queue slot in one faithful act: it is still there, its
destination was decided again, the table was cleared, or it is on the transmit queue. -/
theorem queued_apply {act : PeerAct} (hv : v.Tidy) (hok : v.WireFaithful p act) {a : AdvRoute}
    (ha : a ∈ v.entries) (hq : a.pending = true) :
    (∃ b ∈ (v.apply p act).entries, b.key = a.key ∧ b.pending = true ∧
      b.pendingRtt = a.pendingRtt) ∨
    (∃ force, act = .check a.key force) ∨ act = .clear ∨
    (act = .emit ∧ ∃ data, (v.apply p act).peer.wire = v.peer.wire ++ [.frame pidCE data] ∧
      ∃ r ∈ frameRecords v.env.cfg data, r.key = a.key ∧ r.rtt = a.pendingRtt) := by
  have hkept : a ∈ (v.apply p act).entries → ∃ b ∈ (v.apply p act).entries, b.key = a.key ∧
      b.pending = true ∧ b.pendingRtt = a.pendingRtt := fun h => ⟨a, h, rfl, hq, rfl⟩
  cases act with
  | check k force =>
      by_cases hk : k = a.key
      · exact .inr (.inl ⟨force, by rw [hk]⟩)
      · refine .inl (hkept ?_)
        rcases v.env.flexAdvertiseCheck_cases p k force v.peer with h | ⟨b, h, hb, -⟩ <;>
          rw [entries, apply, h]
        · exact ha
        · exact KeyedTable.mem_store_of_ne ha (hb ▸ Ne.symm hk)
  | emit =>
      rcases emit_faithful hv hok with heq | ⟨picks, data, hpacked, hwire, hrecords⟩
      · exact .inl (hkept (by rw [heq]; exact ha))
      · by_cases hpick : a ∈ picks
        · refine .inr (.inr (.inr ⟨rfl, data, hwire, ?_⟩))
          rw [hrecords]
          exact ⟨_, List.mem_map_of_mem hpick, rfl, rfl⟩
        · refine .inl (hkept ?_)
          have hfind : (v.apply p .emit).peer.adv.find a.key = some a := by
            refine (hpacked.find a.key).trans ?_
            simp [hv.sound.find_of_mem ha, hpick]
          exact AdvertisedState.mem_of_find hfind
  | clear => exact .inr (.inr (.inl rfl))
  | refill => exact .inl (hkept (by rw [entries, apply, AdvertisedState.advs_refill]; exact ha))
  | close frames => exact .inl (hkept (by rw [entries, apply, drainEob_advs]; exact ha))
  | tables | rename | owe | release | send => exact .inl (hkept ha)

/-- In every run whose frames find buffers and carry costs the wire can express: the table says a
peer was last told a cost exactly when the last record on its queue since the table was cleared
carries that cost, and a queued record leaves its slot only for the queue, by a later decision, or
with the whole table. -/
theorem told_is_sent {e : Env} {acts : List PeerAct}
    (hrun : GuardedRun (View.apply p) (fun v act => v.Legal p act ∧ v.WireFaithful p act)
      (start e) acts v) :
    (∀ k, k ∉ v.env.cfg.ownKeys → ∀ cost, 0 ≤ cost →
      ((∃ a, v.peer.adv.find k = some a ∧ a.lastRtt = cost) ↔
        lastCost v.env.cfg v.peer.wire k = some cost)) ∧
    ∀ act, v.WireFaithful p act → ∀ a ∈ v.entries, a.pending = true →
      (∃ b ∈ (v.apply p act).entries, b.key = a.key ∧ b.pending = true ∧
        b.pendingRtt = a.pendingRtt) ∨
      (∃ force, act = .check a.key force) ∨ act = .clear ∨
      (act = .emit ∧ ∃ data, (v.apply p act).peer.wire = v.peer.wire ++ [.frame pidCE data] ∧
        ∃ r ∈ frameRecords v.env.cfg data, r.key = a.key ∧ r.rtt = a.pendingRtt) := by
  have hinv : v.WireAgrees := hrun.invariant (I := WireAgrees)
    (fun _ _ hv ⟨hl, hok⟩ => wireAgrees_apply hv hl hok) ⟨tidy_start e, fun _ _ => rfl⟩
  refine ⟨fun k hk cost hcost => ?_, fun act hok a ha hq => queued_apply hinv.tidy hok ha hq⟩
  rw [← hinv.agrees k hk, sentCost_eq_some]
  exact ⟨fun h => ⟨h, hcost⟩, And.left⟩

/-! ### Two runs -/

open Bench

theorem encodable_dest : (dest 0x4B).Encodable :=
  ⟨by decide +kernel, by decide +kernel, ⟨0x4B, rfl, by decide, by decide⟩, by decide, by decide⟩

/-- `K`, taught by `A` at cost 10, is checked and sent to `B`. -/
def sentOnce : View :=
  [PeerAct.check (dest 0x4B) false, .emit].foldl (View.apply slotB)
    (start ((node false).after [record 0 0x4B 10]).toEnv)

theorem sentOnce_run :
    GuardedRun (View.apply slotB) (fun v act => v.Legal 1 act ∧ v.WireFaithful 1 act)
      (start ((node false).after [record 0 0x4B 10]).toEnv)
      [.check (dest 0x4B) false, .emit] sentOnce := by
  have hqueued : ∀ a ∈ (View.apply slotB (start ((node false).after [record 0 0x4B 10]).toEnv)
      (.check (dest 0x4B) false)).entries, a.key = dest 0x4B ∧ a.pendingRtt ≤ rttWireMax := by
    decide +kernel
  refine .of_chain ⟨⟨trivial, trivial⟩, ⟨rfl, fun a ha _ => ?_⟩, trivial⟩
  exact ⟨rfl, (hqueued a ha).1 ▸ encodable_dest, .inl (hqueued a ha).2⟩

/-- The table and the queue agree that `B` was told 12. -/
theorem told_is_sent_once :
    (∃ a, sentOnce.peer.adv.find (dest 0x4B) = some a ∧ a.lastRtt = 12) ↔
      lastCost sentOnce.env.cfg sentOnce.peer.wire (dest 0x4B) = some 12 :=
  (told_is_sent sentOnce_run).1 (dest 0x4B) (by decide +kernel) 12 (by decide)

set_option maxRecDepth 10000 in
/-- Not every run tells what it sent: `A` teaches `K` at the largest cost of the wire, the link
adds to it, and `B` is sent the largest cost again. -/
theorem told_is_not_sent :
    ¬ ∀ (events : List Event) (p : Slot) (k : Key) (cost : ℤ),
      (((node false).after events).sessions p).active = true →
      k ∉ (config false).ownKeys → 0 ≤ cost →
      ((∃ a ∈ (((node false).after events).peers p).adv.advs, a.key = k ∧ a.lastRtt = cost) ↔
        lastCost (config false) (((node false).after events).peers p).wire k = some cost) := by
  intro hall
  have hrun := hall [record 0 0x4B 4095] 1 (dest 0x4B) 4097
  revert hrun
  decide +kernel

end View

end FlexNet
