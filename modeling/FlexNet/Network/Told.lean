import FlexNet.Lib.DistanceVector
import FlexNet.Network.Writes
import FlexNet.Advert.Options
import FlexNet.Setup.OwnRecords

/-!
# A node tells what it heard

A finite cost in a frame of a node is for a destination of its own, or for one it heard of, and is
at least one more than a cost it heard, up to the largest cost of the wire.  `Node.Honest` is the
invariant, over any notion `heard` of what the node was told: the learned tables hold heard costs,
and the queue and the frames of every peer hold `Tellable` ones.  `told_heard` takes for `heard`
what the frames, the rows and the declared links of a run say.
-/

namespace FlexNet

open DistanceVector

/-! ## What is heard and what is told -/

/-- A station is met: its address is one, and it is heard of at cost 1. -/
def Meets (heard : Callsign → ℤ → Prop) (a : AxCall) : Prop :=
  ∃ base ssid, a.Names base ssid ∧ heard (.ofCStr base) 1

/-- A call one of the node's own records is about. -/
def Config.Owns (cfg : Config) (c : Callsign) : Prop :=
  ∃ k ∈ cfg.ownRecords, k.call = c

/-- What the node may tell. -/
def Config.Tells (cfg : Config) (heard : Callsign → ℤ → Prop) (c : Callsign) (cost : ℤ) : Prop :=
  Tellable cfg.Owns heard rttWireMax c cost

/-- The finite costs of a frame are told. -/
def Says (told : Callsign → ℤ → Prop) (data : CStr) : Prop :=
  ∀ r ∈ flexParseCompactRecords data 64, r.rtt < rttInfinity → told r.key.call r.rtt

/-- An entry of a peer's table, when what it has queued is told. -/
structure AdvRoute.Honest (told : Callsign → ℤ → Prop) (a : AdvRoute) : Prop where
  encodable : a.key.Encodable
  queued : a.pending = true → a.pendingRtt < rttInfinity → told a.key.call a.pendingRtt

/-- A peer whose queue and frames hold nothing but what is told. -/
structure Peer.Honest (told : Callsign → ℤ → Prop) (x : Peer) : Prop where
  sound : x.adv.Sound
  entries : ∀ a ∈ x.adv.advs, a.Honest told
  sent : ∀ data, .frame pidCE data ∈ x.wire → Says told data

/-- What a learned route says is heard. -/
structure LearnedRoute.Honest (heard : Callsign → ℤ → Prop) (lr : LearnedRoute) : Prop where
  encodable : lr.key.Encodable
  heard : 0 < lr.rttAtNeighbour → lr.rttAtNeighbour < rttInfinity →
    heard lr.key.call lr.rttAtNeighbour

/-- A node that knows what it heard, and tells no more. -/
structure Node.Honest (heard : Callsign → ℤ → Prop) (n : Node) : Prop where
  hosts : ∃ base ssid, n.cfg.Hosts base ssid
  rows : ∀ l, (n.links l).linkCall.isEmpty = false → Meets heard (n.links l).linkCall
  declared : ∀ a ∈ n.portLinks.map PortLink.axcall, Meets heard a
  ranges : ∀ s, 0 ≤ (n.sessions s).peerMaxSsid ∧ (n.sessions s).peerMaxSsid ≤ 15
  learned : ∀ s, ∀ lr ∈ (n.learned s).routes, lr.Honest heard
  peers : ∀ p, (n.peers p).Honest (n.cfg.Tells heard)

/-- What an event brings is heard: the stations BPQ writes into its rows, and the costs of a
frame. -/
structure Event.Heard (heard : Callsign → ℤ → Prop) (e : Event) : Prop where
  rows : ∀ l x, e = .row l x → x.linkCall.isEmpty = false → Meets heard x.linkCall
  frames : ∀ l data, e.frame = some (l, data) → ∀ r ∈ flexParseCompactRecords data 64,
    0 < r.rtt → r.rtt < rttInfinity → heard r.key.call r.rtt

/-! ## Records of any frame -/

/-- Whatever octets come in, a record that is accepted could have been sent. -/
theorem encodable_parseRecord {withdrawal : Bool} {p rest : CStr} {r : Record}
    (h : parseRecord withdrawal (p.dropWhile (· == 0x20)) = some (r, rest))
    (hnul : ∀ b ∈ p, b ≠ 0) : r.key.Encodable ∧ rest <:+ p.dropWhile (· == 0x20) := by
  have hssid : ∀ b, 0 ≤ parseSsid b ∧ parseSsid b ≤ 15 := fun b => by
    unfold parseSsid
    split_ifs <;> omega
  have hfirst : ∀ c text, p.dropWhile (· == 0x20) = c :: text → c ≠ 0x20 := by
    intro c text htext
    have := List.head?_dropWhile_not (· == 0x20) p
    rw [htext] at this
    simpa using this
  have hsub : ∀ b ∈ p.dropWhile (· == 0x20), b ≠ 0 := fun b hb =>
    hnul b ((List.dropWhile_suffix _).subset hb)
  generalize p.dropWhile (· == 0x20) = q at h hfirst hsub
  unfold parseRecord at h
  split at h
  · cases h
  rename_i c text
  split at h
  · cases h
  rename_i hend
  split at h
  · cases h
  extract_lets call digits rtt at h
  obtain ⟨rfl, rfl⟩ := Prod.mk.inj (Option.some.inj h)
  have hlen : (((c :: text).take 6).filter (· != 0x20)).length ≤ 6 :=
    (List.length_filter_le _ _).trans (by simp)
  have hbytes : (Callsign.ofCStr (((c :: text).take 6).filter (· != 0x20))).bytes =
      ((c :: text).take 6).filter (· != 0x20) :=
    List.take_of_length_le (by unfold maxCallsign; omega)
  refine ⟨⟨?_, ?_, ?_, hssid _, hssid _⟩, ?_⟩
  · rw [hbytes]
    exact hlen
  · rw [hbytes]
    intro b hb
    obtain ⟨hmem, hblank⟩ := List.mem_filter.mp hb
    exact ⟨by simpa using hblank, hsub b (List.mem_of_mem_take hmem)⟩
  · rw [hbytes]
    have hc := hfirst c text rfl
    refine ⟨c, ?_, not_or.mp hend⟩
    rw [List.take_succ_cons, List.filter_cons_of_pos (by simpa using hc)]
    rfl
  · exact (List.dropWhile_suffix _).trans (List.drop_suffix _ _)

theorem encodable_parseRecords {withdrawal : Bool} {max : ℕ} {p : CStr} {r : Record}
    (hnul : ∀ b ∈ p, b ≠ 0) (h : r ∈ parseRecords withdrawal max p) : r.key.Encodable := by
  induction max generalizing p with
  | zero => cases h
  | succ max ih =>
      unfold parseRecords at h
      split at h
      · cases h
      · rename_i first rest hfirst
        obtain ⟨hencodable, hsuffix⟩ := encodable_parseRecord hfirst hnul
        rcases List.mem_cons.mp h with rfl | h
        · exact hencodable
        · refine ih (fun b hb => hnul b ?_) h
          exact (List.dropWhile_suffix _).subset (hsuffix.subset hb)

/-- The records of a received frame could have been sent. -/
theorem encodable_flexParseCompactRecords {data : CStr} {max : ℕ} {r : Record}
    (h : r ∈ flexParseCompactRecords data max) : r.key.Encodable := by
  unfold flexParseCompactRecords at h
  split at h
  · split_ifs at h
    · cases h
    rename_i payload _
    extract_lets text withdrawal body at h
    have htext : ∀ b ∈ text, b ≠ 0 := fun b hb => by
      have hmem := (List.rdropWhile_prefix _ _).subset hb
      simpa using List.mem_takeWhile_imp hmem
    refine encodable_parseRecords (fun b hb => htext b ?_) h
    have hbody := (List.rdropWhile_prefix _ _).subset hb
    split_ifs at hbody
    · exact List.mem_of_mem_dropLast hbody
    · exact hbody
  · cases h

/-! ## One peer -/

section

variable {told : Callsign → ℤ → Prop} {x y : Peer} {a : AdvRoute}

theorem AdvRoute.Honest.unqueue (h : a.Honest told) : { a with pending := false }.Honest told :=
  ⟨h.encodable, fun hq => by cases hq⟩

theorem AdvRoute.Honest.commit {now : ℤ} (h : a.Honest told) : (a.commit now).Honest told :=
  ⟨h.encodable, fun hq => by cases hq⟩

theorem AdvRoute.Honest.congr {b : AdvRoute} (h : a.Honest told) (hs : b.SameRecord a) :
    b.Honest told := by
  refine ⟨hs.key ▸ h.encodable, ?_⟩
  rw [hs.pending, hs.pendingRtt, hs.key]
  exact h.queued

/-- The threshold queues a cost that is told, or the sentinel. -/
theorem AdvRoute.Honest.settle {force : Bool} {cost penalty : ℤ} (h : a.Honest told)
    (hcost : cost < rttInfinity → told a.key.call cost) :
    (settle force cost penalty a).Honest told := by
  rcases settle_cases force cost penalty a with ⟨-, heq⟩ | ⟨-, -, heq⟩ <;> rw [heq]
  · exact ⟨h.encodable, fun _ hlt => hcost hlt⟩
  · exact h

theorem AdvRoute.Honest.decideEntry {force direct : Bool} {cost penalty : ℤ} (h : a.Honest told)
    (hpen : 0 ≤ penalty) (hcost : cost < rttInfinity → told a.key.call cost) :
    (decideEntry force direct cost penalty a).Honest told := by
  have hinf : rttInfinity < rttInfinity → told a.key.call rttInfinity := fun hlt =>
    absurd hlt (lt_irrefl _)
  rcases decideEntry_cases force direct cost penalty a hpen with ⟨-, heq⟩ | ⟨-, -, -, -, heq⟩ |
      ⟨-, -, -, -, a', hs, -, heq⟩ | ⟨-, -, -, a', hs, -, heq⟩ <;> rw [heq]
  · exact h.settle hcost
  · split_ifs
    · exact h.settle hinf
    · exact h.unqueue
  · exact (h.congr hs).settle (by rwa [hs.key])
  · exact (h.congr hs).settle (by rwa [hs.key])

namespace Peer

/-- A peer with the same table and no new frames. -/
theorem Honest.congr (h : x.Honest told) (hadvs : y.adv.advs = x.adv.advs)
    (hwire : ∀ pid data, .frame pid data ∈ y.wire → .frame pid data ∈ x.wire) : y.Honest told where
  sound := h.sound.congr hadvs
  entries := fun a ha => h.entries a (hadvs ▸ ha)
  sent := fun data hdata => h.sent data (hwire _ data hdata)

/-- One more frame, which tells what may be told. -/
theorem Honest.flexSendFrame {e : Env} {p : Slot} {pid : UInt8} {data : CStr} (h : x.Honest told)
    (hdata : pid = pidCE → Says told data) : (e.flexSendFrame p pid data x).Honest told where
  sound := h.sound
  entries := h.entries
  sent := fun data' hmem => by
    unfold Env.flexSendFrame at hmem
    dsimp only at hmem
    split_ifs at hmem
    · rcases List.mem_append.mp hmem with hmem | hmem
      · exact h.sent data' hmem
      · obtain ⟨rfl, rfl⟩ := WireEvent.frame.inj (List.mem_singleton.mp hmem)
        exact hdata rfl
    · exact h.sent data' hmem

end Peer

theorem saysOnly_of_ne {data : CStr} (h : data.head? ≠ some 0x33) : Says told data := by
  intro r hr
  unfold flexParseCompactRecords at hr
  split at hr
  · exact absurd rfl h
  · cases hr

theorem saysOnly_releaseToken : Says told releaseToken := by
  have hnone : flexParseCompactRecords releaseToken 64 = [] := by decide
  intro r hr
  rw [hnone] at hr
  cases hr

/-- A frame of queued entries tells their costs, clamped to the wire. -/
theorem saysOnly_picks {picks : List AdvRoute} (hclamp : ∀ c cost, told c cost →
      told c (min cost rttWireMax)) (hne : picks ≠ []) (hlen : picks.length ≤ 20)
    (hpicks : ∀ a ∈ picks, a.Honest told ∧ a.Sound ∧ a.pending = true) :
    Says told (recordsFrame (pickRecords picks)) := by
  have hne' : pickRecords picks ≠ [] := by simpa [pickRecords] using hne
  have hlen' : (pickRecords picks).length ≤ 20 := by simpa [pickRecords] using hlen
  have hsend : Sendable (pickRecords picks) := by
    intro r hr
    obtain ⟨a, ha, rfl⟩ := List.mem_map.mp hr
    obtain ⟨hhonest, hsound, hq⟩ := hpicks a ha
    exact ⟨hhonest.encodable, hsound.queued hq⟩
  intro r hr hlt
  rw [parse_recordsFrame hne' hsend (by omega) (by omega)] at hr
  obtain ⟨kc, hkc, rfl⟩ := List.mem_map.mp hr
  obtain ⟨a, ha, rfl⟩ := List.mem_map.mp hkc
  obtain ⟨hhonest, hsound, hq⟩ := hpicks a ha
  -- the record carries the queued cost, or the largest cost of the wire
  have hcost :
      wireCost a.pendingRtt = min a.pendingRtt rttWireMax ∧ a.pendingRtt < rttInfinity := by
    have hle := (hsound.queued hq).2
    simp only [readBack] at hlt
    unfold wireCost rttWireMax rttInfinity at *
    split_ifs at hlt ⊢ <;> omega
  have htold := hclamp _ _ (hhonest.queued hq hcost.2)
  rwa [← hcost.1] at htold

namespace Env

variable {e : Env} {p : Slot} {isPcf : Bool}

theorem honest_emitFrame (hclamp : ∀ c cost, told c cost → told c (min cost rttWireMax))
    (h : x.Honest told) : (e.emitFrame p isPcf x).1.Honest told := by
  have hentries : _ ∧ ∀ b ∈ (e.emitFrame p isPcf x).1.adv.advs,
      b ∈ x.adv.advs ∨ ∃ a ∈ x.adv.advs, a.pending = true ∧ b = a.commit e.now :=
    View.emit_entries h.sound
  have hkept : ∀ b ∈ (e.emitFrame p isPcf x).1.adv.advs, b.Honest told := by
    intro b hb
    rcases hentries.2 b hb with hb | ⟨a, ha, -, rfl⟩
    · exact h.entries b hb
    · exact (h.entries a ha).commit
  refine ⟨hentries.1, hkept, ?_⟩
  rcases e.emitFrame_cases p isPcf h.sound with ⟨-, heq⟩ | ⟨picks, st, hne, hlen, hpacked, heq⟩
  · rw [heq]
    exact h.sent
  · have hframe : Says told (recordsFrame (pickRecords picks)) := by
      refine saysOnly_picks hclamp hne hlen fun a ha => ?_
      obtain ⟨hmem, hq⟩ := hpacked.picked a ha
      exact ⟨h.entries a hmem, h.sound.entries a hmem, hq⟩
    have hpeer : ({ x with adv := { x.adv with tokens := st.tokens - 1 } } : Peer).Honest told :=
      h.congr rfl fun _ _ hmem => hmem
    rw [heq]
    exact (hpeer.flexSendFrame fun _ => hframe).sent

theorem honest_drainFrames (hclamp : ∀ c cost, told c cost → told c (min cost rttWireMax))
    (turns : ℕ) (h : x.Honest told) : (e.drainFrames p isPcf turns x).1.Honest told := by
  induction turns generalizing x with
  | zero => exact h
  | succ turns ih =>
      have hemit : (e.emitFrame p isPcf x).1.Honest told := honest_emitFrame hclamp h
      unfold drainFrames
      rcases hresult : e.emitFrame p isPcf x with ⟨y, _ | _⟩
      · rwa [hresult] at hemit
      · rw [hresult] at hemit
        exact ih hemit

theorem honest_drainEob {frames : ℕ} (h : x.Honest told) :
    (e.drainEob p isPcf frames x).Honest told := by
  refine ⟨h.sound.congr View.drainEob_advs, ?_, ?_⟩
  · rw [View.drainEob_advs]
    exact h.entries
  · intro data hdata
    rcases View.drainEob_wire e isPcf frames x with hwire | hwire
    · exact h.sent data (by rwa [hwire] at hdata)
    · rw [hwire] at hdata
      rcases List.mem_append.mp hdata with hdata | hdata
      · exact h.sent data hdata
      · obtain ⟨-, rfl⟩ := WireEvent.frame.inj (List.mem_singleton.mp hdata)
        exact saysOnly_releaseToken

theorem honest_flexAdvertiseDrain (hclamp : ∀ c cost, told c cost → told c (min cost rttWireMax))
    (h : x.Honest told) : (e.flexAdvertiseDrain p x).Honest told := by
  unfold flexAdvertiseDrain
  split_ifs
  · exact h
  · exact h
  · extract_lets isPcf y turns
    have hy : y.Honest told := h.congr AdvertisedState.advs_refill fun _ _ hmem => hmem
    have hframes : (e.drainFrames p isPcf turns y).1.Honest told :=
      honest_drainFrames hclamp turns hy
    generalize e.drainFrames p isPcf turns y = r at hframes ⊢
    obtain ⟨z, frames⟩ := r
    exact honest_drainEob hframes

/-- A check queues what may be told, and enters only destinations a record can carry. -/
theorem honest_flexAdvertiseCheck {k : Key} {force : Bool}
    (hoffer : (e.expectedRtt p k).rtt < rttInfinity →
      k.Encodable ∧ told k.call (e.expectedRtt p k).rtt) (h : x.Honest told) :
    (e.flexAdvertiseCheck p k force x).Honest told := by
  have hsound : (e.flexAdvertiseCheck p k force x).adv.Sound := sound_check h.sound
  rcases e.flexAdvertiseCheck_cases p k force x with heq | ⟨b, heq, hb, -, hent⟩
  · rwa [heq]
  rw [heq] at hsound ⊢
  have hfind : ∀ a, x.adv.find k = some a → a.Honest told ∧ a.key = k := fun a ha =>
    ⟨h.entries a (AdvertisedState.mem_of_find ha), AdvertisedState.find_key ha⟩
  have hcost : (e.checkInput p k).cost < rttInfinity →
      k.Encodable ∧ told k.call (e.checkInput p k).cost := by
    intro hlt
    unfold CheckInput.cost at hlt ⊢
    split_ifs at hlt ⊢
    · exact absurd hlt (lt_irrefl _)
    · exact hoffer hlt
  have hentry : b.Honest told := by
    rcases checkEntry_cases hent with ⟨hfound, -⟩ | ⟨a, hfound, rfl, -⟩ | ⟨rfl, -, hsrc, -⟩
    · exact (hfind b hfound).1
    · exact (hfind a hfound).1.unqueue
    · cases hfound : x.adv.find k with
      | some a =>
          obtain ⟨ha, rfl⟩ := hfind a hfound
          exact ha.decideEntry checkInput_penalty fun hlt => (hcost hlt).2
      | none =>
          -- a new entry has a source
          rw [hfound, Option.getD_none] at hsrc
          have hsome : (e.checkInput p k).expected.src ≠ none := fun hnone => by
            have htold := hsrc hnone
            simp [AdvRoute.toldFinite, AdvRoute.fresh] at htold
          have hlt : (e.expectedRtt p k).rtt < rttInfinity :=
            expectedRtt_lt_iff.mpr (expectedRtt_src_isSome.mp (Option.isSome_iff_ne_none.mpr hsome))
          have hfresh : (AdvRoute.fresh k).Honest told :=
            ⟨(hoffer hlt).1, fun hq => by cases hq⟩
          exact hfresh.decideEntry checkInput_penalty fun hlt => (hcost hlt).2
  refine ⟨hsound, fun a ha => ?_, h.sent⟩
  rcases KeyedTable.mem_store ha with rfl | ha
  · exact hentry
  · exact h.entries a ha

end Env

end

/-! ## The node -/

namespace Node

variable {heard : Callsign → ℤ → Prop} {e : Event} {c : Scope} {n m : Node} {s p : Slot} {k : Key}

theorem tells_clamp {cfg : Config} (c : Callsign) (cost : ℤ) (h : cfg.Tells heard c cost) :
    cfg.Tells heard c (min cost rttWireMax) := Tellable.clamp h (by decide)

/-- What the node would tell a peer costs one more than what it heard. -/
theorem Honest.expectedRtt (h : n.Honest heard) (hlt : (n.expectedRtt p k).rtt < rttInfinity) :
    k.Encodable ∧ n.cfg.Tells heard k.call (n.expectedRtt p k).rtt := by
  obtain ⟨-, si, o, -, hoffer, heq⟩ := Env.expectedRtt_source hlt
  rw [heq]
  unfold Env.offer at hoffer
  split at hoffer
  · cases hoffer
  rename_i lr hfind
  split_ifs at hoffer with hrtt
  obtain ⟨hpos, hfin⟩ := not_or.mp hrtt
  obtain rfl : lr.key = k := KeyedTable.lookup_key hfind
  have hroute := h.learned si lr (KeyedTable.mem_of_lookup hfind)
  cases hoffer
  refine ⟨hroute.encodable, .inr ⟨_, hroute.heard (not_le.mp hpos) (not_le.mp hfin), ?_⟩⟩
  set raw := min (lr.rttAtNeighbour + max 1 (n.sessions si).ourLinkTime) (rttInfinity - 1) with hraw
  have hle : lr.rttAtNeighbour + 1 ≤ raw ∨ rttWireMax ≤ raw := by
    unfold rttWireMax rttInfinity at *
    omega
  have hcost : raw ≤ flexLinkOptsCost (n.linkOpts si) raw := by
    refine (flexLinkOptsCost_bounds _ ?_ ?_).1 <;> unfold rttInfinity at * <;> omega
  dsimp only
  omega

/-- A neighbour's entry with a callsign is for a station that has a row. -/
theorem link_of_neighbourKey (hcall : (n.neighbourKey s).call.isEmpty = false) :
    ∃ l, (n.sessions s).link = some l ∧ (n.links l).linkCall.isEmpty = false := by
  have hnone : n.sessPeerCall s = [] → (n.neighbourKey s).call.isEmpty = true := fun hnil => by
    simp [Node.neighbourKey, hnil, splitFirstDash, Callsign.ofCStr, Callsign.isEmpty]
  unfold Env.sessPeerCall at hnone
  cases hlink : (n.sessions s).link with
  | none =>
      rw [hlink] at hnone
      rw [hnone rfl] at hcall
      cases hcall
  | some l =>
      rw [hlink] at hnone
      refine ⟨l, rfl, ?_⟩
      cases hrow : (n.links l).linkCall.isEmpty with
      | false => rfl
      | true =>
          rw [hnone (flexNormalizeCallsign_of_isEmpty hrow)] at hcall
          cases hcall

/-- A record can carry a base with SSIDs of four bits. -/
theorem encodable_of_isBase {base : CStr} {lo hi : ℤ} (hbase : IsBase base)
    (hlo : 0 ≤ lo ∧ lo ≤ 15) (hhi : 0 ≤ hi ∧ hi ≤ 15) :
    Key.Encodable ⟨.ofCStr base, lo, hi⟩ := by
  have hbytes := Config.ofCStr_of_isBase hbase
  have hstation := hbase.alnum
  refine ⟨?_, ?_, ?_, hlo, hhi⟩
  · rw [hbytes]
    exact hbase.short
  · rw [hbytes]
    exact fun b hb => ⟨(ne_of_isAlnum (hstation b hb)).1, (ne_of_isAlnum (hstation b hb)).2.1⟩
  · rw [hbytes]
    obtain ⟨b, rest, rfl⟩ := List.exists_cons_of_ne_nil hbase.nonempty
    exact ⟨b, rfl, (ne_of_isAlnum (hstation b List.mem_cons_self)).2.2⟩

/-- The neighbour's own entry is for a station that was met. -/
theorem Honest.neighbourKey (h : n.Honest heard)
    (hcall : (n.neighbourKey s).call.isEmpty = false) :
    (n.neighbourKey s).Encodable ∧ heard (n.neighbourKey s).call 1 := by
  obtain ⟨l, hlink, hrow⟩ := link_of_neighbourKey hcall
  obtain ⟨base, ssid, hnames, hheard⟩ := h.rows l hrow
  have hle := hnames.ssid_le
  have hadopted : 0 ≤ n.adoptedHi s (.ofCStr base) ssid ∧
      n.adoptedHi s (.ofCStr base) ssid ≤ 15 := by
    unfold adoptedHi
    cases hfind : (n.learned s).routes.find? _ with
    | none =>
        rw [Option.map_none, Option.getD_none]
        omega
    | some lr => exact (h.learned s lr (List.mem_of_find?_eq_some hfind)).encodable.hi
  have hrange := h.ranges s
  rw [Config.neighbourKey_names hlink hnames]
  refine ⟨encodable_of_isBase hnames.isBase (by omega) ?_, hheard⟩
  split_ifs <;> omega

/-- What is known of an event is heard. -/
structure Scope.Heard (heard : Callsign → ℤ → Prop) (c : Scope) : Prop where
  rows : ∀ l x, c.event = .row l x → x.linkCall.isEmpty = false → Meets heard x.linkCall
  records : ∀ s, ∀ r ∈ c.heard s, r.key.Encodable ∧
    (0 < r.rtt → r.rtt < rttInfinity → heard r.key.call r.rtt)

theorem Scope.Heard.of_event (n : Node) (he : e.Heard heard) : (n.scope e).Heard heard where
  rows := he.rows
  records := fun s r hr => by
    change r ∈ n.heardBy s e at hr
    unfold heardBy at hr
    split_ifs at hr
    · cases hframe : e.frame with
      | none =>
          rw [hframe] at hr
          cases hr
      | some frame =>
          obtain ⟨l, data⟩ := frame
          rw [hframe] at hr
          have hmem : r ∈ flexParseCompactRecords data 64 := by
            change r ∈ frameRecords n.cfg data at hr
            unfold frameRecords at hr
            split_ifs at hr
            · exact hr
            · cases hr
          exact ⟨encodable_flexParseCompactRecords hmem, he.frames l data hframe r hmem⟩
    · cases hr

/-- A record that is heard at a session may be entered. -/
theorem Honest.hears (h : n.Honest heard) (he : c.Heard heard) {r : Record}
    {lr : LearnedRoute} (hr : n.Hears c s r) (hcall : r.key.call.isEmpty = false)
    (hkey : lr.key = r.key) (hrtt : lr.rttAtNeighbour = r.rtt) : lr.Honest heard := by
  rcases hr with hmem | rfl
  · obtain ⟨hencodable, hheard⟩ := he.records s r hmem
    refine ⟨hkey ▸ hencodable, ?_⟩
    rw [hkey, hrtt]
    exact hheard
  · obtain ⟨hencodable, hheard⟩ := h.neighbourKey hcall
    refine ⟨hkey ▸ hencodable, fun _ _ => ?_⟩
    rw [hkey, hrtt]
    exact hheard

/-- One peer changes. -/
theorem Honest.setPeer (h : n.Honest heard) {x : Peer} (hx : x.Honest (n.cfg.Tells heard)) :
    (n.setPeer p x).Honest heard where
  hosts := h.hosts
  rows := h.rows
  declared := h.declared
  ranges := h.ranges
  learned := h.learned
  peers := fun i => by
    by_cases hi : i = p
    · subst hi
      rw [setPeer_peers_self]
      exact hx
    · rw [setPeer_peers_of_ne n x hi]
      exact h.peers i

/-- The own frame says what the node owns. -/
theorem Honest.saysOnly_ownFrame (h : n.Honest heard) {frame : CStr}
    (hframe : n.cfg.ownFrame = some frame) : Says (n.cfg.Tells heard) frame := by
  obtain ⟨base, ssid, hhosts⟩ := h.hosts
  have hbase : n.cfg.ownBaseCall.1 ≠ [] := by
    rw [Config.ownBaseCall_names hhosts.myCall]
    exact hhosts.myCall.isBase.nonempty
  rw [Config.ownFrame_eq hbase hhosts.listed] at hframe
  cases hframe
  intro r hr _
  rw [hhosts.parse_ownFrame] at hr
  obtain ⟨k, hk, rfl⟩ := List.mem_map.mp hr
  exact .inl ⟨⟨k, hk, rfl⟩, le_rfl⟩

theorem Honest.ownRoutes (h : n.Honest heard) (deferEob : Bool) :
    (n.flexSendOwnRoutes p deferEob).Honest heard := by
  refine h.setPeer ?_
  unfold Env.flexSendOwnRoutes
  extract_lets x
  have hx : x.Honest (n.cfg.Tells heard) := by
    unfold x
    split
    · exact h.peers p
    · rename_i frame hframe
      exact (h.peers p).flexSendFrame fun _ => h.saysOnly_ownFrame hframe
  split_ifs
  · exact hx
  · exact hx.flexSendFrame fun _ => saysOnly_releaseToken

/-- A route of some learned table is heard. -/
theorem Honest.inTable (h : n.Honest heard) {lr : LearnedRoute} (hlr : n.InTable lr) :
    lr.Honest heard := by
  obtain ⟨i, lr', hmem, hkey, hrtt⟩ := hlr
  have hold := h.learned i lr' hmem
  refine ⟨hkey ▸ hold.encodable, ?_⟩
  rw [← hkey, ← hrtt]
  exact hold.heard

/-- A learned table is written with what is heard. -/
theorem Honest.setLearned (h : n.Honest heard) {st : LearnedState}
    (hst : ∀ lr ∈ st.routes, lr.Honest heard) : (n.setLearned s st).Honest heard where
  hosts := h.hosts
  rows := h.rows
  declared := h.declared
  ranges := h.ranges
  learned := fun i lr hlr => by
    by_cases hi : i = s
    · subst hi
      exact hst lr (by simpa [Node.setLearned] using hlr)
    · rw [show (n.setLearned s st).learned i = n.learned i from Function.update_of_ne hi ..] at hlr
      exact h.learned i lr hlr
  peers := h.peers

/-- A session is written with a range its peer may declare. -/
theorem Honest.setSession (h : n.Honest heard) {x : Session}
    (hx : 0 ≤ x.peerMaxSsid ∧ x.peerMaxSsid ≤ 15) : (n.setSession s x).Honest heard where
  hosts := h.hosts
  rows := h.rows
  declared := h.declared
  ranges := fun i => by
    by_cases hi : i = s
    · subst hi
      rw [setSession_sessions_self]
      exact hx
    · rw [setSession_sessions_of_ne n x hi]
      exact h.ranges i
  learned := h.learned
  peers := h.peers

/-- What one write preserves. -/
theorem Honest.write (h : n.Honest heard) (he : c.Heard heard) (hwrite : n.Write c m) :
    m.Honest heard := by
  cases hwrite with
  | other hsame =>
      refine ⟨hsame.cfg ▸ h.hosts, fun l hl => ?_, hsame.declared ▸ h.declared, fun s => ?_,
        fun s lr hlr => ?_, fun p => ?_⟩
      · rw [hsame.linkCall] at hl ⊢
        exact h.rows l hl
      · rw [hsame.peerMaxSsid]
        exact h.ranges s
      · rw [hsame.routes] at hlr
        exact h.learned s lr hlr
      · rw [hsame.cfg]
        exact (h.peers p).congr (hsame.peers p).1 fun _ _ hmem => (hsame.peers p).2 ▸ hmem
  | declare s x hx => exact h.setSession hx
  | down s x hx =>
      refine h.setSession ?_
      rcases hx with hx | hx
      · rw [hx]
        exact h.ranges s
      · exact hx
  | row l x hx =>
      refine ⟨h.hosts, fun i hi => ?_, h.declared, h.ranges, h.learned, h.peers⟩
      by_cases hil : i = l
      · subst hil
        rw [show ((n.setLink i x).links i) = x from Function.update_self ..] at hi ⊢
        rcases hx with hrow | ⟨pl, hpl, hcall⟩
        · exact he.rows i x hrow hi
        · rw [hcall]
          exact h.declared _ (List.mem_map_of_mem hpl)
      · rw [show (n.setLink l x).links i = n.links i from Function.update_of_ne hil ..] at hi ⊢
        exact h.rows i hi
  | hear s st r hr hcall hst =>
      refine h.setLearned fun lr hlr => ?_
      rcases hst lr hlr with hold | ⟨hkey, hrtt⟩
      · exact h.inTable hold
      · exact h.hears he hr hcall hkey hrtt
  | hand s st hst => exact h.setLearned fun lr hlr => h.inTable (hst lr hlr)
  | keep s st hst => exact h.setLearned fun lr hlr => h.inTable (hst lr hlr)
  | check p k force => exact h.setPeer (Env.honest_flexAdvertiseCheck h.expectedRtt (h.peers p))
  | drain p => exact h.setPeer (Env.honest_flexAdvertiseDrain tells_clamp (h.peers p))
  | own p deferEob => exact h.ownRoutes deferEob
  | send p pid data hdata =>
      exact h.setPeer ((h.peers p).flexSendFrame fun hpid => saysOnly_of_ne (hdata hpid))
  | clear p =>
      refine h.setPeer ⟨.empty, fun a ha => absurd ha List.not_mem_nil, fun data hdata => ?_⟩
      rcases List.mem_append.mp hdata with hdata | hdata
      · exact (h.peers p).sent data hdata
      · cases List.mem_singleton.mp hdata

/-- What one event preserves. -/
theorem Honest.event (h : n.Honest heard) (he : e.Heard heard) : (n.event e).Honest heard :=
  (n.event_writes e).invariant (fun _ _ hn hwrite => hn.write (Scope.Heard.of_event n he) hwrite) h

/-- What a run preserves. -/
theorem Honest.after (h : n.Honest heard) (es : List Event) (hes : ∀ e ∈ es, e.Heard heard) :
    (n.after es).Honest heard := by
  induction es generalizing n with
  | nil => exact h
  | cons e es ih =>
      exact ih (h.event (hes e List.mem_cons_self)) fun e' he' =>
        hes e' (List.mem_cons_of_mem e he')

end Node

/-! ## What a run brings -/

namespace Node

/-- The addresses a node meets in a run: of its rows and declared links, and of the rows BPQ
writes. -/
def Met (n : Node) (es : List Event) (a : AxCall) : Prop :=
  a.isEmpty = false ∧ ((∃ l, (n.links l).linkCall = a) ∨ (∃ pl ∈ n.portLinks, pl.axcall = a) ∨
    ∃ e ∈ es, ∃ l x, e = .row l x ∧ x.linkCall = a)

/-- The costs a node hears in a run: those of the frames it receives, and 1 for the stations it
meets. -/
def HeardIn (n : Node) (es : List Event) (c : Callsign) (cost : ℤ) : Prop :=
  (∃ e ∈ es, ∃ l data, e.frame = some (l, data) ∧
    ∃ r ∈ flexParseCompactRecords data 64, r.key.call = c ∧ r.rtt = cost ∧ 0 < cost) ∨
  (cost = 1 ∧ ∃ a base ssid, n.Met es a ∧ a.Names base ssid ∧ c = .ofCStr base)

theorem meets_of_met {n : Node} {es : List Event} {a : AxCall} (hmet : n.Met es a)
    (hnames : ∀ a, n.Met es a → ∃ base ssid, a.Names base ssid) : Meets (n.HeardIn es) a := by
  obtain ⟨base, ssid, hname⟩ := hnames a hmet
  exact ⟨base, ssid, hname, .inr ⟨rfl, a, base, ssid, hmet, hname, rfl⟩⟩

variable {cfg : Config} {axipPorts : List AxipPort} {portLinks : List PortLink}
  {links : LinkId → Link} {now : ℤ} {es : List Event}

/-- A node that has just booted has told nothing. -/
theorem honest_boot {heard : Callsign → ℤ → Prop} (hhosts : ∃ base ssid, cfg.Hosts base ssid)
    (hrows : ∀ l, (links l).linkCall.isEmpty = false → Meets heard (links l).linkCall)
    (hdeclared : ∀ pl ∈ portLinks, Meets heard pl.axcall) :
    (boot cfg axipPorts portLinks links now).Honest heard where
  hosts := hhosts
  rows := hrows
  declared := fun a ha => by
    obtain ⟨pl, hpl, rfl⟩ := List.mem_map.mp ha
    exact hdeclared pl hpl
  ranges := fun _ => ⟨le_rfl, Int.zero_le_ofNat 15⟩
  learned := fun _ _ hlr => absurd hlr List.not_mem_nil
  peers := fun _ => ⟨.empty, fun _ ha => absurd ha List.not_mem_nil,
    fun _ hdata => absurd hdata List.not_mem_nil⟩

/-- In every run, whatever is received in whatever order: a finite cost in a frame a node has queued
is for a call of its own, or for one it heard of, and then it is at least one more than a cost it
heard, up to the largest cost of the wire. -/
theorem told_heard (hhosts : ∃ base ssid, cfg.Hosts base ssid)
    (hdeclared : ∀ pl ∈ portLinks, pl.axcall.isEmpty = false)
    (hnames : ∀ a, (boot cfg axipPorts portLinks links now).Met es a →
      ∃ base ssid, a.Names base ssid)
    (p : Slot) {data : CStr}
    (hdata : .frame pidCE data ∈
      (((boot cfg axipPorts portLinks links now).after es).peers p).wire)
    {r : Record} (hr : r ∈ flexParseCompactRecords data 64) (hfin : r.rtt < rttInfinity) :
    cfg.Tells ((boot cfg axipPorts portLinks links now).HeardIn es) r.key.call r.rtt := by
  set n := boot cfg axipPorts portLinks links now with hn
  have hboot : n.Honest (n.HeardIn es) := by
    refine honest_boot hhosts (fun l hl => ?_) (fun pl hpl => ?_)
    · exact meets_of_met ⟨hl, .inl ⟨l, rfl⟩⟩ hnames
    · exact meets_of_met ⟨hdeclared pl hpl, .inr (.inl ⟨pl, hpl, rfl⟩)⟩ hnames
  have hes : ∀ e ∈ es, e.Heard (n.HeardIn es) := fun e he =>
    ⟨fun l x hrow hx => meets_of_met ⟨hx, .inr (.inr ⟨e, he, l, x, hrow, rfl⟩)⟩ hnames,
      fun l data hframe r hr hpos _ => .inl ⟨e, he, l, data, hframe, r, hr, rfl, rfl, hpos⟩⟩
  have hend := hboot.after es hes
  have hcfg : (n.after es).cfg = cfg := n.after_cfg (fun _ hup => by cases hup) es
  have hframe := (hend.peers p).sent data hdata r hr hfin
  rwa [hcfg] at hframe

end Node

namespace Bench

/-- `A` and `B` are greeted, and `A` tells of `K` at cost 10. -/
def toldOfK : List Event := [.initSession 0 1, .initSession 1 1, record 0 0x4B 10]

theorem hosts_config (pcfQuiesce : Bool) : (config pcfQuiesce).Hosts [0x4E] 0 where
  myCall := names_addr (by decide)
  range := fun _ _ hrange => by cases hrange
  listed := .nil
  offRange := fun _ hl => by cases hl

theorem met_toldOfK {a : AxCall} (h : (Node.boot (config false) [] [] links 1000).Met toldOfK a) :
    ∃ base ssid, a.Names base ssid := by
  obtain ⟨hnamed, ⟨l, hl⟩ | ⟨pl, hpl, -⟩ | ⟨e, he, l, x, hrow, -⟩⟩ := h
  · change (links l).linkCall = a at hl
    subst hl
    match l, hnamed with
    | 0, _ => exact ⟨[0x41], 0, names_addr (by decide)⟩
    | 1, _ => exact ⟨[0x42], 0, names_addr (by decide)⟩
    | _ + 2, hnamed => cases hnamed
  · cases hpl
  · subst hrow
    simp [toldOfK, record] at he

/-- `B` is told of `K` at cost 12, because `A` said 10. -/
theorem told_heard_toldOfK :
    (config false).Tells ((Node.boot (config false) [] [] links 1000).HeardIn toldOfK)
      (.ofCStr [0x4B]) 12 := by
  have hsent : WireEvent.frame pidCE (recordsFrame [(dest 0x4B, 12)]) ∈
      (((Node.boot (config false) [] [] links 1000).after toldOfK).peers slotB).wire := by
    decide +kernel
  exact Node.told_heard (r := ⟨dest 0x4B, 12, false⟩) ⟨[0x4E], 0, hosts_config false⟩
    (fun _ hpl => by cases hpl) (fun _ hmet => met_toldOfK hmet) slotB hsent (by decide +kernel)
    (by decide)

end Bench

end FlexNet
