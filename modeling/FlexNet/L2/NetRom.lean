import FlexNet.L2.Resolver

/-!
# NET/ROM transit

A CF frame that is not for this node is forwarded to the neighbour of the first row its destination
matches.  The D table is searched once more here, by a loop of its own: `PathNode.transits_iff` says
when the neighbour is that of the cheapest row of the destination.
-/

namespace FlexNet

/-! ## The frame -/

/-- `L3RTT:`. -/
def l3rttTag : CStr := [0x4C, 0x33, 0x52, 0x54, 0x54, 0x3A]

/-- `flex_find_l3rtt_tag`. -/
def flexFindL3rttTag (data : CStr) : Bool := decide (l3rttTag <:+: data)

/-- The seven octets of a callsign in a frame. -/
def callAt (data : CStr) (i : ℕ) : AxCall :=
  ⟨List.ofFn fun k : Fin 6 => data.getD (i + k) 0, data.getD (i + 6) 0, List.length_ofFn⟩

/-- The destination of a NET/ROM frame. -/
def l3Dst (data : CStr) : AxCall := callAt data 7

/-- `data[14]`. -/
def l3Ttl (data : CStr) : UInt8 := data.getD 14 0

/-- The text of a callsign without its SSID. -/
def AxCall.baseText (a : AxCall) : CStr := flexNormalizeCallsign { a with ssid := 0 }

/-- The SSID of a callsign. -/
def AxCall.ssidValue (a : AxCall) : ℤ := ((a.ssid >>> 1) &&& 0x0F).toNat

/-! ## The hook -/

/-- A row the search of `FlexNet_ProcessCF` stops at. -/
def DestEntry.cfMatches (arrival : Option Slot) (dst : CStr) (d : DestEntry) : Bool :=
  let (base, suffix) := splitFirstDash dst
  let ssid := (suffix.map atoi).getD (-1)
  decide (d.rtt < rttInfinity) && (d.viaSession.any fun via => decide (some via ≠ arrival)) &&
    (strcasecmp d.key.call.bytes dst ||
      strcasecmp d.key.call.bytes base && decide (0 ≤ ssid → d.key.lo ≤ ssid ∧ ssid ≤ d.key.hi))

/-- What `FlexNet_ProcessCF` does with a frame.  All but `toLocal` are handled there: the function
returns 1. -/
inductive CfResult
  /-- too short, or out of time to live -/
  | dropped
  /-- the L3RTT path takes it -/
  | l3rtt
  | forwarded (via : Slot) (data : CStr)
  /-- the NET/ROM layers of BPQ take it -/
  | toLocal
deriving DecidableEq

namespace PathNode

variable (n : PathNode)

/-- The session a frame came in on. -/
def arrivalSession (l : LinkId) : Option Slot :=
  slots.find? fun s => (n.sessions s).active && (n.sessions s).link == some l

/-- `FlexNet_ProcessCF`, on what follows the PID. -/
def flexNetProcessCF (l : LinkId) (data : CStr) : CfResult :=
  if data.isEmpty then .dropped
  else if flexFindL3rttTag data then .l3rtt
  else if !n.cfg.transit ∨ data.length < 20 then .toLocal
  else if (l3Dst data).call == n.cfg.myCall.call then .toLocal
  else
    let dst := flexNormalizeCallsign (l3Dst data)
    match n.dests.find? (DestEntry.cfMatches (n.arrivalSession l) dst) with
    | none => .toLocal
    | some d =>
      match d.viaSession.filter n.live with
      | none => .toLocal
      | some via =>
        if l3Ttl data ≤ 1 then .dropped
        else .forwarded via (data.set 14 (l3Ttl data - 1))

/-! ## Which row it goes by -/

/-- A finite row of the destination, to its very SSID, that does not lead back. -/
structure CfRow (l : LinkId) (data : CStr) (d : DestEntry) : Prop where
  covers : d.Covers (l3Dst data).baseText (l3Dst data).ssidValue
  elsewhere : ∀ s, n.arrivalSession l = some s → d.viaSession ≠ some s

/-- The first row the hook's search stops at. -/
def CfFirst (l : LinkId) (data : CStr) (i : ℕ) : Prop :=
  ∃ h : i < n.dests.length,
    n.dests[i].cfMatches (n.arrivalSession l) (flexNormalizeCallsign (l3Dst data)) = true ∧
      ∀ j (hj : j < i), n.dests[j].cfMatches (n.arrivalSession l)
        (flexNormalizeCallsign (l3Dst data)) = false

/-- A row leads to a neighbour whose link is up. -/
def LeadsTo (i : ℕ) (via : Slot) : Prop :=
  ∃ d, n.dests[i]? = some d ∧ d.viaSession = some via ∧ n.live via = true

/-- A frame is forwarded by the cheapest row of its destination, and it is forwarded when that row
leads somewhere. -/
structure TransitsByBest (l : LinkId) (data : CStr) : Prop where
  forwarded : ∀ via copy, n.flexNetProcessCF l data = .forwarded via copy →
    (∃ i, n.FirstBest (n.CfRow l data) i ∧ n.LeadsTo i via) ∧
      copy = data.set 14 (l3Ttl data - 1) ∧ 0 < l3Ttl data - 1
  carried : ∀ i via, n.FirstBest (n.CfRow l data) i → n.LeadsTo i via → 1 < l3Ttl data →
    ∃ copy, n.flexNetProcessCF l data = .forwarded via copy

variable {n} {l : LinkId} {data : CStr}

theorem LeadsTo.unique {i : ℕ} {via via' : Slot} (h : n.LeadsTo i via) (h' : n.LeadsTo i via') :
    via = via' := by
  obtain ⟨d, hd, hvia, -⟩ := h
  obtain ⟨d', hd', hvia', -⟩ := h'
  obtain rfl : d = d' := Option.some.inj (hd.symm.trans hd')
  exact Option.some.inj (hvia.symm.trans hvia')

theorem CfFirst.unique {i j : ℕ} (hi : n.CfFirst l data i) (hj : n.CfFirst l data j) : i = j := by
  obtain ⟨hlt, hmatch, hbefore⟩ := hi
  obtain ⟨hlt', hmatch', hbefore'⟩ := hj
  rcases lt_trichotomy i j with h | h | h
  · rw [hbefore' i h] at hmatch
    cases hmatch
  · exact h
  · rw [hbefore j h] at hmatch'
    cases hmatch'

/-- The frames the hook forwards. -/
theorem flexNetProcessCF_forwarded (hl3 : flexFindL3rttTag data = false)
    (hdst : (l3Dst data).call ≠ n.cfg.myCall.call) {via : Slot} {copy : CStr} :
    n.flexNetProcessCF l data = .forwarded via copy ↔
      1 < l3Ttl data ∧ n.cfg.transit = true ∧ 20 ≤ data.length ∧
        (∃ i, n.CfFirst l data i ∧ n.LeadsTo i via) ∧ copy = data.set 14 (l3Ttl data - 1) := by
  have hfind : ∀ d, n.dests.find? (DestEntry.cfMatches (n.arrivalSession l)
      (flexNormalizeCallsign (l3Dst data))) = some d ↔
        ∃ i, n.CfFirst l data i ∧ n.dests[i]? = some d := fun d => by
    rw [List.find?_eq_some_iff_getElem]
    constructor
    · rintro ⟨hmatch, i, hi, rfl, hbefore⟩
      exact ⟨i, ⟨hi, hmatch, fun j hj => by simpa using hbefore j hj⟩, List.getElem?_eq_getElem hi⟩
    · rintro ⟨i, ⟨hi, hmatch, hbefore⟩, hd⟩
      obtain rfl : n.dests[i] = d := Option.some.inj ((List.getElem?_eq_getElem hi).symm.trans hd)
      exact ⟨hmatch, i, hi, rfl, fun j hj => by simpa using hbefore j hj⟩
  have hlead : (∃ i, n.CfFirst l data i ∧ n.LeadsTo i via) ↔ ∃ d, n.dests.find?
      (DestEntry.cfMatches (n.arrivalSession l) (flexNormalizeCallsign (l3Dst data))) = some d ∧
        d.viaSession.filter n.live = some via := by
    constructor
    · rintro ⟨i, hfirst, d, hd, hvia, hlive⟩
      exact ⟨d, (hfind d).mpr ⟨i, hfirst, hd⟩, Option.filter_eq_some_iff.mpr ⟨hvia, hlive⟩⟩
    · rintro ⟨d, hd, hvia⟩
      obtain ⟨i, hfirst, hrow⟩ := (hfind d).mp hd
      obtain ⟨hvia, hlive⟩ := Option.filter_eq_some_iff.mp hvia
      exact ⟨i, hfirst, d, hrow, hvia, hlive⟩
  rw [hlead]
  unfold flexNetProcessCF
  rw [hl3]
  cases data with
  | nil => simp
  | cons b rest =>
      rw [if_neg (by simp), if_neg (by simp)]
      by_cases hoff : (!n.cfg.transit) = true ∨ (b :: rest).length < 20
      · rw [if_pos hoff]
        refine iff_of_false (by simp) ?_
        rintro ⟨-, hon, hlen, -⟩
        rcases hoff with hoff | hoff
        · rw [hon] at hoff
          cases hoff
        · omega
      · rw [if_neg hoff, if_neg (by simpa using hdst)]
        obtain ⟨hon, hlen⟩ : n.cfg.transit = true ∧ 20 ≤ (b :: rest).length := by
          simpa using hoff
        dsimp only
        cases hrow : n.dests.find? (DestEntry.cfMatches (n.arrivalSession l)
            (flexNormalizeCallsign (l3Dst (b :: rest)))) with
        | none => simp
        | some d =>
            dsimp only
            cases hvia : d.viaSession.filter n.live with
            | none =>
                refine iff_of_false (by simp) ?_
                rintro ⟨-, -, -, ⟨d', hd', hvia'⟩, -⟩
                cases hd'
                rw [hvia] at hvia'
                cases hvia'
            | some via' =>
                dsimp only
                by_cases httl : l3Ttl (b :: rest) ≤ 1
                · rw [if_pos httl]
                  exact iff_of_false (by simp) fun h => absurd h.1 (UInt8.not_lt.mpr httl)
                · rw [if_neg httl]
                  constructor
                  · intro h
                    cases h
                    exact ⟨UInt8.not_le.mp httl, hon, hlen, ⟨d, rfl, hvia⟩, rfl⟩
                  · rintro ⟨-, -, -, ⟨d', hd', hvia'⟩, rfl⟩
                    cases hd'
                    rw [hvia] at hvia'
                    cases hvia'
                    rfl

/-- NET/ROM transit goes by the cheapest row of the destination exactly when the frame dies here
anyway, the first row that matches leads to the same neighbour, or neither row leads anywhere. -/
theorem transits_iff (hl3 : flexFindL3rttTag data = false)
    (hdst : (l3Dst data).call ≠ n.cfg.myCall.call) :
    n.TransitsByBest l data ↔ l3Ttl data ≤ 1 ∨
      (n.cfg.transit = true ∧ 20 ≤ data.length ∧ ∃ i j via, n.CfFirst l data i ∧
        n.FirstBest (n.CfRow l data) j ∧ n.LeadsTo i via ∧ n.LeadsTo j via) ∨
      (∀ j via, n.FirstBest (n.CfRow l data) j → ¬ n.LeadsTo j via) ∧
        (n.cfg.transit = true → 20 ≤ data.length →
          ∀ i via, n.CfFirst l data i → ¬ n.LeadsTo i via) := by
  have hiff := fun via copy => @flexNetProcessCF_forwarded n l data hl3 hdst via copy
  constructor
  · intro h
    by_cases httl : l3Ttl data ≤ 1
    · exact .inl httl
    replace httl := UInt8.not_le.mp httl
    refine .inr ?_
    by_cases hbest : ∃ j via, n.FirstBest (n.CfRow l data) j ∧ n.LeadsTo j via
    · obtain ⟨j, via, hj, hvia⟩ := hbest
      obtain ⟨copy, hcopy⟩ := h.carried j via hj hvia httl
      obtain ⟨-, hon, hlen, ⟨i, hi, hvia'⟩, -⟩ := (hiff via copy).mp hcopy
      exact .inl ⟨hon, hlen, i, j, via, hi, hj, hvia', hvia⟩
    · refine .inr ⟨fun j via hj hvia => hbest ⟨j, via, hj, hvia⟩, fun hon hlen i via hi hvia => ?_⟩
      obtain ⟨⟨j, hj, hvia'⟩, -⟩ :=
        h.forwarded via _ ((hiff via _).mpr ⟨httl, hon, hlen, ⟨i, hi, hvia⟩, rfl⟩)
      exact hbest ⟨j, via, hj, hvia'⟩
  · intro h
    constructor
    · intro via copy hsent
      obtain ⟨httl, hon, hlen, ⟨i, hi, hvia⟩, rfl⟩ := (hiff via copy).mp hsent
      have hpositive : 0 < l3Ttl data - 1 := by
        have hone : (1 : UInt8) ≤ l3Ttl data := UInt8.le_of_lt httl
        rw [UInt8.lt_iff_toNat_lt] at httl ⊢
        rw [UInt8.toNat_sub_of_le _ _ hone]
        exact Nat.sub_pos_of_lt httl
      refine ⟨?_, rfl, hpositive⟩
      rcases h with hdead | ⟨-, -, i', j, via', hi', hj, hvia', hbest⟩ | ⟨-, hnone⟩
      · exact absurd hdead (UInt8.not_le.mpr httl)
      · rw [hi.unique hi'] at hvia
        rw [hvia.unique hvia']
        exact ⟨j, hj, hbest⟩
      · exact absurd hvia (hnone hon hlen i via hi)
    · intro j via hj hvia httl
      rcases h with hdead | ⟨hon, hlen, i, j', via', hi, hj', hvia', hbest⟩ | ⟨hnone, -⟩
      · exact absurd hdead (UInt8.not_le.mpr httl)
      · rw [hj.unique hj'] at hvia
        rw [hvia.unique hbest]
        exact ⟨_, (hiff via' _).mpr ⟨httl, hon, hlen, ⟨i, hi, hvia'⟩, rfl⟩⟩
      · exact absurd hvia (hnone j via hj)

end PathNode

namespace Bench

/-- `A`, `B` and `C` are neighbours.  `A` has told of `K`, then `B`, for less, of `K` to `K-5`. -/
def overlapping : PathNode :=
  let offer : CStr := [0x33] ++ recordOctets ⟨.ofCStr [0x4B], 0, 5⟩ 2 ++ [0x0D]
  let events : List Event := [.row 2 (row (addr 0x43)), .initSession 2 1, .processCE 1 offer]
  { PathNode.small with toNode := PathNode.small.toNode.after events }

/-- A NET/ROM frame to a station, with time to live 7. -/
def cfFrame (dst : AxCall) : CStr :=
  (addr 0x55).call ++ [0x60] ++ dst.call ++ [dst.ssid] ++ [7, 1, 0, 0, 0, 1]

set_option maxRecDepth 10000 in
/-- The row of `K` to `K-5`. -/
theorem overlapping_row : ∃ d, overlapping.dests[3]? = some d ∧ d.Covers [0x4B] 0 ∧
    d.viaSession = some slotB ∧ overlapping.costHere d = 4 := by
  have hrow : (overlapping.dests[3]?.any fun d => decide (d.rtt < rttInfinity) &&
      strcasecmp d.key.call.bytes [0x4B] && decide (d.key.lo ≤ 0 ∧ 0 ≤ d.key.hi) &&
        (d.viaSession == some slotB) && decide (overlapping.costHere d = 4)) = true := by
    decide +kernel
  obtain ⟨d, hd, hfacts⟩ := (Option.any_eq_true ..).mp hrow
  simp only [Bool.and_eq_true, decide_eq_true_eq, beq_iff_eq] at hfacts
  obtain ⟨⟨⟨⟨hfinite, hbase⟩, hrange⟩, hvia⟩, hcost⟩ := hfacts
  exact ⟨d, hd, ⟨hfinite, hbase, fun _ => hrange⟩, hvia, hcost⟩

set_option maxRecDepth 10000 in
/-- It is the row a frame to `K` goes by, unless the frame came from `B`. -/
theorem overlapping_best (l : LinkId) (h : overlapping.arrivalSession l ≠ some slotB) :
    overlapping.FirstBest (overlapping.CfRow l (cfFrame (addr 0x4B))) 3 := by
  have htext : (l3Dst (cfFrame (addr 0x4B))).baseText = [0x4B] ∧
      (l3Dst (cfFrame (addr 0x4B))).ssidValue = 0 := by decide +kernel
  have hrows : overlapping.dests.zipIdx.all (fun p =>
      !strcasecmp p.1.key.call.bytes [0x4B] || p.2 == 3 || decide (4 < overlapping.costHere p.1)) =
        true := by decide +kernel
  obtain ⟨d, hd, hcovers, hvia, hcost⟩ := overlapping_row
  refine ⟨d, hd, ⟨?_, fun s hs hback => ?_⟩, fun j e he hPe => ?_⟩
  · rw [htext.1, htext.2]
    exact hcovers
  · rw [hback] at hvia
    exact h (hs.trans hvia)
  · have hmem := List.all_eq_true.mp hrows (e, j) (List.mem_zipIdx_iff_getElem?.mpr he)
    have hbase := hPe.covers.base
    rw [htext.1] at hbase
    simp only [hbase, Bool.or_eq_true, Bool.not_true, Bool.false_eq_true, false_or, beq_iff_eq,
      decide_eq_true_eq] at hmem
    rcases hmem with rfl | hdear
    · rw [Option.some.inj (hd.symm.trans he)]
      exact .inr ⟨rfl, le_rfl⟩
    · exact .inl (by omega)

set_option maxRecDepth 10000 in
/-- A frame of `C` to `K` goes to `A`, which is dearer than `B`. -/
theorem not_always_transits_best : ¬ ∀ (n : PathNode) (l : LinkId) (data : CStr),
    flexFindL3rttTag data = false → (l3Dst data).call ≠ n.cfg.myCall.call →
      n.TransitsByBest l data := by
  intro hall
  have hbest := overlapping_best 2 (by decide +kernel)
  have hsent : overlapping.flexNetProcessCF 2 (cfFrame (addr 0x4B)) =
      .forwarded slotA ((cfFrame (addr 0x4B)).set 14 6) := by decide +kernel
  obtain ⟨⟨i, hi, d, hd, hvia, -⟩, -⟩ := (hall overlapping 2 (cfFrame (addr 0x4B)) (by decide)
    (by decide)).forwarded slotA _ hsent
  obtain ⟨e, he, -, hvia', -⟩ := overlapping_row
  rw [hi.unique hbest, he, Option.some.injEq] at hd
  rw [← hd, hvia'] at hvia
  exact absurd hvia (by decide)

set_option maxRecDepth 10000 in
/-- A frame of `A` to `K` goes to `B`. -/
theorem transits_iff_overlapping : overlapping.TransitsByBest 0 (cfFrame (addr 0x4B)) := by
  have hsent : overlapping.flexNetProcessCF 0 (cfFrame (addr 0x4B)) =
      .forwarded slotB ((cfFrame (addr 0x4B)).set 14 6) := by decide +kernel
  obtain ⟨-, hon, hlen, ⟨i, hi, hleads⟩, -⟩ :=
    (PathNode.flexNetProcessCF_forwarded (by decide) (by decide)).mp hsent
  obtain ⟨d, hd, -, hvia, -⟩ := overlapping_row
  have hl3 : flexFindL3rttTag (cfFrame (addr 0x4B)) = false := by decide
  have hdst : (l3Dst (cfFrame (addr 0x4B))).call ≠ overlapping.cfg.myCall.call := by decide
  refine (PathNode.transits_iff hl3 hdst).mpr (.inr (.inl ⟨hon, hlen, i, 3, slotB, hi, ?_, hleads,
    d, hd, hvia, by decide +kernel⟩))
  exact overlapping_best 0 (by decide +kernel)

end Bench

end FlexNet
