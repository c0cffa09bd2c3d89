import FlexNet.Setup.Listed
import FlexNet.Advert.Packing
import FlexNet.L2.Transit

/-!
# What is advertised, answered and delivered

The records of the node's own frame, `flex_target_is_us`, and the two ways a call of the node is
delivered (an application here, or a station on a port) are written independently.
`Config.own_frame_agrees`: after `FlexNet_Init` they are about the same calls, whatever the text of
`bpq32.cfg`, and the frame is read back record for record.
-/

namespace FlexNet

/-! ## The frame -/

/-- A record is about a call. -/
def Key.Covers (k : Key) (base : CStr) (ssid : ℤ) : Prop :=
  strcasecmp k.call.bytes base = true ∧ k.lo ≤ ssid ∧ ssid ≤ k.hi

/-- No call is covered by both. -/
def Key.Apart (k k' : Key) : Prop := ∀ base ssid, ¬ (k.Covers base ssid ∧ k'.Covers base ssid)

/-- The record of a local call. -/
def LocalCall.key (l : LocalCall) : Key := ⟨.ofCStr l.base, l.ssid, l.ssid⟩

/-- The records of the own frame: the node, then the advertised local calls. -/
def Config.ownRecords (cfg : Config) : List Key :=
  ⟨.ofCStr cfg.ownBaseCall.1, cfg.ownSsidRange.1, cfg.ownSsidRange.2⟩ ::
    (cfg.locals.filter fun l => l.state == .bound).map LocalCall.key

/-- Records of cost 1 are ten octets long. -/
theorem length_recordOctets_one (k : Key) : (recordOctets k 1).length = 10 := by
  have hcost : decimalInt (wireCost 1) = [0x31] := by decide
  simp only [recordOctets, hcost, List.length_append, length_callField, List.length_cons,
    List.length_nil]

/-- Records that fit are packed one behind the other. -/
theorem foldlM_records {buflen : ℕ} (keys : List Key) (body : CStr)
    (hroom : body.length + 10 * keys.length + 2 ≤ buflen) :
    keys.foldlM (fun body k => (flexBuildRouteRec (buflen - body.length - 1) k 1).map (body ++ ·))
      body = some (body ++ recordsOctets (keys.map fun k => (k, 1))) := by
  induction keys generalizing body with
  | nil => simp [recordsOctets]
  | cons k keys ih =>
      have hlen := length_recordOctets_one k
      rw [List.length_cons] at hroom
      have hfit : flexBuildRouteRec (buflen - body.length - 1) k 1 = some (recordOctets k 1) := by
        rw [flexBuildRouteRec, if_neg]
        omega
      rw [List.foldlM_cons, hfit, Option.map_some, Option.bind_eq_bind, Option.bind_some,
        ih _ (by rw [List.length_append, hlen]; omega)]
      simp [recordsOctets]

namespace Config

variable {cfg : Config}

theorem length_ownRecords (h : Listed cfg.locals) : cfg.ownRecords.length ≤ 17 := by
  have hfilter := List.length_filter_le (fun l : LocalCall => l.state == .bound) cfg.locals
  have hroom := h.room
  rw [ownRecords, List.length_cons, List.length_map]
  unfold maxLocalCalls at hroom
  omega

/-- The own frame has room for every record. -/
theorem ownFrame_eq (hbase : cfg.ownBaseCall.1 ≠ []) (h : Listed cfg.locals) :
    cfg.ownFrame = some (recordsFrame (cfg.ownRecords.map fun k => (k, 1))) := by
  have hlen := length_ownRecords h
  have hroom : ([0x33] : CStr).length + 10 * cfg.ownRecords.length + 2 ≤ advertFrameBytes := by
    rw [List.length_singleton]
    unfold advertFrameBytes
    omega
  have hbuflen : ¬ advertFrameBytes < 3 := by decide
  unfold ownFrame flexBuildOwnFrame
  rw [if_neg (by simpa using hbase)]
  dsimp only
  rw [if_neg hbuflen]
  have hfold := foldlM_records cfg.ownRecords [0x33] hroom
  unfold ownRecords LocalCall.key at hfold
  unfold ownRecords LocalCall.key
  rw [hfold]
  rfl

theorem length_ownFrame (h : Listed cfg.locals) :
    (recordsFrame (cfg.ownRecords.map fun k => (k, 1))).length ≤ advertFrameBytes := by
  have hlen := length_ownRecords h
  have hrecords : ∀ keys : List Key,
      (recordsOctets (keys.map fun k => (k, 1))).length = 10 * keys.length := by
    intro keys
    induction keys with
    | nil => rfl
    | cons k keys ih =>
        have hk := length_recordOctets_one k
        unfold recordsOctets at ih ⊢
        rw [List.map_cons, List.flatMap_cons, List.length_append, ih, hk, List.length_cons]
        omega
  rw [recordsFrame, List.length_append, List.length_append, hrecords, List.length_singleton,
    List.length_singleton]
  unfold advertFrameBytes
  omega

end Config

/-! ## Calls in either case -/

/-- `strcasecmp` compares the capitals. -/
theorem strcasecmp_capitals {s t : CStr} :
    strcasecmp s t = true ↔ s.map toUpper = t.map toUpper := by
  have hup : ∀ s : CStr, (s.map toLower).map toUpper = s.map toUpper := by
    have hcase : ∀ b : UInt8, toUpper (toLower b) = toUpper b :=
      L2Addr.forall_octet (by decide +kernel)
    intro s
    rw [List.map_map]
    exact List.map_congr_left fun b _ => hcase b
  have hlow : ∀ s : CStr, (s.map toUpper).map toLower = s.map toLower := by
    have hcase : ∀ b : UInt8, toLower (toUpper b) = toLower b :=
      L2Addr.forall_octet (by decide +kernel)
    intro s
    rw [List.map_map]
    exact List.map_congr_left fun b _ => hcase b
  rw [strcasecmp, beq_iff_eq]
  constructor
  · intro h
    rw [← hup s, h, hup t]
  · intro h
    rw [← hlow s, h, hlow t]

theorem strcasecmp_comm {s t : CStr} (h : strcasecmp s t = true) : strcasecmp t s = true :=
  strcasecmp_capitals.mpr (strcasecmp_capitals.mp h).symm

/-- Calls that compare have the same parts. -/
theorem callText_parts {base base' : CStr} {ssid ssid' : ℕ} (hb : IsBase base) (hb' : IsBase base')
    (h : strcasecmp (callText base ssid) (callText base' ssid') = true) :
    strcasecmp base base' = true ∧ ssid = ssid' := by
  have hfold := strcasecmp_iff.mp h
  have hsplit := congrArg splitFirstDash hfold
  rw [splitFirstDash_fold, splitFirstDash_fold] at hsplit
  obtain ⟨hbase, hssid⟩ := @splitFirstDash_callText _ ssid hb
  obtain ⟨hbase', hssid'⟩ := @splitFirstDash_callText _ ssid' hb'
  obtain ⟨h₁, h₂⟩ := Prod.mk.inj hsplit
  refine ⟨strcasecmp_iff.mpr ?_, ?_⟩
  · rwa [hbase, hbase'] at h₁
  · have hsame := congrArg ssidOf h₂
    rw [ssidOf_fold, ssidOf_fold, hssid, hssid'] at hsame
    exact_mod_cast hsame

/-! ## A node and its calls -/

/-- A configuration of a node with this call: the local calls are listed, and none of them is in the
range of the node's own record. -/
structure Config.Hosts (cfg : Config) (base : CStr) (ssid : ℕ) : Prop where
  myCall : cfg.myCall.Names base ssid
  range : InOrder cfg.ssidRange
  listed : Listed cfg.locals
  offRange : ∀ l ∈ cfg.locals, OffRange base cfg.ownSsidRange l

namespace Config

variable {cfg : Config} {base₀ base : CStr} {ssid₀ ssid : ℕ}

theorem ownBaseCall_names (h : cfg.myCall.Names base₀ ssid₀) :
    cfg.ownBaseCall = (base₀, (ssid₀ : ℤ)) := by
  obtain ⟨hbase, hssid⟩ := @splitFirstDash_callText _ ssid₀ h.isBase
  rw [ownBaseCall, flexNormalizeCallsign_names h]
  exact Prod.ext hbase hssid

theorem ownSsidRange_eq (h : cfg.myCall.Names base₀ ssid₀) :
    cfg.ownSsidRange = flexOwnSsidRange cfg.ssidRange ssid₀ := by
  have hcall := ownBaseCall_names h
  exact congrArg (fun call : CStr × ℤ => flexOwnSsidRange cfg.ssidRange call.2) hcall

/-- `FlexNet_Init` settles it. -/
theorem hosts_init (text : Option CStr) (h : Host) (hnode : h.myCall.Names base₀ ssid₀) :
    (flexNetInit text h).Hosts base₀ ssid₀ := by
  have hsettled := Directives.flexLoadConfig_settled text
  refine ⟨hnode, hsettled.range, flexLocalInit_listed hsettled _ _ _, ?_⟩
  have hoff := flexLocalInit_offRange (Directives.flexLoadConfig text) h.myCall h.table h.ports
  rw [flexNormalizeCallsign_names hnode, (callText_split hnode.isBase).1, hnode.ssid] at hoff
  rw [@ownSsidRange_eq (flexNetInit text h) _ _ hnode]
  exact hoff

theorem Hosts.ownRange (h : cfg.Hosts base₀ ssid₀) :
    cfg.ownSsidRange.1 ≤ ssid₀ ∧ (ssid₀ : ℤ) ≤ cfg.ownSsidRange.2 ∧ 0 ≤ cfg.ownSsidRange.1 ∧
      cfg.ownSsidRange.2 ≤ 15 := by
  have hssid := h.myCall.ssid_le
  rw [ownSsidRange_eq h.myCall]
  unfold flexOwnSsidRange
  cases hrange : cfg.ssidRange with
  | none =>
      dsimp only
      omega
  | some range =>
      obtain ⟨lo, hi⟩ := range
      obtain ⟨hlo, hle, hhi⟩ := h.range lo hi hrange
      dsimp only
      omega

theorem ofCStr_of_isBase (hb : IsBase base) : (Callsign.ofCStr base).bytes = base := by
  have hshort := hb.short
  exact List.take_of_length_le (by unfold maxCallsign; omega)

/-! ### The records -/

theorem mem_ownRecords {k : Key} : k ∈ cfg.ownRecords ↔
    k = ⟨.ofCStr cfg.ownBaseCall.1, cfg.ownSsidRange.1, cfg.ownSsidRange.2⟩ ∨
      ∃ l ∈ cfg.locals, l.state = .bound ∧ k = l.key := by
  rw [ownRecords, List.mem_cons, List.mem_map]
  refine or_congr_right ⟨?_, ?_⟩
  · rintro ⟨l, hl, rfl⟩
    obtain ⟨hmem, hbound⟩ := List.mem_filter.mp hl
    exact ⟨l, hmem, by simpa using hbound, rfl⟩
  · rintro ⟨l, hmem, hbound, rfl⟩
    exact ⟨l, List.mem_filter.mpr ⟨hmem, by simpa using hbound⟩, rfl⟩

/-- Every record is about a station. -/
theorem Hosts.station (h : cfg.Hosts base₀ ssid₀) : ∀ k ∈ cfg.ownRecords, k.Station := by
  intro k hk
  obtain ⟨hlo, hhi, hzero, hmax⟩ := h.ownRange
  have hbytes : ∀ {b : CStr}, IsBase b → ∀ {lo hi : ℤ}, 0 ≤ lo ∧ lo ≤ hi ∧ hi ≤ 15 →
      (⟨.ofCStr b, lo, hi⟩ : Key).Station := by
    intro b hb lo hi hrange
    have hsame := ofCStr_of_isBase hb
    constructor
    · rw [hsame]
      exact hb.nonempty
    · rw [hsame]
      exact hb.short
    · rw [hsame]
      exact hb.alnum
    · exact hrange
  rcases mem_ownRecords.mp hk with rfl | ⟨l, hl, -, rfl⟩
  · rw [ownBaseCall_names h.myCall]
    exact hbytes h.myCall.isBase ⟨hzero, hlo.trans hhi, hmax⟩
  · obtain ⟨hb, -, hssid⟩ := h.listed.entered l hl
    exact hbytes hb ⟨hssid.1, le_rfl, hssid.2⟩

/-- A call is covered by the node's record, or by the one of its own entry. -/
theorem Hosts.covers_iff (h : cfg.Hosts base₀ ssid₀) :
    (∃ k ∈ cfg.ownRecords, k.Covers base ssid) ↔
      (strcasecmp base₀ base = true ∧ cfg.ownSsidRange.1 ≤ ssid ∧ (ssid : ℤ) ≤ cfg.ownSsidRange.2) ∨
        ∃ l ∈ cfg.locals, l.state = .bound ∧ l.call = (base.map toUpper, (ssid : ℤ)) := by
  have hnode : (Callsign.ofCStr cfg.ownBaseCall.1).bytes = base₀ := by
    rw [ownBaseCall_names h.myCall]
    exact ofCStr_of_isBase h.myCall.isBase
  have hlocal : ∀ l ∈ cfg.locals, l.key.Covers base ssid ↔
      l.call = (base.map toUpper, (ssid : ℤ)) := by
    intro l hl
    obtain ⟨hb, hcapitals, -⟩ := h.listed.entered l hl
    unfold Key.Covers LocalCall.key LocalCall.call
    dsimp only
    rw [ofCStr_of_isBase hb, strcasecmp_capitals, hcapitals, Prod.mk.injEq]
    exact and_congr_right fun _ => ⟨fun h => le_antisymm h.1 h.2, fun h => ⟨h.le, h.ge⟩⟩
  constructor
  · rintro ⟨k, hk, hcovers⟩
    rcases mem_ownRecords.mp hk with rfl | ⟨l, hl, hbound, rfl⟩
    · unfold Key.Covers at hcovers
      rw [hnode] at hcovers
      exact .inl hcovers
    · exact .inr ⟨l, hl, hbound, (hlocal l hl).mp hcovers⟩
  · rintro (hcovers | ⟨l, hl, hbound, hcall⟩)
    · refine ⟨_, mem_ownRecords.mpr (.inl rfl), ?_⟩
      unfold Key.Covers
      rw [hnode]
      exact hcovers
    · exact ⟨l.key, mem_ownRecords.mpr (.inr ⟨l, hl, hbound, rfl⟩), (hlocal l hl).mpr hcall⟩

/-- No call has two records. -/
theorem Hosts.apart (h : cfg.Hosts base₀ ssid₀) : cfg.ownRecords.Pairwise Key.Apart := by
  have hcovers : ∀ l ∈ cfg.locals, ∀ (b : CStr) (s : ℤ), l.key.Covers b s →
      l.base = b.map toUpper ∧ l.ssid = s := by
    intro l hl b s hcovers
    obtain ⟨hb, hcapitals, -⟩ := h.listed.entered l hl
    obtain ⟨hcall, hlo, hhi⟩ := hcovers
    unfold LocalCall.key at hcall hlo hhi
    rw [ofCStr_of_isBase hb, strcasecmp_capitals, hcapitals] at hcall
    exact ⟨hcall, le_antisymm hlo hhi⟩
  refine List.pairwise_cons.mpr ⟨fun k hk b s hboth => ?_, ?_⟩
  · -- the node's record and a local call on its base
    obtain ⟨l, hl, rfl⟩ := List.mem_map.mp hk
    obtain ⟨hmem, hbound⟩ := List.mem_filter.mp hl
    obtain ⟨⟨hnode, hlo, hhi⟩, hlocal⟩ := hboth
    obtain ⟨hbase, rfl⟩ := hcovers l hmem b s hlocal
    rw [ownBaseCall_names h.myCall, ofCStr_of_isBase h.myCall.isBase] at hnode
    have hsame : strcasecmp l.base base₀ = true := by
      rw [strcasecmp_capitals, (h.listed.entered l hmem).capitals, hbase]
      exact (strcasecmp_capitals.mp hnode).symm
    exact (h.offRange l hmem (by simpa using hbound) hsame).2 ⟨hlo, hhi⟩
  · refine List.pairwise_map.mpr ?_
    have hdistinct := List.pairwise_map.mp h.listed.distinct
    have hfilter := hdistinct.sublist (List.filter_sublist (p := fun l => l.state == .bound))
    refine hfilter.imp_of_mem fun {l l'} hl hl' hne b s hboth => hne ?_
    obtain ⟨hbase, hssid⟩ := hcovers l (List.mem_filter.mp hl).1 b s hboth.1
    obtain ⟨hbase', hssid'⟩ := hcovers l' (List.mem_filter.mp hl').1 b s hboth.2
    exact Prod.ext (hbase.trans hbase'.symm) (hssid.trans hssid'.symm)

/-- The own frame is read back record for record. -/
theorem Hosts.parse_ownFrame (h : cfg.Hosts base₀ ssid₀) :
    flexParseCompactRecords (recordsFrame (cfg.ownRecords.map fun k => (k, 1))) 64 =
      cfg.ownRecords.map fun k => ⟨k, 1, false⟩ := by
  have hlen := length_ownRecords h.listed
  have hsend : Sendable (cfg.ownRecords.map fun k => (k, 1)) := by
    intro r hr
    obtain ⟨k, hk, rfl⟩ := List.mem_map.mp hr
    exact ⟨(h.station k hk).encodable, by norm_num, by norm_num [rttInfinity]⟩
  have hne : (cfg.ownRecords.map fun k => (k, (1 : ℤ))) ≠ [] := by simp [ownRecords]
  rw [parse_recordsFrame hne hsend (by rw [List.length_map]; omega)
    (by rw [List.length_map]; omega), List.map_map]
  refine List.map_congr_left fun k _ => ?_
  have hcost : wireCost 1 = 1 := by decide
  simp [readBack, hcost, rttInfinity]

/-! ### The calls -/

theorem flexLocalFind_callText (hb : IsBase base) (hssid : ssid ≤ 15) :
    cfg.flexLocalFind (callText base ssid) = cfg.locals.find? fun l =>
      l.state == .bound && decide (l.ssid = (ssid : ℤ)) && l.base == base.map toUpper := by
  rw [flexLocalFind, flexSplitCall_callText hb hssid]
  rfl

theorem flexLocalFind_some {l : LocalCall} (hb : IsBase base) (hssid : ssid ≤ 15)
    (hfind : cfg.flexLocalFind (callText base ssid) = some l) :
    l ∈ cfg.locals ∧ l.state = .bound ∧ l.call = (base.map toUpper, (ssid : ℤ)) := by
  rw [flexLocalFind_callText hb hssid] at hfind
  have hl := List.find?_some hfind
  simp only [Bool.and_eq_true, beq_iff_eq, decide_eq_true_eq] at hl
  exact ⟨List.mem_of_find?_eq_some hfind, hl.1.1, Prod.ext hl.2 hl.1.2⟩

theorem flexLocalFind_none (hb : IsBase base) (hssid : ssid ≤ 15)
    (hfind : cfg.flexLocalFind (callText base ssid) = none) :
    ¬ ∃ l ∈ cfg.locals, l.state = .bound ∧ l.call = (base.map toUpper, (ssid : ℤ)) := by
  rintro ⟨l, hl, hbound, hcall⟩
  rw [flexLocalFind_callText hb hssid] at hfind
  have hnot := List.find?_eq_none.mp hfind l hl
  obtain ⟨hbase, hs⟩ := Prod.mk.inj hcall
  simp [hbound, hbase, hs] at hnot

theorem localFind_eq (call : CStr) : cfg.localFind call = (cfg.flexLocalFind call).isSome := by
  unfold localFind flexLocalFind
  cases flexSplitCall call with
  | none => rfl
  | some c =>
      obtain ⟨b, s⟩ := c
      rw [Option.any_some, Option.bind_some]
      dsimp only
      rw [Bool.eq_iff_iff, List.any_eq_true, List.find?_isSome]

/-- `flex_target_is_us` answers for the calls of the records. -/
theorem Hosts.targetIsUs_iff (h : cfg.Hosts base₀ ssid₀) (hb : IsBase base) (hssid : ssid ≤ 15) :
    (∃ k ∈ cfg.ownRecords, k.Covers base ssid) ↔
      cfg.flexTargetIsUs (callText base ssid) ≠ none := by
  rw [h.covers_iff]
  have hnode : cfg.pathCall = callText base₀ ssid₀ := flexNormalizeCallsign_names h.myCall
  unfold flexTargetIsUs
  rw [localFind_eq, hnode, ownBaseCall_names h.myCall]
  cases hfind : cfg.flexLocalFind (callText base ssid) with
  | some l =>
      obtain ⟨hl, hbound, hcall⟩ := flexLocalFind_some hb hssid hfind
      simp only [Option.isSome_some, if_true, ne_eq, reduceCtorEq, not_false_eq_true, iff_true]
      exact .inr ⟨l, hl, hbound, hcall⟩
  | none =>
      have hnone := flexLocalFind_none hb hssid hfind
      have hrange : flexCallInRange (callText base ssid) base₀ cfg.ownSsidRange.1
          cfg.ownSsidRange.2 = true ↔ strcasecmp base₀ base = true ∧
            cfg.ownSsidRange.1 ≤ ssid ∧ (ssid : ℤ) ≤ cfg.ownSsidRange.2 := by
        have hne := h.myCall.isBase.nonempty
        unfold flexCallInRange
        rw [flexSplitCall_callText hb hssid, Option.any_some]
        dsimp only
        rw [strcasecmp_toUpper]
        simp only [Bool.and_eq_true, Bool.not_eq_true', List.isEmpty_eq_false_iff,
          decide_eq_true_eq, ne_eq, hne, not_false_eq_true, true_and]
        exact and_congr_left fun _ => ⟨strcasecmp_comm, strcasecmp_comm⟩
      rw [← hrange]
      simp only [Option.isSome_none, Bool.false_eq_true, if_false, hnone, or_false]
      by_cases hself : strcasecmp (callText base₀ ssid₀) (callText base ssid) = true
      · obtain ⟨hbase, rfl⟩ := callText_parts h.myCall.isBase hb hself
        obtain ⟨hlo, hhi, -⟩ := h.ownRange
        rw [if_pos hself]
        simp only [ne_eq, reduceCtorEq, not_false_eq_true, iff_true]
        exact hrange.mpr ⟨hbase, hlo, hhi⟩
      · rw [if_neg hself]
        split
        · rename_i hin
          simp [hin]
        · rename_i hin
          simp [hin]

/-- Calls of the node other than its own are delivered here or forwarded, and no others. -/
theorem Hosts.delivers_iff (h : cfg.Hosts base₀ ssid₀) {a : AxCall} (ha : a.Names base ssid)
    (hother : ¬ (strcasecmp base₀ base = true ∧ ssid = ssid₀)) :
    ((∃ k ∈ cfg.ownRecords, k.Covers base ssid) ↔
      cfg.flexNetIsLocalCall a = true ∨ 0 < cfg.flexExternalPort (callText base ssid)) ∧
    ¬ (cfg.flexNetIsLocalCall a = true ∧ 0 < cfg.flexExternalPort (callText base ssid)) := by
  have hb := ha.isBase
  have hssid := ha.ssid_le
  have hport : cfg.flexExternalPort (callText base ssid) =
      (cfg.flexLocalFind (callText base ssid)).elim 0 LocalCall.extPort := rfl
  rw [h.covers_iff, hport]
  unfold flexNetIsLocalCall
  dsimp only
  rw [flexNormalizeCallsign_names ha]
  cases hfind : cfg.flexLocalFind (callText base ssid) with
  | some l =>
      obtain ⟨hl, hbound, hcall⟩ := flexLocalFind_some hb hssid hfind
      dsimp only
      rw [Option.elim_some, beq_iff_eq]
      refine ⟨⟨fun _ => ?_, fun _ => .inr ⟨l, hl, hbound, hcall⟩⟩, ?_⟩
      · omega
      · omega
  | none =>
      have hnone := flexLocalFind_none hb hssid hfind
      obtain ⟨hbase, hsuffix⟩ := @splitFirstDash_callText _ ssid hb
      have hne : callText base ssid ≠ [] := by simp [callText, hb.nonempty]
      have hne₀ := h.myCall.isBase.nonempty
      dsimp only
      rw [Option.elim_none]
      refine ⟨?_, fun hboth => absurd hboth.2 (lt_irrefl 0)⟩
      unfold flexCallInOwnRange
      rw [ownBaseCall_names h.myCall]
      generalize splitFirstDash (callText base ssid) = parts at hbase hsuffix
      obtain ⟨b, suffix⟩ := parts
      dsimp only at hbase hsuffix ⊢
      subst hbase
      rw [hsuffix]
      simp only [hnone, or_false, Bool.and_eq_true, Bool.not_eq_true', List.isEmpty_eq_false_iff,
        decide_eq_true_eq, lt_irrefl]
      constructor
      · rintro ⟨hsame, hlo, hhi⟩
        refine ⟨⟨⟨⟨hne, hne₀⟩, strcasecmp_comm hsame⟩, fun heq => hother ⟨hsame, ?_⟩⟩, hlo, hhi⟩
        exact_mod_cast heq
      · rintro ⟨⟨⟨-, hsame⟩, -⟩, hlo, hhi⟩
        exact ⟨strcasecmp_comm hsame, hlo, hhi⟩

/-- What the node advertises as its own it answers for and delivers, and nothing else, whatever
`bpq32.cfg` says: its frame fits, is read back record for record, and no call has two records; a
record covers a call exactly when `flex_target_is_us` does, and for calls other than the node's
exactly when it is delivered here or forwarded to its station, never both. -/
theorem own_frame_agrees (text : Option CStr) (h : Host) (hnode : h.myCall.Names base₀ ssid₀) :
    ∃ frame, (flexNetInit text h).ownFrame = some frame ∧ frame.length ≤ advertFrameBytes ∧
      flexParseCompactRecords frame 64 =
        ((flexNetInit text h).ownRecords.map fun k => ⟨k, 1, false⟩) ∧
      (flexNetInit text h).ownRecords.Pairwise Key.Apart ∧
      ∀ (a : AxCall) (base : CStr) (ssid : ℕ), a.Names base ssid →
        ((∃ k ∈ (flexNetInit text h).ownRecords, k.Covers base ssid) ↔
          (flexNetInit text h).flexTargetIsUs (callText base ssid) ≠ none) ∧
        (¬ (strcasecmp base₀ base = true ∧ ssid = ssid₀) →
          ((∃ k ∈ (flexNetInit text h).ownRecords, k.Covers base ssid) ↔
            (flexNetInit text h).flexNetIsLocalCall a = true ∨
              0 < (flexNetInit text h).flexExternalPort (callText base ssid)) ∧
          ¬ ((flexNetInit text h).flexNetIsLocalCall a = true ∧
            0 < (flexNetInit text h).flexExternalPort (callText base ssid))) := by
  have hosts := hosts_init text h hnode
  have hbase : (flexNetInit text h).ownBaseCall.1 ≠ [] := by
    rw [ownBaseCall_names hosts.myCall]
    exact hnode.isBase.nonempty
  refine ⟨_, ownFrame_eq hbase hosts.listed, length_ownFrame hosts.listed, hosts.parse_ownFrame,
    hosts.apart, fun a base ssid ha => ⟨?_, fun hother => ?_⟩⟩
  · exact hosts.targetIsUs_iff ha.isBase ha.ssid_le
  · exact hosts.delivers_iff ha hother

end Config

namespace Bench

/-- `FLEXNETSSIDRANGE 0-3`, then `FLEXNETLOCAL K`. -/
def rangeText : CStr :=
  keySsidRange ++ [0x20, 0x30, 0x2D, 0x33, 0x0A] ++ keyLocal ++ [0x20, 0x4B, 0x0A]

/-- BPQ with the node call `N` and an application `K`. -/
def bpq : Host where
  myCall := addr 0x4E
  table := [addr 0x4B]
  ports := fun _ => true
  maxLinks := 4
  getBuff := fun _ _ => true

theorem names_addr {letter : UInt8} (h : isAlnum letter = true) :
    (addr letter).Names [letter] 0 where
  isBase := ⟨List.cons_ne_nil _ _, by simp, by simpa using h⟩
  shifted := rfl
  ssid := by
    change (((0x60 + 2 * 0 : UInt8) >>> 1) &&& 0x0F).toNat = 0
    decide

/-- The node's range of SSIDs, and the application. -/
theorem own_frame_agrees_range :
    ∃ frame, (flexNetInit (some rangeText) bpq).ownFrame = some frame ∧
      frame.length ≤ advertFrameBytes ∧
      flexParseCompactRecords frame 64 =
        ((flexNetInit (some rangeText) bpq).ownRecords.map fun k => ⟨k, 1, false⟩) ∧
      (flexNetInit (some rangeText) bpq).ownRecords.Pairwise Key.Apart ∧
      ∀ (a : AxCall) (base : CStr) (ssid : ℕ), a.Names base ssid →
        ((∃ k ∈ (flexNetInit (some rangeText) bpq).ownRecords, k.Covers base ssid) ↔
          (flexNetInit (some rangeText) bpq).flexTargetIsUs (callText base ssid) ≠ none) ∧
        (¬ (strcasecmp [0x4E] base = true ∧ ssid = 0) →
          ((∃ k ∈ (flexNetInit (some rangeText) bpq).ownRecords, k.Covers base ssid) ↔
            (flexNetInit (some rangeText) bpq).flexNetIsLocalCall a = true ∨
              0 < (flexNetInit (some rangeText) bpq).flexExternalPort (callText base ssid)) ∧
          ¬ ((flexNetInit (some rangeText) bpq).flexNetIsLocalCall a = true ∧
            0 < (flexNetInit (some rangeText) bpq).flexExternalPort (callText base ssid))) :=
  Config.own_frame_agrees (some rangeText) bpq (names_addr (by decide))

set_option maxRecDepth 10000 in
example : (flexNetInit (some rangeText) bpq).ownRecords =
    [⟨.ofCStr [0x4E], 0, 3⟩, ⟨.ofCStr [0x4B], 0, 0⟩] := by
  decide +kernel

end Bench

end FlexNet
