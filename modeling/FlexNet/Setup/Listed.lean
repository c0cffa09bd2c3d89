import FlexNet.Setup.Calls

/-!
# What a text can set up

Whatever the text, the applications and the ports are: the local calls are at most sixteen different
calls that a record can carry (`Listed`), the range of SSIDs is in order, and an entry on the node's
own base is advertised only outside the range of the node's record.
-/

namespace FlexNet

/-! ## The table of local calls -/

/-- An entry is a call in capitals. -/
structure LocalCall.Entered (l : LocalCall) : Prop where
  isBase : IsBase l.base
  capitals : l.base.map toUpper = l.base
  ssid : 0 ≤ l.ssid ∧ l.ssid ≤ 15

/-- The call of an entry. -/
def LocalCall.call (l : LocalCall) : CStr × ℤ := (l.base, l.ssid)

/-- A table of different calls. -/
structure Listed (ls : List LocalCall) : Prop where
  entered : ∀ l ∈ ls, l.Entered
  distinct : (ls.map LocalCall.call).Nodup
  room : ls.length ≤ maxLocalCalls

theorem Listed.nil : Listed [] := ⟨(fun _ h => by cases h), List.nodup_nil, Nat.zero_le _⟩

/-- Writing to an entry leaves its call. -/
theorem Listed.map {ls : List LocalCall} (h : Listed ls) {g : LocalCall → LocalCall}
    (hbase : ∀ l, (g l).base = l.base) (hssid : ∀ l, (g l).ssid = l.ssid) : Listed (ls.map g) := by
  have hcall : LocalCall.call ∘ g = LocalCall.call :=
    funext fun l => Prod.ext (hbase l) (hssid l)
  constructor
  · intro l hl
    obtain ⟨l₀, hl₀, rfl⟩ := List.mem_map.mp hl
    obtain ⟨hisBase, hcapitals, hrange⟩ := h.entered l₀ hl₀
    rw [← hbase] at hisBase hcapitals
    rw [← hssid] at hrange
    exact ⟨hisBase, hcapitals, hrange⟩
  · rw [List.map_map, hcall]
    exact h.distinct
  · rw [List.length_map]
    exact h.room

/-- A call in capitals that a record can carry. -/
structure SplitCall (base : CStr) (ssid : ℤ) : Prop where
  isBase : IsBase base
  capitals : base.map toUpper = base
  ssid : 0 ≤ ssid ∧ ssid ≤ 15

theorem toUpper_toUpper : ∀ b : UInt8, toUpper (toUpper b) = toUpper b :=
  L2Addr.forall_octet (by decide +kernel)

theorem isAlnum_toUpper (b : UInt8) : isAlnum b = true → isAlnum (toUpper b) = true :=
  L2Addr.forall_octet (P := fun b => isAlnum b = true → isAlnum (toUpper b) = true)
    (by decide +kernel) b

theorem isBase_toUpper {base : CStr} (h : IsBase base) : IsBase (base.map toUpper) := by
  refine ⟨by simpa using h.nonempty, by simpa using h.short, fun b hb => ?_⟩
  obtain ⟨c, hc, rfl⟩ := List.mem_map.mp hb
  exact isAlnum_toUpper c (h.alnum c hc)

theorem capitals_toUpper (base : CStr) : (base.map toUpper).map toUpper = base.map toUpper := by
  rw [List.map_map]
  exact List.map_congr_left fun b _ => toUpper_toUpper b

/-- What `flex_split_call` accepts. -/
theorem flexSplitCall_spec {call base : CStr} {ssid : ℤ}
    (h : flexSplitCall call = some (base, ssid)) :
    SplitCall base ssid := by
  unfold flexSplitCall at h
  dsimp only at h
  split at h
  · cases h
  rename_i hok
  have hisBase : IsBase (call.takeWhile (· != 0x2D)) := by
    refine ⟨fun hnil => hok (.inl (by rw [hnil]; rfl)), ?_, ?_⟩
    · by_contra hlong
      exact hok (.inr (.inl (not_le.mp hlong)))
    · have hall : (call.takeWhile (· != 0x2D)).all isAlnum = true := by
        by_contra hall
        exact hok (.inr (.inr (by simpa using hall)))
      exact List.all_eq_true.mp hall
  split at h
  · obtain ⟨rfl, rfl⟩ := Prod.mk.inj (Option.some.inj h)
    exact ⟨isBase_toUpper hisBase, capitals_toUpper _, le_rfl, by norm_num⟩
  · split at h
    · cases h
    · rename_i hdigits
      obtain ⟨rfl, rfl⟩ := Prod.mk.inj (Option.some.inj h)
      refine ⟨isBase_toUpper hisBase, capitals_toUpper _, Int.natCast_nonneg _, ?_⟩
      by_contra hbig
      exact hdigits (.inr (.inr (by omega)))

section Tables

variable {ls ls' : List LocalCall} {base : CStr} {ssid : ℤ}

theorem LocalCall.named_iff {l : LocalCall} : l.named base ssid = true ↔ l.call = (base, ssid) := by
  simp [LocalCall.named, LocalCall.call]

theorem Listed.add (h : Listed ls) (hcall : SplitCall base ssid)
    (hadd : flexLocalAdd base ssid ls = some ls') : Listed ls' := by
  unfold flexLocalAdd at hadd
  split at hadd
  · obtain rfl := Option.some.inj hadd
    exact h
  rename_i hfresh
  split at hadd
  · cases hadd
  rename_i hroom
  obtain rfl := Option.some.inj hadd
  constructor
  · intro l hl
    rcases List.mem_append.mp hl with hl | hl
    · exact h.entered l hl
    · obtain rfl := List.mem_singleton.mp hl
      exact ⟨hcall.isBase, hcall.capitals, hcall.ssid⟩
  · rw [List.map_append, List.nodup_append]
    refine ⟨h.distinct, List.nodup_singleton _, fun c hc d hd heq => hfresh ?_⟩
    obtain ⟨l, hl, rfl⟩ := List.mem_map.mp hc
    obtain rfl := List.mem_singleton.mp hd
    exact List.any_eq_true.mpr ⟨l, hl, LocalCall.named_iff.mpr heq⟩
  · rw [List.length_append, List.length_singleton]
    omega

theorem Listed.addD (h : Listed ls) (hcall : SplitCall base ssid) :
    Listed ((flexLocalAdd base ssid ls).getD ls) := by
  cases hadd : flexLocalAdd base ssid ls with
  | none => exact h
  | some ls' => exact h.add hcall hadd

theorem Listed.addLocalToken (h : Listed ls) (tok : CStr) : Listed (addLocalToken ls tok) := by
  unfold FlexNet.addLocalToken
  split
  · exact h
  split
  · exact h
  · rename_i base ssid hsplit
    exact h.addD (flexSplitCall_spec hsplit)

/-- A fold keeps what each of its steps keeps. -/
theorem Listed.foldl {α : Type} (g : List LocalCall → α → List LocalCall)
    (hstep : ∀ ls a, Listed ls → Listed (g ls a)) (xs : List α) (h : Listed ls) :
    Listed (xs.foldl g ls) := by
  induction xs generalizing ls with
  | nil => exact h
  | cons x xs ih => exact ih (hstep ls x h)

theorem Listed.localLine {line : CStr} (h : Listed ls)
    (hline : flexParseLocalLine line ls = some ls') : Listed ls' := by
  unfold flexParseLocalLine at hline
  split at hline
  · cases hline
  · cases hline
  · obtain rfl := Option.some.inj hline
    exact h.foldl _ (fun _ tok hls => hls.addLocalToken tok) _

theorem Listed.setExternal (h : Listed ls) (base : CStr) (ssid : ℤ) (port : ℕ) :
    Listed (setExternal base ssid port ls) := by
  refine h.map (fun l => ?_) fun l => ?_
  · split <;> rfl
  · split <;> rfl

theorem externalStation_spec {p : CStr} {port : ℕ}
    (h : externalStation p = some (base, ssid, port)) : SplitCall base ssid := by
  unfold externalStation at h
  split at h
  · cases h
  split at h
  · cases h
  obtain ⟨⟨base', ssid'⟩, hsplit, heq⟩ := Option.map_eq_some_iff.mp h
  obtain ⟨rfl, hrest⟩ := Prod.mk.inj heq
  obtain ⟨rfl, -⟩ := Prod.mk.inj hrest
  exact flexSplitCall_spec hsplit

theorem Listed.externalLine {line : CStr} (h : Listed ls)
    (hline : flexParseExternalLine line ls = some ls') : Listed ls' := by
  unfold flexParseExternalLine at hline
  split at hline
  · cases hline
  · cases hline
  split at hline
  · obtain rfl := Option.some.inj hline
    exact h
  · rename_i base ssid port hstation
    obtain rfl := Option.some.inj hline
    have hcall := externalStation_spec hstation
    cases hadd : flexLocalAdd base ssid ls with
    | none => exact h
    | some ls' => exact (h.add hcall hadd).setExternal base ssid port

end Tables

/-! ## The range of SSIDs -/

/-- A range of SSIDs in order. -/
def InOrder (range : Option (ℤ × ℤ)) : Prop :=
  ∀ lo hi, range = some (lo, hi) → 0 ≤ lo ∧ lo ≤ hi ∧ hi ≤ 15

theorem ssidBounds_inOrder (p : CStr) : InOrder (ssidBounds p) := by
  intro lo hi h
  unfold ssidBounds at h
  dsimp only at h
  obtain ⟨-, h⟩ := Option.ite_none_left_eq_some.mp h
  obtain ⟨hok, h⟩ := Option.ite_none_left_eq_some.mp h
  obtain ⟨rfl, rfl⟩ := Prod.mk.inj (Option.some.inj h)
  omega

theorem ssidrangeLine_inOrder {line : CStr} {range range' : Option (ℤ × ℤ)} (h : InOrder range)
    (hline : flexParseSsidrangeLine line range = some range') : InOrder range' := by
  unfold flexParseSsidrangeLine at hline
  split at hline
  · cases hline
  split at hline
  · cases hline
  · obtain rfl := Option.some.inj hline
    exact h
  · rename_i p _
    obtain rfl := Option.some.inj hline
    cases hbounds : ssidBounds p with
    | none => exact h
    | some bounds =>
        have hp := ssidBounds_inOrder p
        rwa [hbounds] at hp

/-! ## The text -/

namespace Directives

/-- What holds of the directives after any text. -/
structure Settled (d : Directives) : Prop where
  range : InOrder d.ssidRange
  listed : Listed d.locals

theorem Settled.readLine {d : Directives} (h : d.Settled) (line : CStr) :
    (d.readLine line).Settled := by
  unfold Directives.readLine
  cases hrange : flexParseSsidrangeLine line d.ssidRange with
  | some v => exact ⟨ssidrangeLine_inOrder h.range hrange, h.listed⟩
  | none =>
  cases flexParseBoolLine keyLocalApps line d.localApps with
  | some v => exact ⟨h.range, h.listed⟩
  | none =>
  cases hlocal : flexParseLocalLine line d.locals with
  | some v => exact ⟨h.range, h.listed.localLine hlocal⟩
  | none =>
  cases hexternal : flexParseExternalLine line d.locals with
  | some v => exact ⟨h.range, h.listed.externalLine hexternal⟩
  | none =>
  cases flexParseTransitLine line d.transit with
  | some v => exact ⟨h.range, h.listed⟩
  | none =>
  cases flexParseL2transitLine line d.l2Transit with
  | some v => exact ⟨h.range, h.listed⟩
  | none =>
  cases flexParseBoolLine keyCrossport line d.crossport with
  | some v => exact ⟨h.range, h.listed⟩
  | none =>
  cases flexParseBoolLine keyPathForward line d.pathForward with
  | some v => exact ⟨h.range, h.listed⟩
  | none =>
  cases flexParseLt3byteLine line d.lt3byte with
  | some v => exact ⟨h.range, h.listed⟩
  | none =>
  cases flexParseBoolLine keyPcfQuiesce line d.pcfQuiesce with
  | some v => exact ⟨h.range, h.listed⟩
  | none => exact h

theorem flexLoadConfig_settled (text : Option CStr) : (flexLoadConfig text).Settled := by
  have hstart : ({} : Directives).Settled := ⟨fun _ _ h => by (cases h), .nil⟩
  unfold flexLoadConfig
  generalize text.elim [] fgetsLines = lines
  generalize ({} : Directives) = d at hstart ⊢
  induction lines generalizing d with
  | nil => exact hstart
  | cons line lines ih => exact ih (d.readLine line) (hstart.readLine line)

end Directives

/-! ## The start of the node -/

theorem Listed.collectApps {ls : List LocalCall} (h : Listed ls) (mybase : CStr)
    (appls : List CStr) :
    Listed (flexLocalCollectApps mybase appls ls) := by
  refine h.foldl _ (fun ls call hls => ?_) appls
  split
  · exact hls
  · rename_i base ssid hsplit
    split
    · exact hls
    · exact hls.addD (flexSplitCall_spec hsplit)

/-- An advertised entry on the node's base is a station outside the range of the node's record. -/
def OffRange (mybase : CStr) (range : ℤ × ℤ) (l : LocalCall) : Prop :=
  l.state = .bound → strcasecmp l.base mybase = true →
    l.extPort ≠ 0 ∧ ¬ (range.1 ≤ l.ssid ∧ l.ssid ≤ range.2)

/-- What `flex_local_resolve` binds. -/
theorem resolvedState_offRange {mybase : CStr} {lo hi : ℤ} {appls : List CStr} {l : LocalCall}
    (hbound : resolvedState mybase lo hi appls l = .bound)
    (hbase : strcasecmp l.base mybase = true) :
    l.extPort ≠ 0 ∧ ¬ (lo ≤ l.ssid ∧ l.ssid ≤ hi) := by
  unfold resolvedState at hbound
  rw [hbase, Bool.true_and, Bool.true_and] at hbound
  split at hbound
  · cases hbound
  rename_i hport
  split at hbound
  · cases hbound
  · rename_i hrange
    exact ⟨by simpa using hport, by simpa using hrange⟩

theorem externalState_bound {ports : ℕ → Bool} {forwards : Bool} {l : LocalCall}
    (h : externalState ports forwards l = .bound) : l.state = .bound := by
  unfold externalState at h
  split at h
  · exact h
  · rename_i hport
    by_contra hstate
    exact hport (.inr hstate)

theorem flexLocalInit_listed {d : Directives} (h : d.Settled) (myCall : AxCall)
    (table : List AxCall) (ports : ℕ → Bool) : Listed (flexLocalInit d myCall table ports) := by
  unfold flexLocalInit
  dsimp only
  split
  · exact h.listed
  refine Listed.map ?_ (fun _ => rfl) fun _ => rfl
  unfold flexLocalResolve
  refine Listed.map ?_ (fun _ => rfl) fun _ => rfl
  split
  · exact h.listed.collectApps _ _
  · exact h.listed

theorem flexLocalInit_offRange (d : Directives) (myCall : AxCall) (table : List AxCall)
    (ports : ℕ → Bool) : ∀ l ∈ flexLocalInit d myCall table ports,
      OffRange ((flexNormalizeCallsign myCall).takeWhile (· != 0x2D))
        (flexOwnSsidRange d.ssidRange ((myCall.ssid >>> 1) &&& 0x0F).toNat) l := by
  intro l hl hbound hbase
  unfold flexLocalInit flexLocalResolve at hl
  dsimp only at hl
  split at hl
  · rename_i hempty
    rw [Bool.and_eq_true, List.isEmpty_iff] at hempty
    rw [hempty.1] at hl
    cases hl
  · rw [List.map_map] at hl
    obtain ⟨l₀, -, rfl⟩ := List.mem_map.mp hl
    exact resolvedState_offRange (externalState_bound hbound) hbase

end FlexNet
