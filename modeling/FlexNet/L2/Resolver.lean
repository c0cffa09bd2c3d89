import FlexNet.L2.OwnHops
import FlexNet.Setup.Calls

/-!
# Which row a station is reached by

`flex_find_dest_for_target` takes the first of the cheapest finite rows that cover a callsign.  A
callsign without a suffix is SSID 0 to `flex_split_call` and to the conversion from AX.25, and any
SSID at all to this search, so the row it takes need not be one of the station that was meant
(`L2Node.resolves_iff`).
-/

namespace FlexNet

/-! ## Callsigns with and without a suffix -/

theorem strcasecmp_swap (a b : CStr) : strcasecmp a b = strcasecmp b a :=
  BEq.comm

theorem atoi_digits {ds : CStr} (hne : ds ≠ []) (hall : ds.all isDigit = true) :
    atoi ds = digitsValue ds := by
  obtain ⟨b, rest, rfl⟩ := List.exists_cons_of_ne_nil hne
  have hdigit : isDigit b = true := List.all_eq_true.mp hall b (List.mem_cons_self ..)
  have hblank : (b :: rest).dropWhile (· == 0x20) = b :: rest := by
    rw [List.dropWhile_cons_of_neg]
    simpa using (ne_of_isDigit hdigit).1
  have htake : (b :: rest).takeWhile isDigit = b :: rest :=
    List.takeWhile_eq_self_iff.mpr fun c hc => List.all_eq_true.mp hall c hc
  unfold atoi
  rw [hblank]
  split
  · rename_i heq
    cases heq
    cases hdigit
  · rename_i heq
    cases heq
    cases hdigit
  · rw [htake]

/-- A callsign as `flex_find_dest_for_target` takes it apart: the same base, and the SSID where it
is written. -/
theorem splitFirstDash_of_split {call base : CStr} {ssid : ℤ}
    (h : flexSplitCall call = some (base, ssid)) :
    ∃ text suffix, splitFirstDash call = (text, suffix) ∧ base = text.map toUpper ∧ text ≠ [] ∧
      0 ≤ ssid ∧ (suffix = none ∧ 0x2D ∉ call ∧ ssid = 0 ∨
        ∃ digits, suffix = some digits ∧ 0x2D ∈ call ∧ atoi digits = ssid) := by
  unfold flexSplitCall at h
  dsimp only at h
  split_ifs at h with hbase
  have htake : call.takeWhile (· != 0x2D) ++ call.dropWhile (· != 0x2D) = call :=
    List.takeWhile_append_dropWhile
  have hdrop : call.drop (call.takeWhile (· != 0x2D)).length = call.dropWhile (· != 0x2D) := by
    have hleft : ((call.takeWhile (· != 0x2D)) ++ call.dropWhile (· != 0x2D)).drop
        (call.takeWhile (· != 0x2D)).length = call.dropWhile (· != 0x2D) := List.drop_left
    rwa [htake] at hleft
  rw [hdrop] at h
  have hne : call.takeWhile (· != 0x2D) ≠ [] := fun hnil => hbase (.inl (by simp [hnil]))
  unfold splitFirstDash
  cases hrest : call.dropWhile (· != 0x2D) with
  | nil =>
      rw [hrest] at h
      obtain ⟨rfl, rfl⟩ : (call.takeWhile (· != 0x2D)).map toUpper = base ∧ (0 : ℤ) = ssid := by
        simpa using h
      have hwhole : call.takeWhile (· != 0x2D) = call := by simpa [hrest] using htake
      refine ⟨call, none, rfl, by rw [hwhole], hwhole ▸ hne, le_rfl, .inl ⟨rfl, ?_, rfl⟩⟩
      intro hmem
      rw [← hwhole] at hmem
      simpa using List.all_eq_true.mp List.all_takeWhile _ hmem
  | cons dash digits =>
      rw [hrest] at h
      dsimp only at h
      split_ifs at h with hdigits
      obtain ⟨rfl, rfl⟩ : (call.takeWhile (· != 0x2D)).map toUpper = base ∧
          ((digitsValue digits : ℕ) : ℤ) = ssid := by simpa using h
      simp only [not_or, Bool.not_eq_false] at hdigits
      have hdash : dash = 0x2D := by
        have hhead : ¬ (dash != 0x2D) = true := by
          have := List.head_dropWhile_not (· != 0x2D) (l := call) (by simp [hrest])
          simpa [hrest] using this
        simpa using hhead
      refine ⟨_, some digits, rfl, rfl, hne, Int.natCast_nonneg _, .inr ⟨digits, rfl, ?_, ?_⟩⟩
      · rw [← htake, hrest, hdash]
        simp
      · exact atoi_digits (by simpa using hdigits.1) hdigits.2.1

/-! ## The search -/

/-- A finite row of a base that covers an SSID, any SSID when it is negative. -/
structure DestEntry.Covers (base : CStr) (ssid : ℤ) (d : DestEntry) : Prop where
  finite : d.rtt < rttInfinity
  base : strcasecmp d.key.call.bytes base = true
  range : 0 ≤ ssid → d.key.lo ≤ ssid ∧ ssid ≤ d.key.hi

/-- A finite row of the station a callsign names. -/
structure DestEntry.Addresses (call : CStr) (d : DestEntry) : Prop where
  finite : d.rtt < rttInfinity
  inRange : flexCallInRange call d.key.call.bytes d.key.lo d.key.hi = true

namespace PathNode

variable (n : PathNode)

/-- The cost of a row from here. -/
def costHere (d : DestEntry) : ℤ := n.flexDestCostHere d.rtt d.viaSession

theorem costHere_lt {d : DestEntry} (h : d.rtt < rttInfinity) : n.costHere d < rttInfinity := by
  unfold costHere Env.flexDestCostHere
  rw [if_neg (not_le.mpr h)]
  split
  · exact h
  · dsimp only
    split_ifs with hup hlt
    · exact hlt
    · omega
    · exact h

/-- The first of the cheapest rows of a kind. -/
def FirstBest (P : DestEntry → Prop) (i : ℕ) : Prop :=
  ∃ d, n.dests[i]? = some d ∧ P d ∧ ∀ j e, n.dests[j]? = some e → P e →
    n.costHere d < n.costHere e ∨ n.costHere d = n.costHere e ∧ i ≤ j

theorem FirstBest.unique {n : PathNode} {P : DestEntry → Prop} {i j : ℕ} (hi : n.FirstBest P i)
    (hj : n.FirstBest P j) : i = j := by
  obtain ⟨d, hd, hPd, hmin⟩ := hi
  obtain ⟨e, he, hPe, hmin'⟩ := hj
  have h := hmin j e he hPe
  have h' := hmin' i d hd hPd
  omega

/-- The search, after its first `count` rows. -/
structure Searched (P : DestEntry → Prop) (count : ℕ) (best : Option ℕ × ℤ) : Prop where
  none : best.1 = none → best.2 = rttInfinity ∧ ∀ j d, j < count → n.dests[j]? = some d → ¬ P d
  some : ∀ i, best.1 = some i → i < count ∧ ∃ d, n.dests[i]? = some d ∧ P d ∧
    best.2 = n.costHere d ∧
    ∀ j e, j < count → n.dests[j]? = some e → P e →
      n.costHere d < n.costHere e ∨ n.costHere d = n.costHere e ∧ i ≤ j

theorem flexFindBestDest_searched (base : CStr) (ssid : ℤ) :
    ∃ best, n.flexFindBestDest base ssid = best.1 ∧
      n.Searched (DestEntry.Covers base ssid) n.dests.length best := by
  unfold flexFindBestDest
  refine ⟨_, rfl, ?_⟩
  generalize n.dests.length = count
  induction count with
  | zero =>
      exact ⟨fun _ => ⟨rfl, fun j d hj => absurd hj (Nat.not_lt_zero j)⟩, fun i hi => by cases hi⟩
  | succ count ih =>
      rw [List.range_succ, List.foldl_append, List.foldl_cons, List.foldl_nil]
      generalize List.foldl _ (none, rttInfinity) (List.range count) = best at ih ⊢
      cases hrow : n.dests[count]? with
      | none =>
          dsimp only
          have hlast : ∀ j d, j < count + 1 → n.dests[j]? = some d → j < count := by
            intro j d hj hd
            rcases Nat.lt_succ_iff_lt_or_eq.mp hj with hj | rfl
            · exact hj
            · rw [hrow] at hd
              cases hd
          refine ⟨fun hnone => ⟨(ih.none hnone).1, fun j d hj hd => ?_⟩, fun i hi => ?_⟩
          · exact (ih.none hnone).2 j d (hlast j d hj hd) hd
          · obtain ⟨hlt, d, hd, hP, hcost, hmin⟩ := ih.some i hi
            exact ⟨hlt.trans (Nat.lt_succ_self _), d, hd, hP, hcost,
              fun j e hj he => hmin j e (hlast j e hj he) he⟩
      | some d =>
          dsimp only
          by_cases hcovers : DestEntry.Covers base ssid d
          · have hskip : ¬ (rttInfinity ≤ d.rtt ∨ strcasecmp d.key.call.bytes base = false ∨
                0 ≤ ssid ∧ (ssid < d.key.lo ∨ d.key.hi < ssid)) := by
              rintro (hinf | hbase | ⟨hssid, hrange⟩)
              · exact absurd hcovers.finite (not_lt.mpr hinf)
              · rw [hcovers.base] at hbase
                cases hbase
              · have := hcovers.range hssid
                omega
            rw [if_neg hskip]
            change n.Searched _ _ (if n.costHere d < best.2 then _ else _)
            have hfinite := n.costHere_lt hcovers.finite
            split_ifs with hcheaper
            · refine ⟨fun h => (by cases h), fun i hi => ?_⟩
              obtain rfl : count = i := by simpa using hi
              refine ⟨Nat.lt_succ_self _, d, hrow, hcovers, rfl, fun j e hj he hPe => ?_⟩
              rcases Nat.lt_succ_iff_lt_or_eq.mp hj with hj | rfl
              · cases hbest : best.1 with
                | none => exact absurd hPe ((ih.none hbest).2 j e hj he)
                | some i =>
                    obtain ⟨-, d', -, -, hcost, hmin⟩ := ih.some i hbest
                    have := hmin j e hj he hPe
                    omega
              · rw [hrow, Option.some.injEq] at he
                subst he
                exact .inr ⟨rfl, le_rfl⟩
            · refine ⟨fun hnone => ?_, fun i hi => ?_⟩
              · have := (ih.none hnone).1
                omega
              · obtain ⟨hlt, d', hd', hP, hcost, hmin⟩ := ih.some i hi
                refine ⟨hlt.trans (Nat.lt_succ_self _), d', hd', hP, hcost, fun j e hj he hPe => ?_⟩
                rcases Nat.lt_succ_iff_lt_or_eq.mp hj with hj | rfl
                · exact hmin j e hj he hPe
                · rw [hrow, Option.some.injEq] at he
                  subst he
                  omega
          · have hskip : rttInfinity ≤ d.rtt ∨ strcasecmp d.key.call.bytes base = false ∨
                0 ≤ ssid ∧ (ssid < d.key.lo ∨ d.key.hi < ssid) := by
              by_contra hno
              simp only [not_or, not_le, not_and, not_lt, Bool.not_eq_false] at hno
              exact hcovers ⟨hno.1, hno.2.1, hno.2.2⟩
            rw [if_pos hskip]
            refine ⟨fun hnone => ⟨(ih.none hnone).1, fun j e hj he => ?_⟩, fun i hi => ?_⟩
            · rcases Nat.lt_succ_iff_lt_or_eq.mp hj with hj | rfl
              · exact (ih.none hnone).2 j e hj he
              · rw [hrow, Option.some.injEq] at he
                exact he ▸ hcovers
            · obtain ⟨hlt, d', hd', hP, hcost, hmin⟩ := ih.some i hi
              refine ⟨hlt.trans (Nat.lt_succ_self _), d', hd', hP, hcost, fun j e hj he hPe => ?_⟩
              rcases Nat.lt_succ_iff_lt_or_eq.mp hj with hj | rfl
              · exact hmin j e hj he hPe
              · rw [hrow, Option.some.injEq] at he
                exact absurd (he ▸ hPe) hcovers

variable {n}

/-- The search finds the first of the cheapest rows. -/
theorem flexFindBestDest_eq_some {base : CStr} {ssid : ℤ} {i : ℕ} :
    n.flexFindBestDest base ssid = some i ↔ n.FirstBest (DestEntry.Covers base ssid) i := by
  obtain ⟨best, heq, hsearched⟩ := n.flexFindBestDest_searched base ssid
  have hlen : ∀ {j : ℕ} {e : DestEntry}, n.dests[j]? = some e → j < n.dests.length := fun he =>
    (List.getElem?_eq_some_iff.mp he).1
  rw [heq]
  constructor
  · intro hi
    obtain ⟨-, d, hd, hP, -, hmin⟩ := hsearched.some i hi
    exact ⟨d, hd, hP, fun j e he hPe => hmin j e (hlen he) he hPe⟩
  · intro hi
    cases hbest : best.1 with
    | none =>
        obtain ⟨d, hd, hP, -⟩ := hi
        exact absurd hP ((hsearched.none hbest).2 i d (hlen hd) hd)
    | some j =>
        obtain ⟨-, d, hd, hP, -, hmin⟩ := hsearched.some j hbest
        have hj : n.FirstBest (DestEntry.Covers base ssid) j :=
          ⟨d, hd, hP, fun j e he hPe => hmin j e (hlen he) he hPe⟩
        rw [hj.unique hi]

theorem flexFindBestDest_eq_none {base : CStr} {ssid : ℤ} :
    n.flexFindBestDest base ssid = none ↔ ∀ d ∈ n.dests, ¬ DestEntry.Covers base ssid d := by
  obtain ⟨best, heq, hsearched⟩ := n.flexFindBestDest_searched base ssid
  rw [heq]
  constructor
  · intro hnone d hd hcovers
    obtain ⟨i, hi, rfl⟩ := List.mem_iff_getElem.mp hd
    exact (hsearched.none hnone).2 i _ hi (List.getElem?_eq_getElem hi) hcovers
  · intro hall
    cases hbest : best.1 with
    | none => rfl
    | some i =>
        obtain ⟨-, d, hd, hP, -⟩ := hsearched.some i hbest
        exact absurd hP (hall d (List.mem_of_getElem? hd))

/-! ## Callsigns -/

variable {call base : CStr} {ssid : ℤ}

/-- A row is one of the named station when it covers its base and SSID. -/
theorem addresses_iff {d : DestEntry} {text : CStr} (h : flexSplitCall call = some (base, ssid))
    (hbase : base = text.map toUpper) (hne : text ≠ []) (hssid : 0 ≤ ssid) :
    d.Addresses call ↔ d.Covers text ssid := by
  have hsame : strcasecmp base d.key.call.bytes = strcasecmp d.key.call.bytes text := by
    rw [hbase, strcasecmp_toUpper]
    exact strcasecmp_swap _ _
  have hcall : d.key.call.bytes.isEmpty = true → strcasecmp d.key.call.bytes text = false := by
    intro hempty
    rw [List.isEmpty_iff.mp hempty]
    cases text with
    | nil => exact absurd rfl hne
    | cons b rest => rfl
  have hrange : flexCallInRange call d.key.call.bytes d.key.lo d.key.hi = true ↔
      strcasecmp d.key.call.bytes text = true ∧ d.key.lo ≤ ssid ∧ ssid ≤ d.key.hi := by
    unfold flexCallInRange
    rw [h, Option.any_some]
    dsimp only
    rw [hsame]
    cases hempty : d.key.call.bytes.isEmpty
    · simp
    · simp [hcall hempty]
  constructor
  · rintro ⟨hfinite, hin⟩
    obtain ⟨hmatch, hlo⟩ := hrange.mp hin
    exact ⟨hfinite, hmatch, fun _ => hlo⟩
  · rintro ⟨hfinite, hmatch, hlo⟩
    exact ⟨hfinite, hrange.mpr ⟨hmatch, hlo hssid⟩⟩

/-- The resolver finds the cheapest row of the station, and nothing when there is none. -/
structure ResolvesExactly (n : PathNode) (call : CStr) : Prop where
  found : ∀ i, n.flexFindDestForTarget call = some i → ∃ d, n.dests[i]? = some d ∧
    d.Addresses call ∧ ∀ e ∈ n.dests, e.Addresses call → n.costHere d ≤ n.costHere e
  missing : n.flexFindDestForTarget call = none ↔ ∀ d ∈ n.dests, ¬ d.Addresses call

/-- A row of another SSID of the base is not taken for the station: one of the station is cheaper,
or as cheap and earlier in the table. -/
def Outbid (n : PathNode) (call : CStr) (i : ℕ) (d : DestEntry) : Prop :=
  ∃ j e, n.dests[j]? = some e ∧ e.Addresses call ∧
    (n.costHere e < n.costHere d ∨ n.costHere e = n.costHere d ∧ j < i)

theorem resolvesExactly_iff (h : flexSplitCall call = some (base, ssid)) :
    n.ResolvesExactly call ↔ 0x2D ∈ call ∨
      ∀ i d, n.dests[i]? = some d → d.Covers base (-1) → ¬ d.Addresses call →
        n.Outbid call i d := by
  obtain ⟨text, suffix, hsplit, hbase, hne, hssid, hsuffix⟩ := splitFirstDash_of_split h
  have haddresses : ∀ d : DestEntry, d.Addresses call ↔ d.Covers text ssid := fun d =>
    addresses_iff h hbase hne hssid
  have hcall : call.isEmpty = false := by
    cases call with
    | nil => simp [flexSplitCall] at h
    | cons b rest => rfl
  have hfind : n.flexFindDestForTarget call =
      n.flexFindBestDest text ((suffix.map atoi).getD (-1)) := by
    unfold flexFindDestForTarget
    rw [if_neg (by simp [hcall]), hsplit]
  have hmem : ∀ {i : ℕ} {d : DestEntry}, n.dests[i]? = some d → d ∈ n.dests :=
    fun hd => List.mem_of_getElem? hd
  rcases hsuffix with ⟨rfl, hdash, rfl⟩ | ⟨digits, rfl, hdash, hvalue⟩
  · -- no suffix: the search takes any SSID of the base
    have hany : ∀ d : DestEntry, d.Covers base (-1) ↔ d.Covers text (-1) := fun d => by
      constructor <;> rintro ⟨hfinite, hmatch, -⟩ <;>
        refine ⟨hfinite, ?_, fun hneg => by omega⟩
      · rwa [hbase, strcasecmp_swap, strcasecmp_toUpper, strcasecmp_swap] at hmatch
      · rwa [hbase, strcasecmp_swap, strcasecmp_toUpper, strcasecmp_swap]
    have hwider : ∀ {d : DestEntry}, d.Addresses call → d.Covers text (-1) := fun {d} hd =>
      ⟨hd.finite, ((haddresses d).mp hd).base, fun hneg => by omega⟩
    simp only [hdash, false_or, hany]
    replace hfind : n.flexFindDestForTarget call = n.flexFindBestDest text (-1) := hfind
    constructor
    · intro hexact i d hd hcovers hnot
      cases hfound : n.flexFindBestDest text (-1) with
      | none => exact absurd hcovers (flexFindBestDest_eq_none.mp hfound d (hmem hd))
      | some r =>
          obtain ⟨e, he, haddr, -⟩ := hexact.found r (hfind.trans hfound)
          obtain ⟨e', he', -, hmin⟩ := flexFindBestDest_eq_some.mp hfound
          obtain rfl : e = e' := Option.some.inj (he.symm.trans he')
          refine ⟨r, e, he, haddr, (hmin i d hd hcovers).imp_right fun ⟨hcost, hle⟩ => ⟨hcost, ?_⟩⟩
          refine lt_of_le_of_ne hle ?_
          rintro rfl
          exact hnot (Option.some.inj (he.symm.trans hd) ▸ haddr)
    · intro houtbid
      constructor
      · intro i hi
        rw [hfind] at hi
        obtain ⟨d, hd, hcovers, hmin⟩ := flexFindBestDest_eq_some.mp hi
        refine ⟨d, hd, ?_, fun e he haddr => ?_⟩
        · by_contra hnot
          obtain ⟨j, e, he, haddr, hless⟩ := houtbid i d hd hcovers hnot
          have := hmin j e he (hwider haddr)
          omega
        · obtain ⟨j, hj, rfl⟩ := List.mem_iff_getElem.mp he
          have := hmin j _ (List.getElem?_eq_getElem hj) (hwider haddr)
          omega
      · rw [hfind]
        constructor
        · intro hnone d hd haddr
          exact flexFindBestDest_eq_none.mp hnone d hd (hwider haddr)
        · intro hall
          refine flexFindBestDest_eq_none.mpr fun d hd hcovers => ?_
          obtain ⟨i, hi, rfl⟩ := List.mem_iff_getElem.mp hd
          obtain ⟨j, e, he, haddr, -⟩ :=
            houtbid i _ (List.getElem?_eq_getElem hi) hcovers (hall _ hd)
          exact hall e (hmem he) haddr
  · -- a suffix: the search takes that SSID
    refine iff_of_true ?_ (.inl hdash)
    have hfind' : n.flexFindDestForTarget call = n.flexFindBestDest text ssid := by
      rw [hfind]
      exact congrArg (n.flexFindBestDest text) hvalue
    constructor
    · intro i hi
      rw [hfind'] at hi
      obtain ⟨d, hd, hcovers, hmin⟩ := flexFindBestDest_eq_some.mp hi
      refine ⟨d, hd, (haddresses d).mpr hcovers, fun e he haddr => ?_⟩
      obtain ⟨j, hj, rfl⟩ := List.mem_iff_getElem.mp he
      have := hmin j _ (List.getElem?_eq_getElem hj) ((haddresses _).mp haddr)
      omega
    · rw [hfind', flexFindBestDest_eq_none]
      exact forall₂_congr fun d _ => not_congr (haddresses d).symm

/-! ## The callers -/

/-- What `FlexNet_FindRoute` finds: the port of an external station, or a row and its port. -/
inductive FoundRoute
  | external (port : ℕ)
  | row (i port : ℕ)
  | notFlexNet
deriving DecidableEq

/-- `FlexNet_FindRoute`. -/
def flexNetFindRoute (n : PathNode) (axcall : AxCall) : FoundRoute :=
  let target := flexNormalizeCallsign axcall
  if n.cfg.flexExternalPort target ≠ 0 then .external (n.cfg.flexExternalPort target)
  else match n.flexFindDestForTarget target with
    | none => .notFlexNet
    | some best =>
      match n.dests[best]? with
      | none => .notFlexNet
      | some e => .row best e.port

/-- A request is answered, or passed on, by a row. -/
def AnswersBy (n : PathNode) (s : Slot) (call : CStr) (f : PathFrame) (data : CStr) (i : ℕ)
    (d : DestEntry) : Prop :=
  n.transitPathReq s call f data =
      n.answerPathReq s call f data [f.origin.bytes, n.cfg.pathCall, call] ∨
    n.transitPathReq s call f data = n.answerPathReq s call f data
      ([f.origin.bytes, n.cfg.pathCall] ++
      ((d.path.filter fun h => !h.isEmpty).take (maxPathHops - 2)).map Callsign.bytes) ∨
    n.transitPathReq s call f data = n.passPathReq s call i f data

end PathNode

namespace L2Node

variable {n : L2Node} {call base : CStr} {ssid : ℤ}

/-- Connects, circuits and path answers go by rows of the station that is called. -/
structure RoutesExactly (n : L2Node) (call : CStr) : Prop where
  findRoute : ∀ axcall i port, flexNormalizeCallsign axcall = call →
    n.flexNetFindRoute axcall = .row i port →
      ∃ d, n.dests[i]? = some d ∧ d.Addresses call ∧ d.port = port
  resolveHop : ∀ dest, flexNormalizeCallsign dest = call → n.cfg.flexExternalPort call = 0 →
    (n.flexL2ResolveHop dest).2 = .declined ∨
      ∃ d ∈ n.dests, d.Addresses call ∧ ∃ via, n.healedVia d = some via ∧
        ((n.flexL2ResolveHop dest).2 = .adjacent (n.sessions via).port ∨
          (n.flexL2ResolveHop dest).2 =
            .hop (n.sessions via).peerCallsign false (n.sessions via).port)
  pathAnswers : ∀ s f data, n.transitPathReq s call f data = n.toPathNode ∨
    ∃ i d, n.dests[i]? = some d ∧ d.Addresses call ∧ n.AnswersBy s call f data i d

theorem RoutesExactly.of_resolves (h : n.ResolvesExactly call) : n.RoutesExactly call := by
  have hrow : ∀ i d, n.flexFindDestForTarget call = some i → n.dests[i]? = some d →
      d.Addresses call := fun i d hi hd => by
    obtain ⟨e, he, haddr, -⟩ := h.found i hi
    obtain rfl : e = d := Option.some.inj (he.symm.trans hd)
    exact haddr
  constructor
  · intro axcall i port hcall hroute
    unfold PathNode.flexNetFindRoute at hroute
    rw [hcall] at hroute
    dsimp only at hroute
    split_ifs at hroute
    split at hroute
    · cases hroute
    · rename_i best hbest
      split at hroute
      · cases hroute
      · rename_i e he
        cases hroute
        exact ⟨e, he, hrow _ e hbest he, rfl⟩
  · intro dest hcall hexternal
    unfold flexL2ResolveHop
    dsimp only
    rw [hcall, if_neg (not_not.mpr hexternal)]
    cases hfound : n.flexFindDestForTarget call with
    | none => exact .inl rfl
    | some di =>
        dsimp only
        cases hd : n.dests[di]? with
        | none => exact .inl rfl
        | some d =>
            rw [Option.bind_some]
            cases hvia : n.healedVia d with
            | none => exact .inl rfl
            | some via =>
                have haddr := hrow di d hfound hd
                dsimp only
                split_ifs
                · exact .inl rfl
                · exact .inr ⟨d, List.mem_of_getElem? hd, haddr, via, hvia, .inl rfl⟩
                · exact .inr ⟨d, List.mem_of_getElem? hd, haddr, via, hvia, .inr rfl⟩
  · intro s f data
    unfold PathNode.AnswersBy PathNode.transitPathReq
    by_cases hoff : (!n.cfg.transit) = true
    · exact .inl (if_pos hoff)
    rw [if_neg hoff]
    cases hfound : n.flexFindDestForTarget call with
    | none => exact .inl rfl
    | some i =>
        dsimp only
        cases hd : n.dests[i]? with
        | none => exact .inl rfl
        | some d =>
            refine .inr ⟨i, d, hd, hrow i d hfound hd, ?_⟩
            dsimp only
            split_ifs
            · exact .inl rfl
            · exact .inr (.inl rfl)
            · exact .inr (.inr rfl)

/-- Targets resolve to the station that is called exactly when the callsign has a suffix, or no row
of another SSID of its base gets in first. -/
theorem resolves_iff (n : L2Node) (h : flexSplitCall call = some (base, ssid)) :
    n.ResolvesExactly call ∧ n.RoutesExactly call ↔ 0x2D ∈ call ∨
      ∀ i d, n.dests[i]? = some d → d.Covers base (-1) → ¬ d.Addresses call →
        n.Outbid call i d := by
  rw [← PathNode.resolvesExactly_iff h]
  exact ⟨And.left, fun hexact => ⟨hexact, .of_resolves hexact⟩⟩

end L2Node

namespace Bench

/-- The digipeater, to which `A` has told of `K-5` as well, for less than `K`. -/
def twoOfOneBase : L2Node :=
  let offer : CStr := [0x33] ++ recordOctets ⟨.ofCStr [0x4B], 5, 5⟩ 7 ++ [0x0D]
  { digipeater with toNode := digipeater.toNode.after [.processCE 0 offer] }

set_option maxRecDepth 10000 in
/-- `K` is reached by the row of `K-5`. -/
theorem not_always_resolved : ¬ ∀ (n : L2Node) (call base : CStr) (ssid : ℤ),
    flexSplitCall call = some (base, ssid) → n.ResolvesExactly call ∧ n.RoutesExactly call := by
  intro hall
  obtain ⟨d, hd, haddr, -⟩ := (hall twoOfOneBase [0x4B] [0x4B] 0 (by decide)).1.found 2
    (by decide +kernel)
  have hrange : (twoOfOneBase.dests[2]?.any fun d =>
      flexCallInRange [0x4B] d.key.call.bytes d.key.lo d.key.hi) = false := by decide +kernel
  rw [hd, Option.any_some, haddr.inRange] at hrange
  cases hrange

set_option maxRecDepth 10000 in
/-- `K-5` is reached by its own row, `K` by that too. -/
theorem resolves_iff_twoOfOneBase :
    twoOfOneBase.ResolvesExactly [0x4B, 0x2D, 0x35] ∧
      twoOfOneBase.RoutesExactly [0x4B, 0x2D, 0x35] :=
  have hsplit : flexSplitCall [0x4B, 0x2D, 0x35] = some ([0x4B], 5) := by decide
  (L2Node.resolves_iff twoOfOneBase hsplit).mpr (.inl (by decide))

end Bench

end FlexNet
