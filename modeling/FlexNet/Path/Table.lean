import FlexNet.Links.Timers
import FlexNet.Path.CacheFile

/-!
# What the destination table keeps

A row is made when there is room and no row has its key, and its key stays; only an answer and the
file of the path cache write chains.  So every table a node reaches is a `Table`: the SSIDs of its
keys are `int`s because those of records and of INIT frames are.  `Node.Tends` is what every
function of the node does to it, one lemma for each.
-/

namespace FlexNet

/-! ## Charts -/

theorem DestEntry.Charted.of_chart {us : CStr} {d d' : DestEntry} (hchart : d'.chart = d.chart)
    (h : d.Charted us) : d'.Charted us := by
  simp only [DestEntry.chart, Prod.mk.injEq] at hchart
  obtain ⟨hkey, hpath, hstamp⟩ := hchart
  obtain ⟨hhops, hshort, hapart, hends, hfits⟩ := h
  rw [← hpath] at hhops hshort hapart hends
  rw [← hkey] at hends
  rw [← hstamp] at hfits
  exact ⟨hhops, hshort, hapart, hends, hfits⟩

/-- A table is one by its charts. -/
theorem Table.of_charts {us : CStr} {dests dests' : List DestEntry}
    (hcharts : dests'.map DestEntry.chart = dests.map DestEntry.chart) (h : Table us dests) :
    Table us dests' := by
  have hback : ∀ d' ∈ dests', ∃ d ∈ dests, d'.chart = d.chart := by
    intro d' hd'
    have hmem : d'.chart ∈ dests.map DestEntry.chart := hcharts ▸ List.mem_map_of_mem hd'
    obtain ⟨d, hd, heq⟩ := List.mem_map.mp hmem
    exact ⟨d, hd, heq.symm⟩
  have hlen : dests'.length = dests.length := by
    simpa only [List.length_map] using congrArg List.length hcharts
  have hkeys : ∀ rows : List DestEntry, (rows.Pairwise fun d d' => ¬ SameDest d.key d'.key) ↔
      (rows.map DestEntry.chart).Pairwise fun c c' => ¬ SameDest c.1 c'.1 := by
    intro rows
    rw [List.pairwise_map]
    rfl
  constructor
  · rw [hlen]
    exact h.room
  · rw [hkeys, hcharts, ← hkeys]
    exact h.distinct
  · intro d' hd'
    obtain ⟨d, hd, heq⟩ := hback d' hd'
    have hkey : d'.key = d.key := congrArg Prod.fst heq
    rw [hkey]
    exact h.keys d hd
  · intro d' hd' hpath
    obtain ⟨d, hd, heq⟩ := hback d' hd'
    have hsame : d'.path = d.path := congrArg (fun c => c.2.1) heq
    exact (h.chains d hd (hsame ▸ hpath)).of_chart heq

theorem map_chart_modify {dests : List DestEntry} {f : DestEntry → DestEntry} (i : ℕ)
    (hf : ∀ d, (f d).chart = d.chart) :
    (dests.modify i f).map DestEntry.chart = dests.map DestEntry.chart := by
  refine List.ext_getElem? fun j => ?_
  rw [List.getElem?_map, List.getElem?_map, List.getElem?_modify]
  split_ifs
  · cases dests[j]? with
    | none => rfl
    | some d => exact congrArg some (hf d)
  · cases dests[j]? <;> rfl

/-- A row with a key of its own is put behind the others. -/
theorem Table.append {us : CStr} {dests : List DestEntry} {d : DestEntry} (h : Table us dests)
    (hroom : dests.length < maxDests) (hnew : flexFindDest dests d.key = none) (hkey : d.key.Fits)
    (hchain : d.path ≠ [] → d.Charted us) : Table us (dests ++ [d]) where
  room := by
    rw [List.length_append, List.length_singleton]
    omega
  distinct := by
    rw [List.pairwise_append]
    refine ⟨h.distinct, List.pairwise_singleton _ _, ?_⟩
    intro d' hd' x hx
    obtain rfl := List.mem_singleton.mp hx
    exact flexFindDest_eq_none.mp hnew d' hd'
  keys := by
    intro x hx
    rcases List.mem_append.mp hx with hx | hx
    · exact h.keys x hx
    · exact List.mem_singleton.mp hx ▸ hkey
  chains := by
    intro x hx hpath
    rcases List.mem_append.mp hx with hx | hx
    · exact h.chains x hx hpath
    · obtain rfl := List.mem_singleton.mp hx
      exact hchain hpath

/-- A row takes a chain that leads to it. -/
theorem Table.modify {us : CStr} {dests : List DestEntry} {i : ℕ} {f : DestEntry → DestEntry}
    (h : Table us dests) (hkey : ∀ d, (f d).key = d.key)
    (hchain : ∀ d, dests[i]? = some d → (f d).path ≠ [] → (f d).Charted us) :
    Table us (dests.modify i f) := by
  have hkeys : (dests.modify i f).map DestEntry.key = dests.map DestEntry.key := by
    refine List.ext_getElem? fun j => ?_
    rw [List.getElem?_map, List.getElem?_map, List.getElem?_modify]
    split_ifs
    · cases dests[j]? with
      | none => rfl
      | some d => exact congrArg some (hkey d)
    · cases dests[j]? <;> rfl
  constructor
  · rw [List.length_modify]
    exact h.room
  · have hpairs : ∀ rows : List DestEntry, (rows.Pairwise fun d d' => ¬ SameDest d.key d'.key) ↔
        (rows.map DestEntry.key).Pairwise fun k k' => ¬ SameDest k k' := by
      intro rows
      rw [List.pairwise_map]
    rw [hpairs, hkeys, ← hpairs]
    exact h.distinct
  · intro d' hd'
    rcases mem_modify hd' with hd' | ⟨d, hd, rfl⟩
    · exact h.keys d' hd'
    · rw [hkey]
      exact h.keys d (List.mem_of_getElem? hd)
  · intro d' hd' hpath
    rcases mem_modify hd' with hd' | ⟨d, hd, rfl⟩
    · exact h.chains d' hd' hpath
    · exact hchain d hd hpath

namespace Node

variable {n m o : Node} {s : Slot} {l : LinkId}

/-- The tables of a node: what neighbours taught it and declared is in range as well. -/
structure Tabled (n : Node) : Prop where
  table : Table n.cfg.pathCall n.dests
  learned : ∀ s, ∀ lr ∈ (n.learned s).routes, lr.key.Fits
  declared : ∀ s, FitsInt (n.sessions s).peerMaxSsid

/-- What a function of the node does to its tables: the configuration stays, and they stay
tables. -/
def Tends (n m : Node) : Prop := n.Tabled → m.cfg = n.cfg ∧ m.Tabled

theorem Tends.refl (n : Node) : n.Tends n := fun ht => ⟨rfl, ht⟩

theorem Tends.trans (h : n.Tends m) (h' : m.Tends o) : n.Tends o := by
  intro ht
  obtain ⟨hcfg, ht'⟩ := h ht
  obtain ⟨hcfg', ht''⟩ := h' ht'
  exact ⟨hcfg'.trans hcfg, ht''⟩

theorem Tends.ite {c : Prop} [Decidable c] (h : n.Tends m) (h' : n.Tends o) :
    n.Tends (if c then m else o) := by
  split_ifs
  exacts [h, h']

theorem Tends.foldl_mem {α : Type*} {f : Node → α → Node} {as : List α}
    (h : ∀ (n : Node), ∀ a ∈ as, n.Tends (f n a)) (n : Node) : n.Tends (as.foldl f n) := by
  induction as generalizing n with
  | nil => exact .refl n
  | cons a as ih =>
      exact (h n a List.mem_cons_self).trans
        (ih (fun m b hb => h m b (List.mem_cons_of_mem a hb)) _)

theorem Tends.foldl {α : Type*} {f : Node → α → Node} (h : ∀ (n : Node) a, n.Tends (f n a))
    (as : List α) (n : Node) : n.Tends (as.foldl f n) :=
  .foldl_mem (fun n a _ => h n a) n

/-! ## The writes -/

/-- A change of something else. -/
theorem tends_of_eq (hcfg : m.cfg = n.cfg) (hdests : m.dests = n.dests)
    (hlearned : m.learned = n.learned) (hsessions : m.sessions = n.sessions) : n.Tends m := by
  refine fun ht => ⟨hcfg, ?_, ?_, ?_⟩
  · rw [hcfg, hdests]
    exact ht.table
  · rw [hlearned]
    exact ht.learned
  · rw [hsessions]
    exact ht.declared

theorem OnlyPeers.tends (h : n.OnlyPeers m) : n.Tends m := by
  rw [h]
  exact tends_of_eq rfl rfl rfl rfl

theorem tends_setPeer (n : Node) (p : Slot) (x : Peer) : n.Tends (n.setPeer p x) :=
  tends_of_eq rfl rfl rfl rfl

theorem tends_setLink (n : Node) (l : LinkId) (x : Link) : n.Tends (n.setLink l x) :=
  tends_of_eq rfl rfl rfl rfl

/-- The charts stay as they are. -/
theorem tends_dests (n : Node) {dests : List DestEntry}
    (h : dests.map DestEntry.chart = n.dests.map DestEntry.chart) :
    n.Tends { n with dests := dests } :=
  fun ht => ⟨rfl, ht.table.of_charts h, ht.learned, ht.declared⟩

theorem tends_map (n : Node) {f : DestEntry → DestEntry} (hf : ∀ d, (f d).chart = d.chart) :
    n.Tends { n with dests := n.dests.map f } := by
  refine n.tends_dests ?_
  rw [List.map_map]
  exact List.map_congr_left fun d _ => hf d

theorem tends_modify (n : Node) (i : ℕ) {f : DestEntry → DestEntry}
    (hf : ∀ d, (f d).chart = d.chart) : n.Tends { n with dests := n.dests.modify i f } :=
  n.tends_dests (map_chart_modify i hf)

/-- A learned table whose keys come from one. -/
theorem tends_setLearned (n : Node) {s : Slot} {x : LearnedState}
    (h : ∀ lr ∈ x.routes, (∃ i, ∃ lr' ∈ (n.learned i).routes, lr'.key = lr.key) ∨ lr.key.Fits) :
    n.Tends (n.setLearned s x) := by
  refine fun ht => ⟨rfl, ht.table, ?_, ht.declared⟩
  intro i lr hlr
  by_cases hi : i = s
  · subst hi
    have hx : lr ∈ x.routes := by simpa [setLearned] using hlr
    rcases h lr hx with ⟨j, lr', hlr', hkey⟩ | hfits
    · exact hkey ▸ ht.learned j lr' hlr'
    · exact hfits
  · refine ht.learned i lr ?_
    simpa [setLearned, Function.update_of_ne hi] using hlr

/-- A table that changes hands. -/
theorem tends_handLearned (n : Node) {s i : Slot} {x : LearnedState}
    (h : x.routes = (n.learned i).routes) : n.Tends (n.setLearned s x) :=
  n.tends_setLearned fun lr hlr => .inl ⟨i, lr, h ▸ hlr, rfl⟩

theorem tends_clearLearned (n : Node) (s : Slot) : n.Tends (n.setLearned s {}) :=
  n.tends_setLearned fun _ hlr => absurd hlr List.not_mem_nil

/-- A session keeps the SSID its peer declared, or has one in range. -/
theorem tends_setSession (n : Node) {s : Slot} {x : Session}
    (h : x.peerMaxSsid = (n.sessions s).peerMaxSsid ∨ FitsInt x.peerMaxSsid) :
    n.Tends (n.setSession s x) := by
  refine fun ht => ⟨rfl, ht.table, ht.learned, ?_⟩
  intro i
  by_cases hi : i = s
  · subst hi
    rw [setSession_sessions_self]
    rcases h with h | h
    · exact h ▸ ht.declared i
    · exact h
  · rw [setSession_sessions_of_ne n x hi]
    exact ht.declared i

theorem fitsInt_zero : FitsInt 0 := by
  unfold FitsInt
  omega

/-! ## Frames and walks -/

theorem tends_flagLink (n : Node) (l : LinkId) (b : Bool) : n.Tends (n.flagLink l b) :=
  n.tends_setLink l _

theorem tends_unflagOldLink (n : Node) (s : Slot) : n.Tends (n.unflagOldLink s) := by
  unfold unflagOldLink
  split
  · exact .refl n
  · exact n.tends_flagLink _ false

theorem tends_flexSendInit (n : Node) (s : Slot) : n.Tends (n.flexSendInit s) :=
  (n.tends_setPeer s _).trans (tends_setSession _ (.inl (by rfl)))

theorem tends_sendKeepalive (n : Node) (s : Slot) : n.Tends (n.sendKeepalive s) :=
  n.tends_setPeer s _

theorem tends_flexSendLinkTime (n : Node) (s : Slot) : n.Tends (n.flexSendLinkTime s) :=
  .ite (.refl n) ((n.tends_setPeer s _).trans (tends_setSession _ (.inl (by rfl))))

theorem tends_triggerPeersAll (n : Node) (s : Slot) (keys : List Key) :
    n.Tends (n.triggerPeersAll s keys) := (onlyPeers_triggerPeersAll n s keys).tends

theorem tends_flexAdvertisePoisonSession (n : Node) (s : Slot) :
    n.Tends (n.flexAdvertisePoisonSession s) :=
  (Tends.ite (n.tends_handLearned (i := s) (by rfl)) (.refl n)).trans
    (onlyPeers_poisonSession n s).tends

theorem tends_flexAdvertiseSeedPeer (n : Node) (p : Slot) :
    n.Tends (n.flexAdvertiseSeedPeer p) :=
  .ite (.refl n) ((onlyPeers_walk n p false false).tends.trans
    (.trans (.ite (tends_setPeer _ p _) (.refl _)) (tends_handLearned _ (i := p) (by rfl))))

theorem tends_flexAdvertiseNeighbours (n : Node) (p : Slot) :
    n.Tends (n.flexAdvertiseNeighbours p) :=
  .ite (.refl n) ((onlyPeers_walk n p true true).tends.trans
    (.trans (.ite (tends_setPeer _ p _) (.refl _)) (tends_handLearned _ (i := p) (by rfl))))

theorem tends_seedIfUnsent (n : Node) (s : Slot) : n.Tends (n.seedIfUnsent s) :=
  .ite (.refl n) ((n.tends_setPeer s _).trans
    ((tends_setSession _ (.inl (by rfl))).trans (tends_flexAdvertiseSeedPeer _ s)))

/-! ## Next hops -/

/-- A new next hop leaves the chart of a row alone. -/
theorem chart_flexDestReelect (e : Env) (d : DestEntry) :
    (e.flexDestReelect d).chart = d.chart := by
  unfold Env.flexDestReelect
  extract_lets best
  split <;> rfl

theorem chart_shiftDest (s : Slot) (shift : ℤ) (d : DestEntry) :
    (shiftDest s shift d).chart = d.chart := by
  unfold shiftDest
  split_ifs <;> rfl

theorem tends_flexDestReelectVia (n : Node) (s : Slot) : n.Tends (n.flexDestReelectVia s) := by
  refine n.tends_map fun d => ?_
  split_ifs
  · exact chart_flexDestReelect _ d
  · rfl

theorem tends_healDest (n : Node) (i : ℕ) : n.Tends (n.healDest i) := by
  refine n.tends_modify i fun d => ?_
  split <;> rfl

/-! ## Records -/

theorem tends_flexLearnedAdd (n : Node) (s : Slot) {r : Record} (hr : r.key.Fits) :
    n.Tends (n.flexLearnedAdd s r) := by
  refine Tends.trans ?_ (onlyPeers_flexLearnedAdd n s r).tends
  refine n.tends_setLearned fun lr hlr => ?_
  rcases (n.learned s).heard_cases r n.now with hsame | ⟨old, hold, hput⟩ | ⟨-, hnew⟩
  · rw [hsame] at hlr
    exact .inl ⟨s, lr, hlr, rfl⟩
  · rw [hput] at hlr
    rcases KeyedTable.mem_store hlr with rfl | hlr
    · exact .inl ⟨s, old, KeyedTable.mem_of_lookup hold, rfl⟩
    · exact .inl ⟨s, lr, hlr, rfl⟩
  · rw [hnew] at hlr
    rcases List.mem_append.mp hlr with hlr | hlr
    · exact .inl ⟨s, lr, hlr, rfl⟩
    · obtain rfl := List.mem_singleton.mp hlr
      exact .inr hr

theorem tends_flexDtableMerge (n : Node) (r : Record) (s : Slot) (hr : n.Tabled → r.key.Fits) :
    n.Tends (n.flexDtableMerge r s) := by
  suffices hmerge : r.key.Fits → n.Tends (n.flexDtableMerge r s) from fun ht => hmerge (hr ht) ht
  intro hfits
  unfold flexDtableMerge
  refine .ite (.refl n) (.ite ?_ ?_)
  · split
    · exact .refl n
    · exact n.tends_modify _ fun _ => rfl
  extract_lets eff fresh n₀
  split
  · extract_lets d isCurrent isBetter n₁ n₂
    have h₁ : n.Tends n₁ := .ite (n.tends_modify _ fun _ => rfl) (.refl n)
    have h₂ : n₁.Tends n₂ := n₁.tends_flexLearnedAdd s hfits
    exact .ite h₁ (h₁.trans (h₂.trans
      (.ite (n₂.tends_modify _ fun _ => chart_flexDestReelect _ _) (.refl n₂))))
  · rename_i hnew
    by_cases hroom : n.dests.length < maxDests
    swap
    · rw [if_neg hroom]
      exact .refl n
    rw [if_pos hroom]
    have h₀ : n.Tends n₀ := fun ht => ⟨rfl, ht.table.append hroom hnew hfits fun h => absurd rfl h,
      ht.learned, ht.declared⟩
    exact .ite (h₀.trans (n₀.tends_flexLearnedAdd s hfits)) h₀

theorem tends_flagDirect (n : Node) (s : Slot) (k : Key) : n.Tends (n.flagDirect s k) := by
  unfold flagDirect
  split
  · exact .refl n
  rename_i lr hlr
  refine n.tends_setLearned fun lr' hlr' => .inl ?_
  rcases KeyedTable.mem_store hlr' with rfl | hlr'
  · exact ⟨s, lr, KeyedTable.mem_of_lookup hlr, rfl⟩
  · exact ⟨s, lr', hlr', rfl⟩

end Node

theorem digitsValue_lt (ds : CStr) (h : ∀ b ∈ ds, isDigit b = true) :
    digitsValue ds < 10 ^ ds.length := by
  induction ds using List.reverseRecOn with
  | nil => decide
  | append_singleton ds b ih =>
      have hb : b.toNat - 0x30 ≤ 9 := by
        have hdigit := h b (by simp)
        simp only [isDigit, Bool.and_eq_true, decide_eq_true_eq] at hdigit
        have hle : b.toNat ≤ 0x39 := hdigit.2
        omega
      have hrest := ih fun c hc => h c (by simp [hc])
      unfold digitsValue at hrest ⊢
      rw [List.foldl_append, List.length_append, List.length_singleton, pow_succ]
      simp only [List.foldl_cons, List.foldl_nil]
      omega

/-- A number of so many characters. -/
theorem natAbs_atoi_lt (t : CStr) : (atoi t).natAbs < 10 ^ t.length := by
  have hdigits : ∀ q : CStr,
      q.length ≤ t.length → digitsValue (q.takeWhile isDigit) < 10 ^ t.length := by
    intro q hq
    refine (digitsValue_lt _ fun b hb => List.mem_takeWhile_imp hb).trans_le ?_
    exact Nat.pow_le_pow_right (by norm_num)
      (((List.takeWhile_prefix _).length_le).trans hq)
  have hskip := (List.dropWhile_suffix (p := (· == 0x20)) (l := t)).length_le
  unfold atoi
  split
  · rename_i q heq
    rw [heq, List.length_cons] at hskip
    simpa using hdigits q (by omega)
  · rename_i q heq
    rw [heq, List.length_cons] at hskip
    simpa using hdigits q (by omega)
  · simpa using hdigits _ hskip

namespace Node

variable {n m o : Node} {s : Slot} {l : LinkId}

/-- The SSIDs of a record are in range. -/
theorem fits_parseRecords {withdrawal : Bool} {max : ℕ} {p : CStr} {r : Record}
    (h : r ∈ parseRecords withdrawal max p) : r.key.Fits := by
  have hssid : ∀ b, FitsInt (parseSsid b) := by
    intro b
    unfold parseSsid FitsInt
    split_ifs <;> omega
  have hrecord : ∀ (q : CStr) r rest, parseRecord withdrawal q = some (r, rest) → r.key.Fits := by
    intro q r rest hr
    unfold parseRecord at hr
    split at hr
    · cases hr
    · split at hr
      · cases hr
      split at hr
      · cases hr
      · obtain ⟨rfl, -⟩ := Prod.mk.inj (Option.some.inj hr)
        exact ⟨hssid _, hssid _⟩
  induction max generalizing p with
  | zero => exact absurd h List.not_mem_nil
  | succ max ih =>
      unfold parseRecords at h
      split at h
      · exact absurd h List.not_mem_nil
      · rename_i first rest hfirst
        rcases List.mem_cons.mp h with rfl | h
        · exact hrecord _ _ _ hfirst
        · exact ih h

theorem fits_flexParseCompactRecords {data : CStr} {max : ℕ} {r : Record}
    (h : r ∈ flexParseCompactRecords data max) : r.key.Fits := by
  unfold flexParseCompactRecords at h
  split at h
  · split at h
    · exact absurd h List.not_mem_nil
    · exact fits_parseRecords h
  · exact absurd h List.not_mem_nil

/-- The key of the neighbour's own entry is in range. -/
theorem fits_neighbourKey (h : n.Tabled) (s : Slot) : (n.neighbourKey s).Fits := by
  have hssid : FitsInt (ssidOf (splitFirstDash ((n.sessPeerCall s).take 9)).2) := by
    have hlen : ∀ t, (splitFirstDash ((n.sessPeerCall s).take 9)).2 = some t → t.length ≤ 9 := by
      intro t ht
      unfold splitFirstDash at ht
      split at ht
      · cases ht
      · rename_i c q heq
        obtain rfl := Option.some.inj ht
        have hsuffix := (List.dropWhile_suffix (p := (· != 0x2D))
          (l := (n.sessPeerCall s).take 9)).length_le
        rw [heq, List.length_cons] at hsuffix
        have htake := List.length_take_le 9 (n.sessPeerCall s)
        omega
    generalize (splitFirstDash ((n.sessPeerCall s).take 9)).2 = suffix at hlen
    cases suffix with
    | none => exact fitsInt_zero
    | some t =>
        have hvalue := natAbs_atoi_lt t
        have hpow : 10 ^ t.length ≤ 10 ^ 9 := Nat.pow_le_pow_right (by norm_num) (hlen t rfl)
        change FitsInt (atoi t)
        unfold FitsInt
        omega
  have hadopted : ∀ base ssid, FitsInt ssid → FitsInt (n.adoptedHi s base ssid) := by
    intro base ssid hfits
    unfold adoptedHi
    cases hfind : (n.learned s).routes.find? _ with
    | none => exact hfits
    | some lr => exact (h.learned s lr (List.mem_of_find?_eq_some hfind)).hi
  unfold neighbourKey
  dsimp only
  refine ⟨hssid, ?_⟩
  dsimp only
  split_ifs
  · have hdeclared := h.declared s
    unfold FitsInt at hssid hdeclared ⊢
    omega
  · exact hadopted _ _ hssid

theorem tends_flexAddNeighbourEntry (n : Node) (s : Slot) :
    n.Tends (n.flexAddNeighbourEntry s) := by
  unfold flexAddNeighbourEntry
  refine .ite (.refl n) (.ite (.refl n) ?_)
  extract_lets k n₁ n₂
  have h₁ : n.Tends n₁ := tends_of_eq rfl rfl rfl rfl
  have h₂ : n.Tends n₂ := by
    intro ht
    exact (h₁.trans (n₁.tends_flexDtableMerge _ s fun _ => fits_neighbourKey ht s)) ht
  exact h₂.trans (.ite (n₂.tends_flagDirect s k) (.refl n₂))

/-! ## Link time and link options -/

theorem tends_linkTimeMoved (n : Node) (s : Slot) : n.Tends (n.linkTimeMoved s) :=
  .ite (.refl n) (.ite (n.tends_handLearned (i := s) (by rfl))
    ((n.tends_handLearned (i := s) (by rfl)).trans (tends_triggerPeersAll _ s _)))

theorem tends_flexLinkTimeSample (n : Node) (s : Slot) :
    n.Tends (n.flexLinkTimeSample s) := by
  unfold flexLinkTimeSample
  extract_lets sess sample smoothed wire wire' m
  have hm : n.Tends m := n.tends_setSession (.inl (by rfl))
  exact .ite (.refl n) (.ite (n.tends_setSession (.inl (by rfl)))
    (.ite (hm.trans (tends_linkTimeMoved m s)) hm))

theorem tends_flexLinkOptsChanged (n : Node) (s : Slot) (opts : LinkOpts) :
    n.Tends (n.flexLinkOptsChanged s opts) := by
  unfold flexLinkOptsChanged
  extract_lets old n₁ shift n₂ n₃
  have h₁ : n.Tends n₁ := tends_of_eq rfl rfl rfl rfl
  have h₂ : n₁.Tends n₂ := .ite (.refl _) (n₁.tends_map (chart_shiftDest s shift))
  have h₃ : n₂.Tends n₃ := tends_triggerPeersAll n₂ s _
  refine (h₁.trans h₂).trans (.ite (.refl _) (h₃.trans (.ite (.refl _) ?_)))
  exact (onlyPeers_walk n₃ s false false).tends.trans (tends_setPeer _ s _)

theorem tends_flexLinkOptsPoll (n : Node) : n.Tends n.flexLinkOptsPoll := by
  have hpolled : n.Tends { n with linkOptsPolled := n.now } := tends_of_eq rfl rfl rfl rfl
  refine .ite (.refl n) (hpolled.trans (.foldl (fun n s => ?_) slots _))
  unfold pollLinkOpts
  dsimp only
  split
  · exact .refl n
  · exact .ite (.refl n) (.ite (.refl n) (n.tends_flexLinkOptsChanged s _))

/-! ## The session life cycle -/

theorem tends_rehandshake (n : Node) (s : Slot) : n.Tends (n.rehandshake s) :=
  (n.tends_setSession (.inl (by rfl))).trans
    ((tends_flexSendInit _ s).trans (tends_sendKeepalive _ s))

theorem tends_reenterSession (n : Node) (s : Slot) (l : LinkId) :
    n.Tends (n.reenterSession s l) := by
  unfold reenterSession
  extract_lets x m
  have hm : n.Tends m := (n.tends_flagLink l true).trans (tends_setSession _ (.inl (by rfl)))
  exact .ite hm (hm.trans (tends_rehandshake m s))

theorem tends_flexLearnedAdopt (n : Node) (s : Slot) (call : CStr) :
    n.Tends (n.flexLearnedAdopt s call) := by
  unfold flexLearnedAdopt
  refine .ite (n.tends_clearLearned s) ?_
  split
  · exact n.tends_clearLearned s
  · rename_i i _
    exact .ite (n.tends_handLearned (i := s) (by rfl))
      ((n.tends_handLearned (i := i) (by rfl)).trans (tends_clearLearned _ i))

/-- A session starts with nothing declared. -/
theorem tends_startSession (n : Node) (s : Slot) (l : LinkId) (port : ℕ) :
    n.Tends (n.startSession s l port) := by
  unfold startSession
  extract_lets call newCall n₁ n₂ x n₃ n₄ n₅ st n₆ n₇ n₈ n₉ sess n₁₀
  have h₁ : n.Tends n₁ := n.tends_setSession (.inr fitsInt_zero)
  have h₂ : n₁.Tends n₂ := tends_of_eq rfl rfl rfl rfl
  have h₃ : n₂.Tends n₃ := n₂.tends_setPeer s _
  have h₄ : n₃.Tends n₄ := n₃.tends_setPeer s _
  have h₅ : n₄.Tends n₅ := n₄.tends_flexLearnedAdopt s newCall
  have h₆ : n₅.Tends n₆ := n₅.tends_handLearned (i := s) (by rfl)
  have h₇ : n₆.Tends n₇ := tends_of_eq rfl rfl rfl rfl
  have h₈ : n₇.Tends n₈ := n₇.tends_setSession (.inr fitsInt_zero)
  have h₉ : n₈.Tends n₉ :=
    (n₈.tends_flagLink l true).trans ((tends_flexSendInit _ s).trans (tends_sendKeepalive _ s))
  have h₁₀ : n₉.Tends n₁₀ := n₉.tends_setSession (.inl (by rfl))
  exact h₁.trans <| h₂.trans <| h₃.trans <| h₄.trans <| h₅.trans <| h₆.trans <| h₇.trans <|
    h₈.trans <| h₉.trans <| h₁₀.trans (tends_of_eq rfl rfl rfl rfl)

theorem tends_flexNetInitSession (n : Node) (l : LinkId) (port : ℕ) :
    n.Tends (n.flexNetInitSession l port) := by
  unfold flexNetInitSession
  split
  · exact n.tends_reenterSession _ l
  · split
    · split
      · exact .refl n
      · exact (n.tends_flagLink _ false).trans (tends_reenterSession _ _ l)
    · split
      · exact .refl n
      · exact n.tends_startSession _ l port

theorem tends_flexNetCloseSession (n : Node) (l : LinkId) :
    n.Tends (n.flexNetCloseSession l) := by
  unfold flexNetCloseSession
  split
  · exact .refl n
  · rename_i s _
    exact (n.tends_handLearned (i := s) (by rfl)).trans <|
      (tends_setSession _ (.inl (by rfl))).trans <|
      (tends_flagLink _ l false).trans <| (tends_flexDestReelectVia _ s).trans <|
        tends_flexAdvertisePoisonSession _ s

theorem tends_flexNetNotePeerL2Restart (n : Node) (call : AxCall) (port : ℕ) :
    n.Tends (n.flexNetNotePeerL2Restart call port) := by
  unfold flexNetNotePeerL2Restart
  split
  · exact .refl n
  · exact .ite (.refl n) ((n.tends_setPeer _ _).trans
      ((tends_setSession _ (.inl (by rfl))).trans (tends_setPeer _ _ _)))

theorem tends_adoptSession (n : Node) (s : Slot) (l : LinkId) :
    n.Tends (n.adoptSession s l) := by
  unfold adoptSession
  extract_lets n₁ x n₂ n₃ y
  have h₁ : n.Tends n₁ := .ite (.refl n) (n.tends_unflagOldLink s)
  have h₂ : n₁.Tends n₂ := (n₁.tends_setSession (.inl (by rfl))).trans (tends_flagLink _ l true)
  have h₃ : n₂.Tends n₃ := tends_of_eq rfl rfl rfl rfl
  exact h₁.trans (h₂.trans (h₃.trans (n₃.tends_setSession (.inl (by rfl)))))

theorem tends_flexNetTryAdoptSession (n : Node) (l : LinkId) (port : ℕ) :
    n.Tends (n.flexNetTryAdoptSession l port).1 := by
  have hclose : ∀ (n : Node) (i : Slot), n.Tends (n.closeReplaced l port i) := fun n i => by
    unfold closeReplaced
    dsimp only
    split
    · exact .refl n
    · exact .ite (n.tends_flexNetCloseSession _) (.refl n)
  unfold flexNetTryAdoptSession
  dsimp only
  split_ifs
  · exact .refl n
  · exact .foldl hclose slots n
  · exact .refl n
  · split
    · exact .refl n
    · exact n.tends_adoptSession _ l

theorem tends_sabmAccepted (n : Node) (l : LinkId) (port : ℕ) :
    n.Tends (n.sabmAccepted l port) := by
  unfold sabmAccepted
  refine .ite (.refl n) ?_
  have hadopt := (n.tends_flagLink l true).trans
    (tends_flexNetTryAdoptSession (n.flagLink l true) l port)
  exact .ite hadopt (hadopt.trans (tends_flexNetInitSession _ l port))

/-! ## Received frames -/

theorem tends_flexNotePeerEstablished (n : Node) (s : Slot) :
    n.Tends (n.flexNotePeerEstablished s) := by
  unfold flexNotePeerEstablished
  refine .ite (.refl n) ?_
  split
  · exact .refl n
  · exact .ite (.refl n)
      ((n.tends_setSession (.inl (by rfl))).trans (tends_flexAddNeighbourEntry _ s))

theorem tends_answerReinit (n : Node) (s : Slot) : n.Tends (n.answerReinit s) :=
  (n.tends_flexSendInit s).trans <| (tends_sendKeepalive _ s).trans <|
    (tends_setSession _ (.inl (by rfl))).trans <| (tends_setPeer _ s _).trans (tends_setPeer _ s _)

theorem tends_inferFamily (n : Node) (s : Slot) (len : ℕ) :
    n.Tends (n.inferFamily s len) :=
  .ite (.refl n) (.ite ((n.tends_setSession (.inl (by rfl))).trans (tends_sendKeepalive _ s))
    (n.tends_setSession (.inl (by rfl))))

theorem fitsInt_initSsid (data : CStr) : FitsInt (initSsid data) := by
  unfold initSsid FitsInt
  split <;> omega

theorem tends_handleInit (n : Node) (s : Slot) (data : CStr) :
    n.Tends (n.handleInit s data) := by
  unfold handleInit
  extract_lets sess reinit n₁ n₂
  have h₁ : n.Tends n₁ := n.tends_setSession (.inr (fitsInt_initSsid data))
  have h₂ : n₁.Tends n₂ :=
    (n₁.tends_flexAddNeighbourEntry s).trans (tends_inferFamily _ s _)
  exact h₁.trans (h₂.trans ((Tends.ite (n₂.tends_answerReinit s) (.refl n₂)).trans
    (tends_seedIfUnsent _ s)))

theorem tends_handleKeepalive (n : Node) (s : Slot) (data : CStr) :
    n.Tends (n.handleKeepalive s data) := by
  unfold handleKeepalive
  extract_lets x n₁ n₂ n₃ n₄
  have h₁ : n.Tends n₁ := n.tends_setSession (.inl (by rfl))
  have h₂ : n₁.Tends n₂ := (n₁.tends_flexNotePeerEstablished s).trans
    (.ite (tends_setSession _ (.inl (by rfl))) (.refl _))
  have hecho : n₂.Tends (n₂.echoKeepalive s) := by
    have hstamp : n₂.Tends { n₂ with kaEchoAt := Function.update n₂.kaEchoAt s n₂.now } :=
      tends_of_eq rfl rfl rfl rfl
    exact .ite (.refl n₂) (hstamp.trans (tends_sendKeepalive _ s))
  have h₃ : n₂.Tends n₃ := hecho.trans (tends_flexSendLinkTime _ s)
  have h₄ : n₃.Tends n₄ := .ite (n₃.tends_seedIfUnsent s) (.refl n₃)
  exact h₁.trans (h₂.trans (h₃.trans (h₄.trans (n₄.tends_setSession (.inl (by rfl))))))

theorem tends_handleLinkTime (n : Node) (s : Slot) (data : CStr) :
    n.Tends (n.handleLinkTime s data) := by
  unfold handleLinkTime
  refine (n.tends_flexNotePeerEstablished s).trans
    ((tends_flexLinkTimeSample _ s).trans (.trans ?_ (tends_flexSendLinkTime _ s)))
  exact .ite (.refl _) (tends_setSession _ (.inl (by rfl)))

theorem tends_handleStatusPos (n : Node) (s : Slot) : n.Tends (n.handleStatusPos s) := by
  unfold handleStatusPos
  extract_lets n₁ x n₂ n₃ n₄
  have h₁ : n.Tends n₁ := n.tends_flexNotePeerEstablished s
  have h₂ : n₁.Tends n₂ := .ite (n₁.tends_setPeer s _) (.refl n₁)
  have h₃ : n₂.Tends n₃ := n₂.tends_setPeer s _
  have h₄ : n₃.Tends n₄ := .ite ((onlyPeers_walk n₃ s false true).tends.trans
    ((tends_setPeer _ s _).trans (tends_setPeer _ s _))) (.refl n₃)
  exact h₁.trans (h₂.trans (h₃.trans (h₄.trans (n₄.tends_setSession (.inl (by rfl))))))

theorem tends_handleFrame (n : Node) (s : Slot) (data : CStr) :
    n.Tends (n.handleFrame s data) := by
  unfold handleFrame
  split
  · exact n.tends_handleInit s data
  · exact n.tends_handleKeepalive s data
  · exact n.tends_handleLinkTime s data
  · exact n.tends_setPeer s _
  · exact n.tends_handleStatusPos s
  · exact (n.tends_flexNotePeerEstablished s).trans
      (.foldl_mem
        (fun n r hr => n.tends_flexDtableMerge r s fun _ => fits_flexParseCompactRecords hr) _)
  · exact .refl n

theorem tends_flexNetProcessCE (n : Node) (l : LinkId) (data : CStr) :
    n.Tends (n.flexNetProcessCE l data) := by
  unfold flexNetProcessCE
  refine .ite (.refl n) ?_
  split
  · exact n.tends_handleFrame _ data
  · have hinit := n.tends_flexNetInitSession l ((n.links l).port.getD 0)
    dsimp only
    split
    · exact hinit.trans (tends_handleFrame _ _ data)
    · exact hinit

theorem tends_ceReceived (n : Node) (l : LinkId) (port : ℕ) (data : CStr) :
    n.Tends (n.ceReceived l port data) := by
  unfold ceReceived
  extract_lets m
  have hm : n.Tends m := .ite (n.tends_flexNetInitSession l port) (.refl n)
  exact hm.trans (.ite (m.tends_flexNetProcessCE l data) (.refl m))

/-! ## The timer, and every event -/

theorem tends_keepPortLink (n : Node) (i : ℕ) : n.Tends (n.keepPortLink i) := by
  have hwritten : ∀ (n : Node) i pl, n.Tends (n.setPortLink i pl) := fun n i pl =>
    tends_of_eq rfl rfl rfl rfl
  unfold keepPortLink
  split
  · exact .refl n
  · refine .ite (.refl n) ?_
    split
    · have hseen := hwritten n i
      exact .ite (.refl n) (.ite ((hseen _).trans (tends_flexNetInitSession _ _ _)) (hseen _))
    · refine .ite (hwritten n i _) (.ite (.refl n) ?_)
      split
      · exact hwritten n i _
      · exact (n.tends_setLink _ _).trans (hwritten _ i _)

theorem tends_flexPortLinksKeep (n : Node) : n.Tends n.flexPortLinksKeep := by
  have hscanned : n.Tends { n with portLinkScanned := n.now } := tends_of_eq rfl rfl rfl rfl
  exact .ite (.refl n) (.ite (.refl n) (hscanned.trans (.foldl tends_keepPortLink _ _)))

theorem tends_setBadSince (n : Node) (s : Slot) (t : ℤ) : n.Tends (n.setBadSince s t) :=
  tends_of_eq rfl rfl rfl rfl

theorem tends_migrateSession (n : Node) (s : Slot) (li : LinkId) :
    n.Tends (n.migrateSession s li) := by
  unfold migrateSession
  extract_lets n₁ x n₂
  have h₁ : n.Tends n₁ := n.tends_unflagOldLink s
  have h₂ : n₁.Tends n₂ := (n₁.tends_setSession (.inl (by rfl))).trans (tends_flagLink _ li true)
  exact h₁.trans (h₂.trans (n₂.tends_setBadSince s 0))

theorem tends_reapSession (n : Node) (s : Slot) : n.Tends (n.reapSession s) := by
  unfold reapSession
  extract_lets n₁ n₂ st n₃ x n₄ n₅ n₆
  have h₁ : n.Tends n₁ := n.tends_setBadSince s 0
  have h₂ : n₁.Tends n₂ := n₁.tends_unflagOldLink s
  have h₃ : n₂.Tends n₃ := n₂.tends_handLearned (i := s) (by rfl)
  have h₄ : n₃.Tends n₄ := n₃.tends_setSession (.inl (by rfl))
  have h₅ : n₄.Tends n₅ :=
    (n₄.tends_flexDestReelectVia s).trans (tends_flexAdvertisePoisonSession _ s)
  have h₆ : n₅.Tends n₆ := n₅.tends_setSession (.inr fitsInt_zero)
  exact h₁.trans (h₂.trans (h₃.trans (h₄.trans (h₅.trans (h₆.trans (n₆.tends_setPeer s _))))))

theorem tends_reapTurn (n : Node) (s : Slot) : n.Tends (n.reapTurn s) := by
  by_cases hup : (n.sessions s).active = true
  · rw [n.reapTurn_up hup]
    have hbad := n.tends_setBadSince s (n.reapVerdict s).2
    dsimp only
    split
    · exact hbad
    · exact hbad.trans (tends_migrateSession _ s _)
    · exact hbad.trans (tends_reapSession _ s)
    · exact hbad
  · rw [n.reapTurn_down (by simpa using hup)]
    exact .refl n

theorem tends_proactiveInit (n : Node) : n.Tends n.proactiveInit := by
  have hscanned : n.Tends { n with lastProactiveInitScan := n.now } := tends_of_eq rfl rfl rfl rfl
  exact .ite (.refl n) (hscanned.trans (.foldl (fun n li =>
    .ite (n.tends_flexNetInitSession li _) (.refl n)) _ _))

theorem tends_serveSession (n : Node) (s : Slot) : n.Tends (n.serveSession s) := by
  refine .ite (.refl n) ?_
  have hkeepalive : n.Tends (n.serveKeepalive s) :=
    .ite (.refl n) ((n.tends_sendKeepalive s).trans
      ((tends_flexSendLinkTime _ s).trans (tends_setSession _ (.inl (by rfl)))))
  refine hkeepalive.trans (.trans (.ite ?_ (.refl _)) (.trans (.ite ?_ (.refl _))
    (tends_setPeer _ s _)))
  · exact (tends_handLearned _ (i := s) (by rfl)).trans
      ((tends_setPeer _ s _).trans (tends_flexAdvertiseNeighbours _ s))
  · exact tends_seedIfUnsent _ s

theorem tends_flexNetTimer (n : Node) : n.Tends n.flexNetTimer :=
  (n.tends_flexPortLinksKeep).trans <| (tends_flexLinkOptsPoll _).trans <|
    (Tends.foldl tends_reapTurn slots _).trans <| (tends_proactiveInit _).trans <|
      .foldl tends_serveSession slots _

theorem tends_sendPath (n : Node) (s : Slot) (pid : UInt8) (data : CStr) :
    n.Tends (n.sendPath s pid data) := .ite (n.tends_setPeer s _) (.refl n)

/-- Every event but a file of any rows keeps the tables. -/
theorem event_tends (n : Node) (e : Event) (hfile : ∀ rows, e ≠ .pathCache rows) :
    n.Tends (n.event e) := by
  cases e with
  | clock t k => exact tends_of_eq rfl rfl rfl rfl
  | row l x => exact n.tends_setLink l x
  | mapTable ports => exact tends_of_eq rfl rfl rfl rfl
  | initSession l port => exact n.tends_flexNetInitSession l port
  | closeSession l => exact n.tends_flexNetCloseSession l
  | notePeerL2Restart call port => exact n.tends_flexNetNotePeerL2Restart call port
  | tryAdoptSession l port => exact n.tends_flexNetTryAdoptSession l port
  | sabm l port => exact n.tends_sabmAccepted l port
  | processCE l data => exact n.tends_flexNetProcessCE l data
  | ceReceived l port data => exact n.tends_ceReceived l port data
  | timer => exact n.tends_flexNetTimer
  | heal i => exact n.tends_healDest i
  | pathCache rows => exact absurd rfl (hfile rows)
  | pathFrame s reply body => exact n.tends_sendPath s _ _
  | l3Frame s data => exact n.tends_sendPath s _ _

/-! ## The file -/

end Node

/-- A chain that ends at a key ends at every key taken for it. -/
theorem flexChainEndsAt_sameDest {chain : List Callsign} {k k' : Key} (hrow : SameDest k' k)
    (h : flexChainEndsAt chain k = true) : flexChainEndsAt chain k' = true := by
  have hbase := isBase_of_flexChainEndsAt h
  obtain ⟨hcall, hlo, hhi⟩ := hrow
  obtain ⟨last, hlast, hin⟩ := (Option.any_eq_true ..).mp h
  refine (Option.any_eq_true ..).mpr ⟨last, hlast, ?_⟩
  unfold flexCallInRange at hin ⊢
  obtain ⟨-, hsplit⟩ := Bool.and_eq_true_iff.mp hin
  obtain ⟨⟨base, ssid⟩, hcalled, hrange⟩ := (Option.any_eq_true ..).mp hsplit
  obtain ⟨hsame, hssid⟩ := Bool.and_eq_true_iff.mp hrange
  have hne : k'.call.bytes ≠ [] := by
    intro hnil
    rw [hnil, fold, fold, List.map_nil, eq_comm, List.map_eq_nil_iff] at hcall
    exact hbase.nonempty hcall
  refine Bool.and_eq_true_iff.mpr ⟨by simpa using hne, (Option.any_eq_true ..).mpr
    ⟨(base, ssid), hcalled, Bool.and_eq_true_iff.mpr ⟨?_, ?_⟩⟩⟩
  · exact strcasecmp_iff.mpr ((strcasecmp_iff.mp hsame).trans hcall.symm)
  · rw [hlo, hhi]
    exact hssid

namespace Node

/-- A row that is read is a row of a table. -/
theorem tends_loadPathRow (n : Node) {row : Key × List Callsign × ℤ} (hkey : row.1.Fits)
    (hrow : (placeholder row).Charted n.cfg.pathCall) :
    n.Tends (n.loadPathRow row.1 row.2.1 row.2.2) := by
  unfold loadPathRow
  intro ht
  split
  · rename_i i hfind
    refine ⟨rfl, ht.table.modify (fun _ => rfl) ?_, ht.learned, ht.declared⟩
    intro d hd _
    have hends := flexChainEndsAt_sameDest (sameDest_of_flexFindDest hfind hd) hrow.ends
    exact ⟨hrow.hops, hrow.short, hrow.apart, hends, hrow.stamp⟩
  · rename_i hnew
    split_ifs with hroom
    · exact ⟨rfl, ht.table.append hroom hnew hkey fun _ => hrow, ht.learned, ht.declared⟩
    · exact ⟨rfl, ht⟩

/-- Whatever the file, what is read is a table. -/
theorem tends_flexPathCacheLoad (n : Node) (file : Option CStr) :
    n.Tends (n.flexPathCacheLoad file).1 := by
  have hlines : ∀ (lines : List CStr), (∀ line ∈ lines, ∀ b ∈ line, b ≠ 0) →
      ∀ state : Node × ℕ, state.1.Tends (lines.foldl loadCacheLine state).1 := by
    intro lines
    induction lines with
    | nil => exact fun _ state => .refl state.1
    | cons line lines ih =>
        intro hclean state
        refine Tends.trans ?_ (ih (fun l hl => hclean l (List.mem_cons_of_mem line hl)) _)
        rw [loadCacheLine_fst]
        cases hrow : state.1.cacheRow line with
        | none => exact .refl state.1
        | some row =>
            obtain ⟨hkey, hchart, -⟩ := cacheRow_charted (hclean line List.mem_cons_self) hrow
            exact state.1.tends_loadPathRow hkey hchart
  refine hlines _ ?_ (n, 0)
  cases file with
  | none => exact fun line hline => absurd hline List.not_mem_nil
  | some text => exact fun line hline => ne_zero_of_mem_cacheLines hline

end Node

end FlexNet
