import FlexNet.Routing.Refinement
import FlexNet.Routing.Stations

/-!
# What the moves do to the destination table

The spec lemmas the invariants of the routes rest on: which records are merged, which next hop
`flex_dest_reelect` chooses, which rows a merge leaves behind, and what a started session looks
like.
-/

namespace FlexNet

/-! ## Records -/

/-- A record as the parser fills it in. -/
structure Record.Sound (r : Record) : Prop where
  nonneg : 0 ≤ r.rtt
  infinity : r.isInfinity = decide (rttInfinity ≤ r.rtt)

theorem parseRecord_sound {withdrawal : Bool} {p rest : CStr} {r : Record}
    (h : parseRecord withdrawal p = some (r, rest)) : r.Sound := by
  unfold parseRecord at h
  cases p with
  | nil => cases h
  | cons c p =>
      dsimp only at h
      split_ifs at h <;> obtain ⟨rfl, -⟩ := Prod.mk.inj (Option.some.inj h)
      · exact ⟨by simp [rttInfinity], rfl⟩
      · exact ⟨Int.natCast_nonneg _, rfl⟩

theorem parseRecords_sound (withdrawal : Bool) (max : ℕ) (p : CStr) :
    ∀ r ∈ parseRecords withdrawal max p, r.Sound := by
  induction max generalizing p with
  | zero => simp [parseRecords]
  | succ max ih =>
      unfold parseRecords
      cases hp : parseRecord withdrawal (p.dropWhile (· == 0x20)) with
      | none => simp
      | some x =>
          obtain ⟨r, rest⟩ := x
          intro r' hr'
          rcases List.mem_cons.mp hr' with rfl | hr'
          · exact parseRecord_sound hp
          · exact ih rest r' hr'

theorem frameRecords_sound {cfg : Config} {data : CStr} : ∀ r ∈ frameRecords cfg data, r.Sound := by
  intro r hr
  unfold frameRecords flexParseCompactRecords at hr
  split at hr
  · split at hr
    · dsimp only at hr
      split_ifs at hr
      · cases hr
      all_goals exact parseRecords_sound _ _ _ r hr
    · cases hr
  · cases hr

namespace Node

variable {W : Node → LinkId → AxCall → Prop} {e : Event} {n m o : Node} {s : Slot} {l : LinkId}

theorem Merges.sound {r : Record} (h : n.Merges e s r) : r.Sound := by
  obtain ⟨l, data, -, -, hr | rfl⟩ := h
  · exact frameRecords_sound r hr
  · exact ⟨by simp, by simp [rttInfinity]⟩

end Node

/-! ## The choice of a next hop -/

namespace Env

variable (e : Env)

/-- What a session offers for a destination, as `flex_dest_reelect` sees it. -/
def hopOffer (k : Key) (si : Slot) : Option Hop :=
  if !(e.sessions si).active then none
  else match (e.learned si).find k with
    | none => none
    | some lr =>
      if lr.rttAtNeighbour ≤ 0 ∨ rttInfinity ≤ lr.rttAtNeighbour then none
      else
        let eff := flexLinkOptsCost (e.linkOpts si) lr.rttAtNeighbour
        some ⟨some si, eff, e.flexDestCostHere eff (some si)⟩

theorem betterHop_eq (d : DestEntry) (best : Hop) (si : Slot) :
    e.betterHop d best si = match e.hopOffer d.key si with
      | none => best
      | some h => if h.here < best.here ∨ (h.here = best.here ∧ d.viaSession = some si) then h
          else best := by
  unfold betterHop hopOffer
  split_ifs
  · rfl
  · cases (e.learned si).find d.key with
    | none => rfl
    | some lr =>
        dsimp only
        by_cases hout : lr.rttAtNeighbour ≤ 0 ∨ rttInfinity ≤ lr.rttAtNeighbour
        · rw [if_pos hout, if_pos hout]
        · rw [if_neg hout, if_neg hout]

variable {e}

/-- A session that offers a destination is up, and taught it at a finite cost. -/
theorem hopOffer_eq_some {k : Key} {si : Slot} {h : Hop} :
    e.hopOffer k si = some h ↔ (e.sessions si).active = true ∧
      ∃ lr, (e.learned si).find k = some lr ∧ 0 < lr.rttAtNeighbour ∧
        lr.rttAtNeighbour < rttInfinity ∧
        h = ⟨some si, flexLinkOptsCost (e.linkOpts si) lr.rttAtNeighbour,
          e.flexDestCostHere (flexLinkOptsCost (e.linkOpts si) lr.rttAtNeighbour) (some si)⟩ := by
  unfold hopOffer
  constructor
  · intro hoffer
    split_ifs at hoffer with hup
    split at hoffer
    · cases hoffer
    · rename_i lr hfind
      split_ifs at hoffer with hrange
      obtain rfl := Option.some.inj hoffer
      exact ⟨by simpa using hup, lr, hfind, by omega, by omega, rfl⟩
  · rintro ⟨hup, lr, hfind, h₀, h₁, rfl⟩
    rw [if_neg (by simp [hup]), hfind]
    dsimp only
    rw [if_neg (by omega)]

/-- Costs over a link stay finite. -/
theorem flexDestCostHere_lt {rtt : ℤ} {via : Option Slot} (h : rtt < rttInfinity) :
    e.flexDestCostHere rtt via < rttInfinity := by
  unfold flexDestCostHere
  rw [if_neg (by omega)]
  cases via with
  | none => exact h
  | some s =>
      dsimp only
      split_ifs with hup hc
      · exact hc
      · omega
      · exact h

/-- What an offer amounts to. -/
theorem hopOffer_bounds {k : Key} {si : Slot} {h : Hop} (hoffer : e.hopOffer k si = some h) :
    h.via = some si ∧ 0 < h.eff ∧ h.eff < rttInfinity ∧ h.here < rttInfinity ∧
      h.here = e.flexDestCostHere h.eff (some si) := by
  obtain ⟨-, lr, -, h₀, h₁, rfl⟩ := hopOffer_eq_some.mp hoffer
  obtain ⟨hle, hlt⟩ := flexLinkOptsCost_bounds (e.linkOpts si) h₀ h₁
  dsimp only
  exact ⟨rfl, by omega, hlt, flexDestCostHere_lt hlt, rfl⟩

/-- The sweep over the sessions finds a cheapest offer. -/
theorem foldl_betterHop (d : DestEntry) (l : List Slot) (best : Hop) :
    (l.foldl (e.betterHop d) best = best ∨
      ∃ si ∈ l, e.hopOffer d.key si = some (l.foldl (e.betterHop d) best)) ∧
    (l.foldl (e.betterHop d) best).here ≤ best.here ∧
    ∀ si ∈ l, ∀ h, e.hopOffer d.key si = some h →
      (l.foldl (e.betterHop d) best).here ≤ h.here := by
  induction l generalizing best with
  | nil => exact ⟨.inl rfl, le_rfl, by simp⟩
  | cons si l ih =>
      obtain ⟨hmem, hle, hmin⟩ := ih (e.betterHop d best si)
      rw [List.foldl_cons]
      -- one turn takes the offer or keeps the incumbent
      have hturn : (e.betterHop d best si = best ∨
          e.hopOffer d.key si = some (e.betterHop d best si)) ∧
          (e.betterHop d best si).here ≤ best.here ∧
          ∀ h, e.hopOffer d.key si = some h → (e.betterHop d best si).here ≤ h.here := by
        rw [betterHop_eq]
        cases hoffer : e.hopOffer d.key si with
        | none => exact ⟨.inl rfl, le_rfl, by simp⟩
        | some h =>
            dsimp only
            split_ifs with hbetter
            · refine ⟨.inr rfl, by omega, fun h' hh' => ?_⟩
              rw [Option.some.inj hh']
            · refine ⟨.inl rfl, le_rfl, fun h' hh' => ?_⟩
              obtain rfl := Option.some.inj hh'
              omega
      obtain ⟨hstep, hstepLe, hstepMin⟩ := hturn
      refine ⟨?_, hle.trans hstepLe, fun sj hsj h hh => ?_⟩
      · rcases hmem with heq | ⟨sj, hsj, hsome⟩
        · rw [heq]
          exact hstep.imp id fun hs => ⟨si, List.mem_cons_self, hs⟩
        · exact .inr ⟨sj, List.mem_cons_of_mem si hsj, hsome⟩
      · rcases List.mem_cons.mp hsj with rfl | hsj
        · exact hle.trans (hstepMin h hh)
        · exact hmin sj hsj h hh

/-- `flex_dest_reelect` takes a cheapest offer, or puts the row at infinity when there is none. -/
theorem flexDestReelect_cases (e : Env) (d : DestEntry) :
    (e.flexDestReelect d = { d with
        lastUpdated := e.now, rtt := rttInfinity, isInfinity := true, viaSession := none } ∧
      (e.cfg.transit = true → ∀ si, e.hopOffer d.key si = none)) ∨
    ∃ si h, e.cfg.transit = true ∧ e.hopOffer d.key si = some h ∧
      (∀ sj h', e.hopOffer d.key sj = some h' → h.here ≤ h'.here) ∧
      e.flexDestReelect d = { d with
        lastUpdated := e.now, rtt := h.eff, isInfinity := false, viaSession := some si
        port := (e.sessions si).port
        viaCallsign := if (e.sessPeerCall si).isEmpty then d.viaCallsign
          else .ofCStr (e.sessPeerCall si) } := by
  obtain ⟨hmem, -, hmin⟩ := foldl_betterHop (e := e) d slots {}
  unfold flexDestReelect
  dsimp only
  cases htransit : e.cfg.transit with
  | false => exact .inl ⟨by simp, by simp⟩
  | true =>
      rw [if_pos rfl]
      rcases hmem with hnone | ⟨si, -, hsi⟩
      · refine .inl ⟨by rw [hnone], fun _ si => ?_⟩
        rw [Option.eq_none_iff_forall_not_mem]
        intro h hh
        have hle := hmin si (mem_slots si) h hh
        rw [hnone] at hle
        have hlt := (hopOffer_bounds hh).2.2.2.1
        change rttInfinity ≤ h.here at hle
        omega
      · generalize slots.foldl (e.betterHop d) {} = best at hsi hmin ⊢
        have hvia := (hopOffer_bounds hsi).1
        refine .inr ⟨si, best, rfl, hsi, fun sj h' hh' => hmin sj (mem_slots sj) h' hh', ?_⟩
        rw [hvia]

end Env

/-! ## Merging a record -/

/-- The keys of one row of the destination table, which ignores case. -/
def SameDest (k k' : Key) : Prop :=
  fold k.call.bytes = fold k'.call.bytes ∧ k.lo = k'.lo ∧ k.hi = k'.hi

theorem mem_modify {α : Type*} {l : List α} {i : ℕ} {f : α → α} {b : α} (hb : b ∈ l.modify i f) :
    b ∈ l ∨ ∃ a, l[i]? = some a ∧ b = f a := by
  obtain ⟨j, hj⟩ := List.mem_iff_getElem?.mp hb
  rw [List.getElem?_modify] at hj
  obtain ⟨a, ha, rfl⟩ := Option.map_eq_some_iff.mp hj
  split_ifs with hij
  · exact .inr ⟨a, hij ▸ ha, rfl⟩
  · exact .inl (List.mem_of_getElem? ha)

/-- The row a record is merged into has the record's destination. -/
theorem sameDest_of_flexFindDest {dests : List DestEntry} {k : Key} {i : ℕ} {d : DestEntry}
    (hi : flexFindDest dests k = some i) (hd : dests[i]? = some d) : SameDest d.key k := by
  obtain ⟨hlt, hmatch, -⟩ := List.findIdx?_eq_some_iff_getElem.mp hi
  obtain rfl : dests[i] = d := by simpa [List.getElem?_eq_getElem hlt] using hd
  simp only [Bool.and_eq_true, beq_iff_eq, strcasecmp_iff] at hmatch
  exact ⟨hmatch.1.1, hmatch.1.2, hmatch.2⟩

namespace Node

/-- A row that has the cost and the next hop of a record: an old one, or a new one. -/
def Rewritten (n : Node) (s : Slot) (r : Record) (d' : DestEntry) : Prop :=
  ∃ d, (d ∈ n.dests ∨ d = ⟨r.key, flexLinkOptsCost (n.linkOpts s) r.rtt, r.isInfinity, .empty, 0,
      none, 0, [], 0⟩) ∧ SameDest d.key r.key ∧
    d' = n.rewriteDest s r (flexLinkOptsCost (n.linkOpts s) r.rtt) d

theorem flexLearnedAdd_dests (n : Node) (s : Slot) (r : Record) :
    (n.flexLearnedAdd s r).dests = n.dests := by
  rw [onlyPeers_flexLearnedAdd n s r]
  rfl

theorem flexLearnedAdd_toEnv (n : Node) (s : Slot) (r : Record) :
    (n.flexLearnedAdd s r).toEnv = { n.toEnv with
      learned := Function.update n.learned s ((n.learned s).heard r n.now) } :=
  (onlyPeers_flexLearnedAdd n s r).toEnv

/-- The rows after a merge: those that are not about the record, or carry it, or were chosen
again. -/
theorem mem_flexDtableMerge (n : Node) (r : Record) (s : Slot) {d' : DestEntry}
    (hd' : d' ∈ (n.flexDtableMerge r s).dests) :
    (∃ d ∈ n.dests, d'.hop = d.hop) ∨
      ((r.rtt ≠ 0 ∨ r.isInfinity = true) ∧ n.Rewritten s r d') ∨
      ∃ d, (d ∈ n.dests ∨ (r.rtt ≠ 0 ∨ r.isInfinity = true) ∧ n.Rewritten s r d) ∧
        SameDest d.key r.key ∧ d' = (n.flexDtableMerge r s).toEnv.flexDestReelect d := by
  have hold : d' ∈ n.dests → (∃ d ∈ n.dests, d'.hop = d.hop) := fun hd => ⟨d', hd, rfl⟩
  unfold flexDtableMerge at hd' ⊢
  dsimp only at hd' ⊢
  by_cases hlocal : n.cfg.localCovers r.key
  · rw [if_pos hlocal] at hd'
    exact .inl (hold hd')
  rw [if_neg hlocal] at hd' ⊢
  by_cases hmarker : r.rtt = 0 ∧ r.isInfinity = false
  · rw [if_pos hmarker] at hd'
    cases hfind : flexFindDest n.dests r.key with
    | none =>
        rw [hfind] at hd'
        exact .inl (hold hd')
    | some i =>
        rw [hfind] at hd'
        rcases mem_modify hd' with hd' | ⟨d, hd, rfl⟩
        · exact .inl (hold hd')
        · exact .inl ⟨d, List.mem_of_getElem? hd, rfl⟩
  rw [if_neg hmarker] at hd' ⊢
  have hr : r.rtt ≠ 0 ∨ r.isInfinity = true := by
    cases h : r.isInfinity with
    | true => exact .inr rfl
    | false => exact .inl fun h₀ => hmarker ⟨h₀, h⟩
  cases hfind : flexFindDest n.dests r.key with
  | none =>
      rw [hfind] at hd'
      dsimp only at hd'
      have hadded : d' ∈ n.dests ++ [n.rewriteDest s r (flexLinkOptsCost (n.linkOpts s) r.rtt)
          ⟨r.key, flexLinkOptsCost (n.linkOpts s) r.rtt, r.isInfinity, .empty, 0, none, 0, [], 0⟩] →
          (∃ d ∈ n.dests, d'.hop = d.hop) ∨
            (r.rtt ≠ 0 ∨ r.isInfinity = true) ∧ n.Rewritten s r d' := fun hmem => by
        rcases List.mem_append.mp hmem with hmem | hmem
        · exact .inl (hold hmem)
        · exact .inr ⟨hr, _, .inr rfl, ⟨rfl, rfl, rfl⟩, List.mem_singleton.mp hmem⟩
      split_ifs at hd'
      · rw [flexLearnedAdd_dests] at hd'
        exact (hadded hd').imp id .inl
      · exact (hadded hd').imp id .inl
      · exact .inl (hold hd')
  | some i =>
      rw [hfind] at hd'
      dsimp only at hd' ⊢
      -- the rows once the record is written, if it is
      let eff := flexLinkOptsCost (n.linkOpts s) r.rtt
      have hwritten : ∀ c : Bool, ∃ dests, (if c then
          { n with dests := n.dests.modify i (n.rewriteDest s r eff) } else n : Node) =
            { n with dests := dests } ∧
          (∀ d ∈ dests, d ∈ n.dests ∨ (r.rtt ≠ 0 ∨ r.isInfinity = true) ∧ n.Rewritten s r d) ∧
          ∀ d, dests[i]? = some d → SameDest d.key r.key := fun c => by
        cases c
        · exact ⟨n.dests, rfl, fun d hd => .inl hd, fun d hd => sameDest_of_flexFindDest hfind hd⟩
        · refine ⟨_, rfl, fun d hd => ?_, fun d hd => ?_⟩
          · rcases mem_modify hd with hd | ⟨d₀, hd₀, rfl⟩
            · exact .inl hd
            · exact .inr ⟨hr, d₀, .inl (List.mem_of_getElem? hd₀),
                sameDest_of_flexFindDest hfind hd₀, rfl⟩
          · rw [List.getElem?_modify_eq] at hd
            obtain ⟨d₀, hd₀, rfl⟩ := Option.map_eq_some_iff.mp hd
            exact sameDest_of_flexFindDest (d := d₀) hfind hd₀
      obtain ⟨dests, hdests, hrows, hkey⟩ := hwritten _
      rw [hdests] at hd' ⊢
      have hkept : d' ∈ dests → (∃ d ∈ n.dests, d'.hop = d.hop) ∨
          (r.rtt ≠ 0 ∨ r.isInfinity = true) ∧ n.Rewritten s r d' := fun hmem =>
        (hrows d' hmem).imp hold id
      split_ifs at hd' ⊢ with htransit hcurrent
      · exact (hkept hd').imp id .inl
      · dsimp only at hd'
        rw [flexLearnedAdd_dests] at hd'
        rcases mem_modify hd' with hmem | ⟨d, hd, rfl⟩
        · exact (hkept hmem).imp id .inl
        · exact .inr (.inr ⟨d, hrows d (List.mem_of_getElem? hd), hkey d hd, rfl⟩)
      · rw [flexLearnedAdd_dests] at hd'
        exact (hkept hd').imp id .inl

/-! ## A started session -/

/-- Where the table of a started session comes from: it is empty, or one kept under the same
name. -/
structure Adopts (n m : Node) (s : Slot) (peerCall : CStr) : Prop where
  routes : (m.learned s).taught.2 = [] ∨ ∃ si, (si = s ∨ (n.sessions si).active = false) ∧
    fold (n.learned si).peerCall = fold peerCall ∧
      (m.learned s).taught.2 = (n.learned si).taught.2
  others : ∀ i ≠ s, (m.learned i).taught = (n.learned i).taught ∨
    ((m.learned i).taught = ([], []) ∧ (n.sessions i).active = false)

theorem flexLearnedAdopt_adopts (n : Node) (s : Slot) (peerCall : CStr) :
    n.Adopts (n.flexLearnedAdopt s peerCall) s peerCall ∧
      n.flexLearnedAdopt s peerCall =
        { n with learned := (n.flexLearnedAdopt s peerCall).learned } := by
  have hempty : n.Adopts (n.setLearned s {}) s peerCall :=
    ⟨.inl (by simp [setLearned, LearnedState.taught]), fun i hi => .inl (by simp [setLearned, hi])⟩
  unfold flexLearnedAdopt
  split_ifs
  · exact ⟨hempty, rfl⟩
  cases hfind : slots.find? (n.adoptable s peerCall) with
  | none => exact ⟨hempty, rfl⟩
  | some si =>
      have hmatch := List.find?_some hfind
      simp only [adoptable, Bool.and_eq_true, Bool.or_eq_true, decide_eq_true_eq,
        Bool.not_eq_true'] at hmatch
      obtain ⟨⟨⟨hfree, -⟩, hcall⟩, -⟩ := hmatch
      rw [strcasecmp_iff] at hcall
      dsimp only
      split_ifs with hsi
      · subst hsi
        refine ⟨⟨.inr ⟨si, .inl rfl, hcall, ?_⟩, fun i hi => .inl ?_⟩, rfl⟩
        · simp [setLearned, LearnedState.taught]
        · simp [setLearned, hi]
      · have hdown := hfree.resolve_left hsi
        refine ⟨⟨.inr ⟨si, .inr hdown, hcall, ?_⟩, fun i hi => ?_⟩, rfl⟩
        · simp [setLearned, LearnedState.taught, Ne.symm hsi]
        · by_cases hisi : i = si
          · exact .inr ⟨by simp [setLearned, LearnedState.taught, hisi], hisi ▸ hdown⟩
          · exact .inl (by simp [setLearned, hi, hisi])

/-- A node in which a session was started on a row. -/
structure Started (n m : Node) (s : Slot) (l : LinkId) (port : ℕ) : Prop where
  cfg : m.cfg = n.cfg
  hops : m.dests.map DestEntry.hop = n.dests.map DestEntry.hop
  linkCall : ∀ i, (m.links i).linkCall = (n.links i).linkCall
  onRow : m.OnRow s l
  peerCallsign : (m.sessions s).peerCallsign = (n.links l).linkCall
  port : (m.sessions s).port = port
  identity : ∀ i ≠ s, (m.sessions i).identity = (n.sessions i).identity
  linkOpts : ∀ i ≠ s, m.linkOpts i = n.linkOpts i
  peerCall : (m.learned s).peerCall = flexNormalizeCallsign (n.links l).linkCall
  adopts : n.Adopts m s (flexNormalizeCallsign (n.links l).linkCall)

theorem startSession_started (n : Node) (s : Slot) (l : LinkId) (port : ℕ)
    (hdown : (n.sessions s).active = false) : n.Started (n.startSession s l port) s l port := by
  have hlong : ((flexNormalizeCallsign (n.links l).linkCall).take 19) =
      flexNormalizeCallsign (n.links l).linkCall :=
    List.take_of_length_le ((length_flexNormalizeCallsign_le _).trans (by decide))
  unfold startSession
  extract_lets call newCall n₁ n₂ x n₃ n₄ n₅ st n₆ n₇ n₈ n₉ sess n₁₀
  obtain ⟨hadopts, hn₅⟩ := flexLearnedAdopt_adopts n₄ s newCall
  have hothers : ∀ i ≠ s, n₄.sessions i = n.sessions i := fun i hi => by
    simp [n₄, n₃, n₂, n₁, clearAdvertised, setSession, hi]
  have hrest : n₅.links = n.links ∧ n₅.dests = n.dests ∧ n₅.cfg = n.cfg ∧
      n₅.sessions = n₄.sessions ∧ n₅.linkOpts = n.linkOpts := by
    rw [show n₅ = { n₄ with learned := n₅.learned } from hn₅]
    exact ⟨rfl, rfl, rfl, rfl, rfl⟩
  obtain ⟨hlinks, hdests, hcfg, hsessions, hopts⟩ := hrest
  -- what follows the session's own write serves it
  have hserved : n₈.SameRoutes
      { n₁₀ with nbrEntered := Function.update n₁₀.nbrEntered s false } := by
    refine (sameRoutes_flagLink n₈ l true).trans ((sameRoutes_flexSendInit _ s).trans ?_)
    refine (sameRoutes_sendKeepalive _ s).trans ?_
    refine (sameRoutes_setSession n₉ (x := { sess with lastKeepalive := n₉.now }) (by rfl)).trans ?_
    exact ⟨rfl, rfl, fun _ => rfl, fun _ => rfl, fun _ => rfl, rfl⟩
  have hup₈ : (n₈.sessions s).active = true := by simp [n₈, setSession]
  generalize ({ n₁₀ with nbrEntered := Function.update n₁₀.nbrEntered s false } : Node) = m
    at hserved ⊢
  have hup : (m.sessions s).active = true := (hserved.active s).trans hup₈
  obtain ⟨-, hlink, hcall, hport, -⟩ := hserved.session hup
  have hlearned : ∀ i, (m.learned i).taught = if i = s then (newCall, (n₅.learned s).taught.2)
      else (n₅.learned i).taught := fun i => by
    refine (hserved.taught i).trans ?_
    change ((Function.update n₅.learned s _) i).taught = _
    by_cases hi : i = s
    · subst hi
      rw [Function.update_self, if_pos rfl]
      exact Prod.ext hlong rfl
    · rw [Function.update_of_ne hi, if_neg hi]
  have hdown₄ : ∀ i, (n₄.sessions i).active = (n.sessions i).active := fun i => by
    by_cases hi : i = s
    · subst hi
      simp [n₄, n₃, n₂, n₁, clearAdvertised, setSession, hdown]
    · rw [hothers i hi]
  have htaught : ∀ i, i ≠ s → (m.learned i).taught = (n₅.learned i).taught := fun i hi => by
    rw [hlearned, if_neg hi]
  have hself : (m.learned s).taught = (newCall, (n₅.learned s).taught.2) := by
    rw [hlearned, if_pos rfl]
  exact {
    cfg := hserved.cfg.trans hcfg
    hops := hserved.hops.trans (congrArg _ hdests)
    linkCall := fun i => (hserved.linkCall i).trans (by
      change (n₅.links i).linkCall = _
      rw [hlinks])
    onRow := ⟨hup, hlink.trans (by simp [n₈, setSession])⟩
    peerCallsign := hcall.trans (by simp [n₈, setSession, call])
    port := hport.trans (by simp [n₈, setSession])
    identity := fun i hi => (hserved.identity i).trans (by
      rw [show n₈.sessions i = n₅.sessions i from Function.update_of_ne hi .., hsessions,
        hothers i hi])
    linkOpts := fun i hi => by
      rw [hserved.linkOpts, ← hopts]
      exact Function.update_of_ne hi ..
    peerCall := congrArg Prod.fst hself
    adopts := by
      refine ⟨?_, fun i hi => ?_⟩
      · rw [hself]
        rcases hadopts.routes with hempty | ⟨si, hsi, hcall, hroutes⟩
        · exact .inl hempty
        · exact .inr ⟨si, hsi.imp id fun h => (hdown₄ si).symm.trans h, hcall, hroutes⟩
      · rw [htaught i hi]
        exact (hadopts.others i hi).imp id fun h => ⟨h.1, (hdown₄ i).symm.trans h.2⟩ }

end Node

end FlexNet
