import FlexNet.Routing.Effects

/-!
# What becomes of an offer

A finite record for a destination that has a row is taken by `flex_dtable_merge`, or the row is as
cheap already: but where the row goes through the session the record comes from, the row is chosen
again from the learned tables, and the record may not be there under the name of the row.  Their
capacity is another than the one of the destination table, and they tell callsigns apart by case
(`offer_kept_iff`).
-/

namespace FlexNet

/-! ## The record in the learned table -/

namespace LearnedState

variable {st : LearnedState} {r : Record} {now : ℤ} {k : Key}

/-- The table has the destination of the record, or room for it. -/
def Takes (st : LearnedState) (r : Record) : Prop :=
  r.key.call.isEmpty = false ∧
    ((st.find r.key).isSome = true ∨ st.routes.length < maxLearned)

instance : Decidable (st.Takes r) := inferInstanceAs (Decidable (_ ∧ _))

/-- Where the table takes the record, it has its cost. -/
theorem find_heard_self (h : st.Takes r) :
    ∃ lr, (st.heard r now).find r.key = some lr ∧ lr.rttAtNeighbour = r.rtt := by
  obtain ⟨hcall, hroom⟩ := h
  unfold heard
  rw [if_neg (by simp [hcall])]
  cases hfind : st.find r.key with
  | some lr =>
      have hkey : lr.key = r.key := KeyedTable.lookup_key hfind
      refine ⟨{ lr with rttAtNeighbour := r.rtt, lastHeard := now }, ?_, rfl⟩
      rw [← hkey]
      exact find_put_self
  | none =>
      rw [hfind, Option.isSome_none] at hroom
      have hlt : st.routes.length < maxLearned := hroom.resolve_left (by simp)
      dsimp only
      rw [if_neg (not_le.mpr hlt)]
      refine ⟨⟨r.key, r.rtt, now, false⟩, ?_, rfl⟩
      unfold find KeyedTable.lookup at hfind ⊢
      rw [List.find?_append, hfind]
      simp

/-- What the table has under another name stays, and so does all it has where it does not take the
record. -/
theorem find_heard_of_not (h : ¬ (k = r.key ∧ st.Takes r)) :
    (st.heard r now).find k = st.find k := by
  unfold heard
  by_cases hempty : r.key.call.isEmpty = true
  · rw [if_pos hempty]
  rw [if_neg hempty]
  have hne : ((st.find r.key).isSome = true ∨ st.routes.length < maxLearned) → k ≠ r.key :=
    fun hroom hk => h ⟨hk, by simpa using hempty, hroom⟩
  cases hfind : st.find r.key with
  | some lr =>
      have hkey : lr.key = r.key := KeyedTable.lookup_key hfind
      have hk := hne (.inl (by rw [hfind]; rfl))
      exact find_put_of_ne fun heq => hk (heq.trans hkey)
  | none =>
      dsimp only
      by_cases hfull : maxLearned ≤ st.routes.length
      · rw [if_pos hfull]
      · have hk := hne (.inr (not_le.mp hfull))
        rw [if_neg hfull]
        unfold find KeyedTable.lookup
        rw [List.find?_append]
        have hother : List.find? (fun lr : LearnedRoute => decide (lr.key = k))
            [⟨r.key, r.rtt, now, false⟩] = none := by
          simp [Ne.symm hk]
        rw [hother, Option.or_none]

end LearnedState

/-! ## The row -/

namespace Env

variable {e : Env} {k : Key} {si : Slot}

/-- Some session offers the destination at a cost from here of at most `c`. -/
def OfferedWithin (e : Env) (k : Key) (c : ℤ) : Prop :=
  ∃ si h, e.hopOffer k si = some h ∧ h.here ≤ c

/-- The cost from here of a record heard from a session. -/
def offeredCost (e : Env) (s : Slot) (r : Record) : ℤ :=
  e.flexDestCostHere (flexLinkOptsCost (e.linkOpts s) r.rtt) (some s)

/-- The tables once a record was learned. -/
def heard (e : Env) (s : Slot) (r : Record) : Env :=
  { e with learned := Function.update e.learned s ((e.learned s).heard r e.now) }

theorem heard_learned {s : Slot} {r : Record} :
    (e.heard s r).learned = Function.update e.learned s ((e.learned s).heard r e.now) := rfl

/-- Once a record was learned, its session offers its destination at its cost, if the table took
it; whatever else was offered still is. -/
theorem hopOffer_heard {s : Slot} {r : Record} (hup : (e.sessions s).active = true)
    (hpos : 0 < r.rtt) (hfin : r.rtt < rttInfinity) :
    (e.heard s r).hopOffer k si =
      if si = s ∧ k = r.key ∧ (e.learned s).Takes r then
        some ⟨some s, flexLinkOptsCost (e.linkOpts s) r.rtt, e.offeredCost s r⟩
      else e.hopOffer k si := by
  split_ifs with htakes
  · obtain ⟨rfl, rfl, htakes⟩ := htakes
    obtain ⟨lr, hfind, hrtt⟩ := @LearnedState.find_heard_self _ _ e.now htakes
    refine hopOffer_eq_some.mpr ⟨hup, lr, ?_, hrtt ▸ hpos, hrtt ▸ hfin, ?_⟩
    · rw [heard_learned, Function.update_self]
      exact hfind
    · rw [hrtt]
      rfl
  · have hfind : ((e.heard s r).learned si).find k = (e.learned si).find k := by
      rw [heard_learned]
      by_cases hsi : si = s
      · subst hsi
        rw [Function.update_self]
        exact LearnedState.find_heard_of_not fun h => htakes ⟨rfl, h⟩
      · rw [Function.update_of_ne hsi]
    unfold hopOffer
    rw [hfind]
    rfl

end Env

namespace Node

variable {n : Node} {s : Slot} {r : Record} {i : ℕ} {d : DestEntry}

/-- The row of a record is finite, and its cost from here is at most the one of the record. -/
def OfferKept (n : Node) (s : Slot) (r : Record) (i : ℕ) : Prop :=
  ∃ d', (n.flexDtableMerge r s).dests[i]? = some d' ∧ d'.rtt < rttInfinity ∧
    (n.flexDtableMerge r s).flexDestCostHere d'.rtt d'.viaSession ≤ n.toEnv.offeredCost s r

/-- The table once a record is written into a row. -/
def written (n : Node) (s : Slot) (r : Record) (i : ℕ) : Node :=
  let eff := flexLinkOptsCost (n.linkOpts s) r.rtt
  { n with dests := n.dests.modify i (n.rewriteDest s r eff) }

theorem flexLearnedAdd_written (n : Node) (s : Slot) (r : Record) (i : ℕ) :
    ((n.written s r i).flexLearnedAdd s r).toEnv = n.toEnv.heard s r ∧
      ((n.written s r i).flexLearnedAdd s r).dests =
        n.dests.modify i (n.rewriteDest s r (flexLinkOptsCost (n.linkOpts s) r.rtt)) :=
  ⟨flexLearnedAdd_toEnv _ s r, flexLearnedAdd_dests _ s r⟩

/-- What a merge into a row does: the row is written if it goes through the session or the record
is better, the record is learned, and a row that goes through the session is chosen again. -/
theorem flexDtableMerge_row (htransit : n.cfg.transit = true) (hpos : 0 < r.rtt)
    (hlocal : n.cfg.localCovers r.key = false) (hfind : flexFindDest n.dests r.key = some i)
    (hrow : n.dests[i]? = some d) :
    n.flexDtableMerge r s =
      if d.viaSession = some s then
        let m := (n.written s r i).flexLearnedAdd s r
        { m with dests := m.dests.modify i m.toEnv.flexDestReelect }
      else if n.toEnv.offeredCost s r < n.flexDestCostHere d.rtt d.viaSession then
        (n.written s r i).flexLearnedAdd s r
      else n.flexLearnedAdd s r := by
  have hget : n.dests.getD i ⟨r.key, 0, false, .empty, 0, none, 0, [], 0⟩ = d := by
    rw [List.getD_eq_getElem?_getD, hrow]
    rfl
  unfold flexDtableMerge
  rw [if_neg (by simp [hlocal]), if_neg (by omega)]
  dsimp only
  rw [hfind]
  dsimp only
  rw [hget]
  by_cases hvia : d.viaSession = some s
  · rw [if_pos hvia]
    simp [hvia, htransit, written]
  · rw [if_neg hvia]
    unfold Env.offeredCost
    by_cases hbetter : n.flexDestCostHere (flexLinkOptsCost (n.linkOpts s) r.rtt) (some s) <
        n.flexDestCostHere d.rtt d.viaSession
    · rw [if_pos hbetter]
      simp [hvia, hbetter, htransit, written]
    · rw [if_neg hbetter]
      simp [hvia, hbetter, htransit]

/-- A merge into a row that goes elsewhere keeps the offer: the row takes it, or is as cheap. -/
theorem offerKept_elsewhere (htransit : n.cfg.transit = true) (hpos : 0 < r.rtt)
    (hfin : r.rtt < rttInfinity) (hlocal : n.cfg.localCovers r.key = false)
    (hfind : flexFindDest n.dests r.key = some i) (hrow : n.dests[i]? = some d)
    (hvia : d.viaSession ≠ some s) : n.OfferKept s r i := by
  obtain ⟨-, heff⟩ := flexLinkOptsCost_bounds (n.linkOpts s) hpos hfin
  have hoffer : n.toEnv.offeredCost s r < rttInfinity := Env.flexDestCostHere_lt heff
  unfold OfferKept
  rw [flexDtableMerge_row htransit hpos hlocal hfind hrow, if_neg hvia]
  by_cases hbetter : n.toEnv.offeredCost s r < n.flexDestCostHere d.rtt d.viaSession
  · obtain ⟨htables, hdests⟩ := n.flexLearnedAdd_written s r i
    rw [if_pos hbetter, htables, hdests]
    refine ⟨n.rewriteDest s r (flexLinkOptsCost (n.linkOpts s) r.rtt) d, ?_, heff, le_rfl⟩
    rw [List.getElem?_modify_eq, hrow]
    rfl
  · rw [if_neg hbetter, flexLearnedAdd_dests, flexLearnedAdd_toEnv]
    refine ⟨d, hrow, ?_, not_lt.mp hbetter⟩
    by_contra hinf
    have hhere : n.flexDestCostHere d.rtt d.viaSession = rttInfinity := by
      unfold Env.flexDestCostHere
      rw [if_pos (not_lt.mp hinf)]
    rw [hhere] at hbetter
    exact hbetter hoffer

/-- A merge into a row that goes through the session keeps the offer exactly when the table of the
session takes the record under the name of the row, or some session offers the row as cheaply. -/
theorem offerKept_through (htransit : n.cfg.transit = true) (hpos : 0 < r.rtt)
    (hfin : r.rtt < rttInfinity) (hlocal : n.cfg.localCovers r.key = false)
    (hup : (n.sessions s).active = true) (hfind : flexFindDest n.dests r.key = some i)
    (hrow : n.dests[i]? = some d) (hvia : d.viaSession = some s) :
    n.OfferKept s r i ↔ (d.key = r.key ∧ (n.learned s).Takes r) ∨
      n.toEnv.OfferedWithin d.key (n.toEnv.offeredCost s r) := by
  set e := n.toEnv.heard s r with he
  set d₀ := n.rewriteDest s r (flexLinkOptsCost (n.linkOpts s) r.rtt) d with hd₀
  have hkept : n.OfferKept s r i ↔ (e.flexDestReelect d₀).rtt < rttInfinity ∧
      e.flexDestCostHere (e.flexDestReelect d₀).rtt (e.flexDestReelect d₀).viaSession ≤
        n.toEnv.offeredCost s r := by
    obtain ⟨htables, hdests⟩ := n.flexLearnedAdd_written s r i
    have hchosen : (n.flexDtableMerge r s).dests[i]? = some (e.flexDestReelect d₀) ∧
        (n.flexDtableMerge r s).toEnv = e := by
      rw [flexDtableMerge_row htransit hpos hlocal hfind hrow, if_pos hvia]
      dsimp only
      rw [htables, hdests, List.getElem?_modify_eq, List.getElem?_modify_eq, hrow]
      exact ⟨rfl, rfl⟩
    unfold OfferKept
    rw [hchosen.1, hchosen.2]
    simp only [Option.some.injEq, exists_eq_left']
  have hoffers : ∀ si, e.hopOffer d.key si =
      if si = s ∧ d.key = r.key ∧ (n.learned s).Takes r then
        some ⟨some s, flexLinkOptsCost (n.linkOpts s) r.rtt, n.toEnv.offeredCost s r⟩
      else n.hopOffer d.key si := fun si => Env.hopOffer_heard hup hpos hfin
  rw [hkept]
  rcases e.flexDestReelect_cases d₀ with ⟨heq, hnone⟩ | ⟨si, h, -, hsome, hmin, heq⟩
  · -- nothing is offered under the name of the row
    have hnone' : ∀ si, e.hopOffer d.key si = none := hnone htransit
    rw [heq]
    constructor
    · rintro ⟨hinf, -⟩
      exact absurd hinf (lt_irrefl _)
    · rintro (⟨hkey, htakes⟩ | ⟨si, h, hsi, -⟩)
      · have hs := hoffers s
        rw [if_pos ⟨rfl, hkey, htakes⟩, hnone' s] at hs
        cases hs
      · have hs := hoffers si
        rw [hnone' si] at hs
        split_ifs at hs
        rw [hsi] at hs
        cases hs
  · have hsome' : e.hopOffer d.key si = some h := hsome
    have hmin' : ∀ sj h', e.hopOffer d.key sj = some h' → h.here ≤ h'.here := hmin
    obtain ⟨-, -, hefffin, -, hhere⟩ := Env.hopOffer_bounds hsome'
    rw [heq]
    dsimp only
    rw [← hhere]
    constructor
    · rintro ⟨-, hle⟩
      have hs := hoffers si
      rw [hsome'] at hs
      split_ifs at hs with htakes
      · exact .inl htakes.2
      · exact .inr ⟨si, h, hs.symm, hle⟩
    · intro hkeeps
      refine ⟨hefffin, ?_⟩
      by_cases htakes : d.key = r.key ∧ (n.learned s).Takes r
      · have hs := hoffers s
        rw [if_pos ⟨rfl, htakes⟩] at hs
        exact hmin' s _ hs
      · obtain ⟨sj, h', hsj, hle⟩ := hkeeps.resolve_left htakes
        have hs := hoffers sj
        rw [if_neg fun hall => htakes hall.2, hsj] at hs
        exact (hmin' sj h' hs).trans hle

/-- A finite record merged into a row is kept, exactly when the row goes elsewhere, or the table of
the session takes the record under the name of the row, or some session offers the row as cheaply
as the record does. -/
theorem offer_kept_iff (htransit : n.cfg.transit = true) (hup : (n.sessions s).active = true)
    (hpos : 0 < r.rtt) (hfin : r.rtt < rttInfinity) (hlocal : n.cfg.localCovers r.key = false)
    (hfind : flexFindDest n.dests r.key = some i) (hrow : n.dests[i]? = some d) :
    n.OfferKept s r i ↔ d.viaSession ≠ some s ∨ (d.key = r.key ∧ (n.learned s).Takes r) ∨
      n.toEnv.OfferedWithin d.key (n.toEnv.offeredCost s r) := by
  by_cases hvia : d.viaSession = some s
  · rw [offerKept_through htransit hpos hfin hlocal hup hfind hrow hvia]
    exact (or_iff_right (not_not.mpr hvia)).symm
  · exact iff_of_true (offerKept_elsewhere htransit hpos hfin hlocal hfind hrow hvia) (.inl hvia)

end Node

namespace Bench

/-- `A` teaches `k` at 9. -/
def lowerK : Node := (node false).after [record 0 0x6B 9]

/-- Then it teaches `K` at 5. -/
def upperK : Record := ⟨dest 0x4B, 5, false⟩

set_option maxRecDepth 10000 in
/-- The record for `K` is kept exactly when the row of `k` does not go through `A`, which it does,
or is named `K`, which it is not, or is offered at 5. -/
theorem offer_kept_iff_upperK : lowerK.OfferKept slotA upperK 1 ↔
    (lowerK.dests[1]?.map DestEntry.viaSession) ≠ some (some slotA) ∨
      ((lowerK.dests[1]?.map DestEntry.key) = some upperK.key ∧
        (lowerK.learned slotA).Takes upperK) ∨
      lowerK.toEnv.OfferedWithin (dest 0x6B) (lowerK.toEnv.offeredCost slotA upperK) := by
  have hrow : lowerK.dests[1]?.isSome = true := by decide +kernel
  obtain ⟨d, hd⟩ := Option.isSome_iff_exists.mp hrow
  have hkey : (lowerK.dests[1]?.map DestEntry.key) = some (dest 0x6B) := by decide +kernel
  rw [hd, Option.map_some, Option.some.injEq] at hkey
  rw [hd, Option.map_some, Option.map_some, Option.some.injEq, ne_eq, Option.some.injEq, ← hkey]
  exact Node.offer_kept_iff (by decide +kernel) (by decide +kernel) (by decide) (by decide)
    (by decide +kernel) (by decide +kernel) hd

set_option maxRecDepth 10000 in
/-- The row stays at 9. -/
theorem offer_not_kept :
    ¬ ∀ (events : List Event) (s : Slot) (r : Record) (i : ℕ),
      (((node false).after events).sessions s).active = true → 0 < r.rtt → r.rtt < rttInfinity →
      ((node false).after events).cfg.localCovers r.key = false →
      flexFindDest ((node false).after events).dests r.key = some i →
      ((node false).after events).OfferKept s r i := by
  intro hall
  obtain ⟨d, hd, -, hle⟩ := hall [record 0 0x6B 9] slotA upperK 1 (by decide +kernel) (by decide)
    (by decide) (by decide +kernel) (by decide +kernel)
  have hdear : ((lowerK.flexDtableMerge upperK slotA).dests[1]?.map fun d =>
      decide ((lowerK.flexDtableMerge upperK slotA).flexDestCostHere d.rtt d.viaSession ≤
        lowerK.toEnv.offeredCost slotA upperK)) = some false := by decide +kernel
  have hd' : (lowerK.flexDtableMerge upperK slotA).dests[1]? = some d := hd
  rw [hd', Option.map_some, Option.some.injEq, decide_eq_false_iff_not] at hdear
  exact hdear hle

end Bench

end FlexNet
