import FlexNet.Routing.Effects

/-!
# Who taught us a route

Every entry of a session's learned table came in a record from the session's station, or is that
station's own entry; and the next hop of a destination was offered by that hop's station.  A
`Ledger` lists the destinations every station sent us.  The source keeps the attribution as long
as no entry point runs while a session points at a row that was given to another station;
`FlexNet_InitSession` then gives the session, with all it was taught, the other name.
-/

namespace FlexNet

open Runs

/-- The destinations heard, with the station that sent the record. -/
abbrev Ledger := List (CStr × Key)

/-- The station told us of the destination, or is it. -/
def Ledger.Told (h : Ledger) (c : CStr) (k : Key) : Prop := (c, k) ∈ h ∨ OwnEntry c k

instance (h : Ledger) (c : CStr) (k : Key) : Decidable (h.Told c k) :=
  inferInstanceAs (Decidable (_ ∨ _))

/-- The station offered the destination of a row. -/
def Ledger.Offered (h : Ledger) (c : CStr) (k : Key) : Prop := ∃ k', SameDest k k' ∧ h.Told c k'

namespace Node

variable {W : Node → LinkId → AxCall → Prop} {e : Event} {n m : Node} {h h' : Ledger} {s : Slot}
  {l : LinkId} {d d' : DestEntry}

/-! ## The invariant -/

/-- A session points at a free row, or at one of its own station. -/
def RowsAgree (n : Node) : Prop :=
  ∀ i, (n.sessions i).active = true → ∀ l ∈ (n.sessions i).link,
    (n.links l).linkCall.isEmpty = true ∨
      stationOf (n.links l).linkCall = stationOf (n.sessions i).peerCallsign

instance (n : Node) : Decidable n.RowsAgree :=
  inferInstanceAs (Decidable (∀ i : Slot, (n.sessions i).active = true → ∀ l ∈ (n.sessions i).link,
    (n.links l).linkCall.isEmpty = true ∨
      stationOf (n.links l).linkCall = stationOf (n.sessions i).peerCallsign))

/-- What the next hop of a row and its callsign have offered. -/
structure HopOffered (h : Ledger) (n : Node) (d : DestEntry) : Prop where
  via : ∀ i, d.viaSession = some i → (n.sessions i).active = true ∧
    h.Offered (stationOf (n.sessions i).peerCallsign) d.key
  call : d.viaCallsign.isEmpty = false → h.Offered (fold d.viaCallsign.bytes) d.key

/-- Every entry is attributed to the station that sent it. -/
structure Attributed (h : Ledger) (n : Node) : Prop where
  /-- the table of a session carries the name of its station -/
  named : ∀ i, (n.sessions i).active = true →
    fold (n.learned i).peerCall = stationOf (n.sessions i).peerCallsign
  /-- the station a table is named after told us all of it -/
  told : ∀ i, ∀ lr ∈ (n.learned i).routes, h.Told (fold (n.learned i).peerCall) lr.key
  hops : ∀ d ∈ n.dests, n.HopOffered h d

theorem HopOffered.mono (hh : h ⊆ h') (hd : n.HopOffered h d) : n.HopOffered h' d := by
  have hoffered : ∀ c, h.Offered c d.key → h'.Offered c d.key := fun c hc => by
    obtain ⟨k', hk, ht⟩ := hc
    exact ⟨k', hk, ht.imp (fun hm => hh hm) id⟩
  exact ⟨fun i hi => ⟨(hd.via i hi).1, hoffered _ (hd.via i hi).2⟩,
    fun hc => hoffered _ (hd.call hc)⟩

theorem Attributed.mono (hh : h ⊆ h') (hn : n.Attributed h) : n.Attributed h' where
  named := hn.named
  told i lr hlr := (hn.told i lr hlr).imp (fun hm => hh hm) id
  hops d hd := (hn.hops d hd).mono hh

/-! ## What it depends on -/

theorem HopOffered.of_hop (hn : ∀ i, (n.sessions i).active = true →
      (m.sessions i).active = true ∧ (m.sessions i).peerCallsign = (n.sessions i).peerCallsign)
    (hop : d'.hop = d.hop) (hd : n.HopOffered h d) : m.HopOffered h d' := by
  unfold DestEntry.hop at hop
  simp only [DestEntry.mk.injEq] at hop
  obtain ⟨hkey, -, -, hcall, -, hvia, -⟩ := hop
  refine ⟨fun i hi => ?_, fun hc => ?_⟩
  · obtain ⟨hup, hoffered⟩ := hd.via i (hvia ▸ hi)
    rw [hkey, (hn i hup).2]
    exact ⟨(hn i hup).1, hoffered⟩
  · rw [hkey, hcall]
    exact hd.call (hcall ▸ hc)

/-- The taught keys of a table. -/
theorem told_of_taught {st st' : LearnedState} (hst : st'.taught = st.taught)
    (ht : ∀ lr ∈ st.routes, h.Told (fold st.peerCall) lr.key) :
    ∀ lr ∈ st'.routes, h.Told (fold st'.peerCall) lr.key := by
  intro lr hlr
  obtain ⟨hcall, hroutes⟩ := Prod.mk.inj hst
  have hmem : (lr.key, lr.rttAtNeighbour) ∈ st.routes.map fun lr => (lr.key, lr.rttAtNeighbour) :=
    hroutes ▸ List.mem_map_of_mem hlr
  obtain ⟨lr', hlr', heq⟩ := List.mem_map.mp hmem
  rw [hcall, ← (Prod.mk.inj heq).1]
  exact ht lr' hlr'

theorem SameRoutes.rowsAgree (hm : n.SameRoutes m) (hn : n.RowsAgree) : m.RowsAgree := by
  intro i hup l hl
  obtain ⟨hupn, hlink, hcall, -⟩ := hm.session hup
  rw [hm.linkCall, hcall]
  exact hn i hupn l (hlink ▸ hl)

theorem SameRoutes.attributed (hm : n.SameRoutes m) (hn : n.Attributed h) : m.Attributed h where
  named i hup := by
    obtain ⟨hupn, -, hcall, -⟩ := hm.session hup
    rw [(Prod.mk.inj (hm.taught i)).1, hcall]
    exact hn.named i hupn
  told i := told_of_taught (hm.taught i) (hn.told i)
  hops d hd := by
    obtain ⟨d', hd', hop⟩ := List.mem_map.mp (hm.hops ▸ List.mem_map_of_mem hd)
    refine (hn.hops d' hd').of_hop (fun i hi => ?_) hop.symm
    have hup := (hm.active i).trans hi
    exact ⟨hup, (hm.session hup).2.2.1⟩

/-! ## Elected and rewritten rows -/

/-- The text a row names is the session's station, or nobody. -/
theorem fold_sessPeerCall (hr : n.RowsAgree) {i : Slot} (hup : (n.sessions i).active = true)
    (hne : (n.sessPeerCall i).isEmpty = false) :
    fold (n.sessPeerCall i) = stationOf (n.sessions i).peerCallsign := by
  unfold Env.sessPeerCall at hne ⊢
  cases hl : (n.sessions i).link with
  | none => simp [hl] at hne
  | some l =>
      simp only [hl] at hne ⊢
      rcases hr i hup l hl with hzero | hsame
      · simp [flexNormalizeCallsign_of_isEmpty hzero] at hne
      · exact hsame

theorem ofCStr_sessPeerCall (n : Node) (i : Slot) :
    (Callsign.ofCStr (n.sessPeerCall i)).bytes = n.sessPeerCall i := by
  refine List.take_of_length_le ?_
  unfold Env.sessPeerCall
  split
  · simp
  · exact length_flexNormalizeCallsign_le _

/-- A row that is given a session as its next hop, with the session's callsign where the link row
names one. -/
theorem hopOffered_of_session (hr : n.RowsAgree) {i : Slot}
    (hup : (n.sessions i).active = true)
    (hoffered : h.Offered (stationOf (n.sessions i).peerCallsign) d.key)
    (hd : d.viaCallsign.isEmpty = false → h.Offered (fold d.viaCallsign.bytes) d.key)
    (hkey : d'.key = d.key) (hvia : d'.viaSession = some i)
    (hcall : d'.viaCallsign =
      if (n.sessPeerCall i).isEmpty then d.viaCallsign else .ofCStr (n.sessPeerCall i)) :
    n.HopOffered h d' := by
  refine ⟨fun j hj => ?_, fun hne => ?_⟩
  · obtain rfl : i = j := by rw [hvia] at hj; exact Option.some.inj hj
    rw [hkey]
    exact ⟨hup, hoffered⟩
  · rw [hkey]
    rw [hcall] at hne ⊢
    split_ifs at hne ⊢ with hempty
    · exact hd hne
    · rw [ofCStr_sessPeerCall, fold_sessPeerCall hr hup (by simpa using hempty)]
      exact hoffered

/-- A row chosen again: its next hop taught us the destination. -/
theorem hopOffered_reelect (hr : n.RowsAgree)
    (hnamed : ∀ i, (n.sessions i).active = true →
      fold (n.learned i).peerCall = stationOf (n.sessions i).peerCallsign)
    (htold : ∀ i, ∀ lr ∈ (n.learned i).routes, h.Told (fold (n.learned i).peerCall) lr.key)
    (hd : d.viaCallsign.isEmpty = false → h.Offered (fold d.viaCallsign.bytes) d.key) :
    n.HopOffered h (n.toEnv.flexDestReelect d) := by
  rcases n.toEnv.flexDestReelect_cases d with ⟨heq, -⟩ | ⟨si, hop, -, hoffer, -, heq⟩ <;> rw [heq]
  · exact ⟨fun _ hi => (by cases hi), hd⟩
  · obtain ⟨hup, lr, hfind, -⟩ := Env.hopOffer_eq_some.mp hoffer
    have hkey := htold si lr (KeyedTable.mem_of_lookup hfind)
    rw [hnamed si hup, KeyedTable.lookup_key hfind] at hkey
    exact hopOffered_of_session hr hup ⟨d.key, ⟨rfl, rfl, rfl⟩, hkey⟩ hd rfl rfl rfl

theorem Rewritten.hopOffered {r : Record} (hrow : n.Rewritten s r d') (hn : n.Attributed h)
    (hr : n.RowsAgree) (hup : (n.sessions s).active = true)
    (htold : h.Told (stationOf (n.sessions s).peerCallsign) r.key) : n.HopOffered h d' := by
  obtain ⟨d, hd, hkey, rfl⟩ := hrow
  refine hopOffered_of_session hr hup ⟨r.key, hkey, htold⟩ ?_ rfl rfl rfl
  rcases hd with hd | rfl
  · exact (hn.hops d hd).call
  · intro hc
    cases hc

/-! ## Merging a record -/

theorem mem_heard {st : LearnedState} {r : Record} {now : ℤ} {lr : LearnedRoute}
    (hlr : lr ∈ (st.heard r now).routes) :
    lr.key = r.key ∨ ∃ lr' ∈ st.routes, lr'.key = lr.key := by
  rcases st.heard_cases r now with heq | ⟨a, hfind, heq⟩ | ⟨-, heq⟩ <;> rw [heq] at hlr
  · exact .inr ⟨lr, hlr, rfl⟩
  · rcases KeyedTable.mem_store hlr with rfl | hlr
    · exact .inl (KeyedTable.lookup_key (a := a) hfind)
    · exact .inr ⟨lr, hlr, rfl⟩
  · rcases List.mem_append.mp hlr with hlr | hlr
    · exact .inr ⟨lr, hlr, rfl⟩
    · exact .inl (by rw [List.mem_singleton.mp hlr])

@[simp] theorem heard_peerCall (st : LearnedState) (r : Record) (now : ℤ) :
    (st.heard r now).peerCall = st.peerCall := by
  rcases st.heard_cases r now with heq | ⟨a, -, heq⟩ | ⟨-, heq⟩ <;> rw [heq]
  rfl

/-- The tables after a merge: the sender's may have heard the record. -/
theorem flexDtableMerge_learned (n : Node) (r : Record) (s : Slot) :
    (n.flexDtableMerge r s).learned = n.learned ∨ (n.flexDtableMerge r s).learned =
      Function.update n.learned s ((n.learned s).heard r n.now) := by
  obtain ⟨dests, heq | ⟨dests', heq⟩⟩ := flexDtableMerge_cases n r s <;> rw [heq]
  · exact .inl rfl
  · exact .inr (congrArg Env.learned (flexLearnedAdd_toEnv { n with dests := dests } s r))

theorem rowsAgree_flexDtableMerge (n : Node) (r : Record) (s : Slot) (hr : n.RowsAgree) :
    (n.flexDtableMerge r s).RowsAgree := by
  obtain ⟨hsessions, -, hlinks, -⟩ := flexDtableMerge_tables n r s
  unfold RowsAgree
  rw [hsessions, hlinks]
  exact hr

theorem attributed_flexDtableMerge (n : Node) (r : Record) (s : Slot)
    (hup : (n.sessions s).active = true)
    (htold : h.Told (stationOf (n.sessions s).peerCallsign) r.key) (hn : n.Attributed h)
    (hr : n.RowsAgree) : (n.flexDtableMerge r s).Attributed h := by
  have hsessions := (flexDtableMerge_tables n r s).1
  have hcalls : ∀ i, ((n.flexDtableMerge r s).learned i).peerCall = (n.learned i).peerCall := by
    intro i
    rcases flexDtableMerge_learned n r s with heq | heq <;> rw [heq]
    by_cases his : i = s
    · subst his
      rw [Function.update_self, heard_peerCall]
    · rw [Function.update_of_ne his]
  have hnamed : ∀ i, ((n.flexDtableMerge r s).sessions i).active = true →
      fold ((n.flexDtableMerge r s).learned i).peerCall =
        stationOf ((n.flexDtableMerge r s).sessions i).peerCallsign := fun i hi => by
    rw [hcalls]
    rw [hsessions] at hi ⊢
    exact hn.named i hi
  have htables : ∀ i, ∀ lr ∈ ((n.flexDtableMerge r s).learned i).routes,
      h.Told (fold ((n.flexDtableMerge r s).learned i).peerCall) lr.key := fun i lr hlr => by
    rw [hcalls]
    rcases flexDtableMerge_learned n r s with heq | heq <;> rw [heq] at hlr
    · exact hn.told i lr hlr
    · by_cases his : i = s
      · subst his
        rw [Function.update_self] at hlr
        rcases mem_heard hlr with hkey | ⟨lr', hlr', hkey⟩
        · rw [hkey, hn.named i hup]
          exact htold
        · exact hkey ▸ hn.told i lr' hlr'
      · rw [Function.update_of_ne his] at hlr
        exact hn.told i lr hlr
  refine ⟨hnamed, htables, fun d' hd' => ?_⟩
  have hsame : ∀ i, (n.sessions i).active = true →
      ((n.flexDtableMerge r s).sessions i).active = true ∧
        ((n.flexDtableMerge r s).sessions i).peerCallsign = (n.sessions i).peerCallsign :=
    fun i hi => by
      rw [hsessions]
      exact ⟨hi, rfl⟩
  rcases mem_flexDtableMerge n r s hd' with ⟨d, hd, hop⟩ | ⟨-, hrow⟩ | ⟨d, hd, -, rfl⟩
  · exact (hn.hops d hd).of_hop hsame hop
  · exact (hrow.hopOffered hn hr hup htold).of_hop hsame rfl
  · refine hopOffered_reelect (rowsAgree_flexDtableMerge n r s hr) hnamed htables ?_
    rcases hd with hd | ⟨-, hrow⟩
    · exact (hn.hops d hd).call
    · exact (hrow.hopOffered hn hr hup htold).call

/-! ## The neighbour's own entry -/

/-- The key a neighbour is entered under is its own. -/
theorem ownEntry_neighbourKey (n : Node) (s : Slot) :
    OwnEntry (fold (n.sessPeerCall s)) (n.neighbourKey s) := by
  have hlen : (n.sessPeerCall s).length ≤ 9 := by
    rw [← ofCStr_sessPeerCall]
    exact (Callsign.ofCStr (n.sessPeerCall s)).le
  have hbase : (splitFirstDash (n.sessPeerCall s)).1.length ≤ 9 := by
    unfold splitFirstDash
    split
    · exact hlen
    · exact (List.takeWhile_prefix _).length_le.trans hlen
  unfold OwnEntry neighbourKey
  rw [splitFirstDash_fold, List.take_of_length_le hlen]
  exact ⟨congrArg fold (List.take_of_length_le hbase), (ssidOf_fold _).symm⟩

/-- A row that names somebody names the session's station. -/
theorem OnRow.station (hs : n.OnRow s l) (hne : (n.links l).linkCall.isEmpty = false)
    (hr : n.RowsAgree) : stationOf (n.links l).linkCall = stationOf (n.sessions s).peerCallsign ∧
      fold (n.sessPeerCall s) = stationOf (n.sessions s).peerCallsign := by
  have hrow := (hr s hs.1 l hs.2).resolve_left (by simp [hne])
  unfold Env.sessPeerCall
  rw [hs.2]
  exact ⟨hrow, hrow⟩

end Node

end FlexNet
