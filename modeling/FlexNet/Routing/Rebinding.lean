import FlexNet.Routing.Attribution

/-!
# Sessions and the rows they point at

What starting, moving, adopting and ending a session does to the attribution of the routes, and
from it the law for whole runs: the attribution holds in every state, as long as no entry point
runs while a session that is up points at a row of another station.  BPQ may zero a row, and give
it to another station, at any time in between.
-/

namespace FlexNet

open Runs

namespace Node

variable {e : Event} {n m : Node} {h : Ledger} {s : Slot} {l : LinkId} {d : DestEntry}

/-- A row is opened for the station of the sessions that still point at it. -/
def SameStation (n : Node) (l : LinkId) (call : AxCall) : Prop :=
  ∀ i, n.OnRow i l → stationOf call = stationOf (n.sessions i).peerCallsign

/-- What holds while an event runs. -/
structure Settling (h : Ledger) (e : Event) (n : Node) : Prop where
  attributed : n.Attributed h
  rows : n.RowsAgree
  named : ∀ l, e.about = some l → (n.links l).linkCall.isEmpty = false
  heard : ∀ l data, e.frame = some (l, data) → ∀ r ∈ frameRecords n.cfg data,
    (stationOf (n.links l).linkCall, r.key) ∈ h

/-- Steps that write no station into a row. -/
theorem Settling.of_rows (hn : n.Settling h e) (hcalls : ∀ l, (m.links l).linkCall =
      (n.links l).linkCall) (hcfg : m.cfg = n.cfg) (ha : m.Attributed h) (hr : m.RowsAgree) :
    m.Settling h e where
  attributed := ha
  rows := hr
  named l hl := by rw [hcalls]; exact hn.named l hl
  heard l data hl := by rw [hcalls, hcfg]; exact hn.heard l data hl

theorem Settling.sees (hn : n.Settling h e) (hl : n.Sees e l) :
    (n.links l).linkCall.isEmpty = false :=
  hl.elim id (hn.named l)

/-! ## Sessions -/

/-- A session rewritten, with the name of its station. -/
theorem attributed_setSession (hn : n.Attributed h) {x : Session}
    (hup : (n.sessions s).active = true)
    (hx : x.active = true ∧ stationOf x.peerCallsign = stationOf (n.sessions s).peerCallsign) :
    (n.setSession s x).Attributed h := by
  have hsame : ∀ i, (n.sessions i).active = true →
      ((n.setSession s x).sessions i).active = true ∧
        stationOf ((n.setSession s x).sessions i).peerCallsign =
          stationOf (n.sessions i).peerCallsign := fun i hi => by
    by_cases his : i = s
    · subst his
      rw [setSession_sessions_self]
      exact hx
    · rw [setSession_sessions_of_ne n x his]
      exact ⟨hi, rfl⟩
  have hactive : ∀ i, ((n.setSession s x).sessions i).active = true →
      (n.sessions i).active = true := fun i hi => by
    by_cases his : i = s
    · exact his ▸ hup
    · rwa [setSession_sessions_of_ne n x his] at hi
  refine ⟨fun i hi => ?_, hn.told, fun d hd => ⟨fun i hi => ?_, (hn.hops d hd).call⟩⟩
  · rw [(hsame i (hactive i hi)).2]
    exact hn.named i (hactive i hi)
  · obtain ⟨hactive, hoffered⟩ := (hn.hops d hd).via i hi
    rw [(hsame i hactive).2]
    exact ⟨(hsame i hactive).1, hoffered⟩

/-- A session on a row of its station. -/
theorem rowsAgree_setSession (hr : n.RowsAgree) {x : Session}
    (hx : x.active = true → ∀ l ∈ x.link, (n.links l).linkCall.isEmpty = true ∨
      stationOf (n.links l).linkCall = stationOf x.peerCallsign) :
    (n.setSession s x).RowsAgree := by
  intro i hi
  by_cases his : i = s
  · subst his
    rw [setSession_sessions_self] at hi ⊢
    exact hx hi
  · rw [setSession_sessions_of_ne n x his] at hi ⊢
    exact hr i hi

/-- The row a session is pointed at names the session's station. -/
theorem Relinks.station (h : n.Relinks e s l) (hn : n.Settling h' e) :
    (n.sessions s).active = true ∧
      stationOf (n.links l).linkCall = stationOf (n.sessions s).peerCallsign := by
  obtain ⟨hsees, hon | ⟨-, port, hsame⟩ | ⟨port, hadopts⟩⟩ := h
  · exact ⟨hon.1, (hon.station (hn.sees hsees) hn.rows).1⟩
  · unfold sameCallSession at hsame
    simp only [Bool.and_eq_true] at hsame
    obtain ⟨⟨hup, -⟩, hrow⟩ := hsame
    cases hlink : (n.sessions s).link with
    | none => simp [hlink] at hrow
    | some l' =>
        simp only [hlink, Bool.and_eq_true, beq_iff_eq] at hrow
        have hnamed := hn.sees hsees
        rw [← hrow.2] at hnamed ⊢
        exact ⟨hup, (OnRow.station ⟨hup, hlink⟩ hnamed hn.rows).1⟩
  · simp only [adoptsTo, Bool.and_eq_true, beq_iff_eq] at hadopts
    exact ⟨hadopts.1.1.1.1, congrArg fold hadopts.2.symm⟩

theorem settling_relink (hs : n.Relinks e s l) (hn : n.Settling h e) :
    (n.relink s l).Settling h e := by
  obtain ⟨hup, hstation⟩ := hs.station hn
  refine hn.of_rows (fun _ => rfl) rfl (attributed_setSession hn.attributed hup ⟨hup, hstation⟩)
    (rowsAgree_setSession hn.rows fun _ l' hl' => ?_)
  obtain rfl : l = l' := Option.some.inj hl'
  exact .inr rfl

theorem settling_migrate (hup : (n.sessions s).active = true)
    (htarget : n.migrationTarget s l = true) (hn : n.Settling h e) :
    (n.setSession s { n.sessions s with link := some l }).Settling h e := by
  refine hn.of_rows (fun _ => rfl) rfl (attributed_setSession hn.attributed hup ⟨hup, rfl⟩)
    (rowsAgree_setSession hn.rows fun _ l' hl' => ?_)
  obtain rfl : l = l' := Option.some.inj hl'
  simp only [migrationTarget, Bool.and_eq_true, beq_iff_eq] at htarget
  exact .inr (congrArg fold htarget.2)

theorem settling_startSession (port : ℕ) (hdown : (n.sessions s).active = false)
    (hn : n.Settling h e) : (n.startSession s l port).Settling h e := by
  have hstart := startSession_started n s l port hdown
  generalize n.startSession s l port = m at hstart ⊢
  have hothers : ∀ i ≠ s, (m.sessions i).active = (n.sessions i).active ∧
      ((n.sessions i).active = true → (m.sessions i).link = (n.sessions i).link ∧
        (m.sessions i).peerCallsign = (n.sessions i).peerCallsign) := fun i hi => by
    have hid := hstart.identity i hi
    unfold Session.identity at hid
    cases hm : (m.sessions i).active <;> cases hn : (n.sessions i).active <;>
      simp_all
  have htold : ∀ i, ∀ lr ∈ (m.learned i).routes, h.Told (fold (m.learned i).peerCall) lr.key := by
    intro i
    by_cases hi : i = s
    · subst hi
      rcases hstart.adopts.routes with hempty | ⟨si, -, hcall, hroutes⟩
      · intro lr hlr
        have := List.map_eq_nil_iff.mp hempty
        rw [this] at hlr
        cases hlr
      · let named : LearnedState := { n.learned si with
          peerCall := flexNormalizeCallsign (n.links l).linkCall }
        have htaught : (m.learned i).taught = named.taught := Prod.ext hstart.peerCall hroutes
        refine told_of_taught htaught fun lr hlr => ?_
        change h.Told (fold (flexNormalizeCallsign (n.links l).linkCall)) lr.key
        rw [← hcall]
        exact hn.attributed.told si lr hlr
    · rcases hstart.adopts.others i hi with hsame | ⟨hempty, -⟩
      · exact told_of_taught hsame (hn.attributed.told i)
      · have htaught : (m.learned i).taught = ({} : LearnedState).taught := hempty
        exact told_of_taught htaught fun lr hlr => by cases hlr
  have hnamed : ∀ i, (m.sessions i).active = true →
      fold (m.learned i).peerCall = stationOf (m.sessions i).peerCallsign := fun i hup => by
    by_cases hi : i = s
    · subst hi
      rw [hstart.peerCall, hstart.peerCallsign]
      rfl
    · obtain ⟨hactive, hsame⟩ := hothers i hi
      rcases hstart.adopts.others i hi with htaught | ⟨-, hfree⟩
      · rw [(Prod.mk.inj htaught).1, (hsame (hactive ▸ hup)).2]
        exact hn.attributed.named i (hactive ▸ hup)
      · rw [hactive, hfree] at hup
        cases hup
  refine hn.of_rows hstart.linkCall hstart.cfg
    ⟨hnamed, htold, fun d hd => ?_⟩ fun i hup l' hl' => ?_
  · obtain ⟨d', hd', hop⟩ := List.mem_map.mp (hstart.hops ▸ List.mem_map_of_mem hd)
    refine (hn.attributed.hops d' hd').of_hop (fun i hi => ?_) hop.symm
    have his : i ≠ s := fun his => by simp [his, hdown] at hi
    obtain ⟨hactive, hsame⟩ := hothers i his
    exact ⟨hactive.trans hi, (hsame hi).2⟩
  · rw [hstart.linkCall]
    by_cases hi : i = s
    · subst hi
      obtain rfl : l = l' := Option.some.inj (hstart.onRow.2.symm.trans hl')
      exact .inr (by rw [hstart.peerCallsign])
    · obtain ⟨hactive, hsame⟩ := hothers i hi
      have hupn := hactive ▸ hup
      rw [(hsame hupn).2]
      exact hn.rows i hupn l' ((hsame hupn).1 ▸ hl')

theorem settling_stop {x : Session} (hx : x.active = false) (hn : n.Settling h e) :
    ((n.setSession s x).flexDestReelectVia s).Settling h e := by
  have hup : ∀ i, ((n.setSession s x).sessions i).active = true →
      (n.setSession s x).sessions i = n.sessions i := fun i hi => by
    by_cases his : i = s
    · subst his
      rw [setSession_sessions_self, hx] at hi
      cases hi
    · exact setSession_sessions_of_ne n x his
  have hrows : (n.setSession s x).RowsAgree := rowsAgree_setSession hn.rows fun hup => by
    rw [hx] at hup
    cases hup
  have hnamed : ∀ i, ((n.setSession s x).sessions i).active = true →
      fold (n.learned i).peerCall = stationOf ((n.setSession s x).sessions i).peerCallsign :=
    fun i hi => by
      have hsame := hup i hi
      rw [hsame] at hi ⊢
      exact hn.attributed.named i hi
  refine hn.of_rows (fun _ => rfl) rfl ⟨hnamed, hn.attributed.told, fun d hd => ?_⟩ hrows
  obtain ⟨d₀, hd₀, rfl⟩ := List.mem_map.mp hd
  have hold := hn.attributed.hops d₀ hd₀
  split_ifs with hvia
  · have helected := hopOffered_reelect (d := d₀) hrows hnamed hn.attributed.told hold.call
    exact ⟨helected.via, helected.call⟩
  · refine ⟨fun i hi => ?_, hold.call⟩
    have his : i ≠ s := fun his => hvia (.inl (his ▸ hi))
    change ((n.setSession s x).sessions i).active = true ∧
      h.Offered (stationOf ((n.setSession s x).sessions i).peerCallsign) d₀.key
    rw [setSession_sessions_of_ne n x his]
    exact hold.via i hi

theorem settling_sample (value : ℤ) (hn : n.Settling h e) :
    (n.setSession s { n.sessions s with ourLinkTime := value }).Settling h e := by
  cases hup : (n.sessions s).active with
  | true =>
      exact hn.of_rows (fun _ => rfl) rfl (attributed_setSession hn.attributed hup ⟨hup, rfl⟩)
        (rowsAgree_setSession hn.rows fun _ => hn.rows s hup)
  | false =>
      have hsame : n.SameRoutes (n.setSession s { n.sessions s with ourLinkTime := value }) :=
        sameRoutes_setSession_down n hup hup
      exact hn.of_rows hsame.linkCall hsame.cfg (hsame.attributed hn.attributed)
        (hsame.rowsAgree hn.rows)

/-! ## Rows of the destination table -/

/-- Rows that keep their next hop. -/
theorem attributed_dests (hn : n.Attributed h) {dests : List DestEntry}
    (hd : ∀ d ∈ dests, n.HopOffered h d) : ({ n with dests := dests } : Node).Attributed h :=
  ⟨hn.named, hn.told, fun d hmem => ⟨(hd d hmem).via, (hd d hmem).call⟩⟩

theorem hopOffered_shiftDest (shift : ℤ) (hd : n.HopOffered h d) :
    n.HopOffered h (shiftDest s shift d) := by
  unfold shiftDest
  split_ifs
  · exact ⟨hd.via, hd.call⟩
  · exact hd

theorem settling_setLinkOpts (o : LinkOpts) (hn : n.Settling h e) :
    (n.setLinkOpts s o).Settling h e := by
  unfold setLinkOpts
  extract_lets shift m
  have hm : m.Attributed h :=
    ⟨hn.attributed.named, hn.attributed.told, fun d hd =>
      ⟨(hn.attributed.hops d hd).via, (hn.attributed.hops d hd).call⟩⟩
  by_cases hshift : shift = 0
  · rw [if_pos hshift]
    exact hn.of_rows (fun _ => rfl) rfl hm hn.rows
  · rw [if_neg hshift]
    refine hn.of_rows (fun _ => rfl) rfl (attributed_dests hm fun d hd => ?_) hn.rows
    obtain ⟨d₀, hd₀, rfl⟩ := List.mem_map.mp hd
    exact hopOffered_shiftDest shift (hm.hops d₀ hd₀)

/-- A session found by the name of a row's next hop is that next hop. -/
theorem station_of_flexSessionForCall {call : CStr} {i : Slot}
    (hi : n.flexSessionForCall call = some i) :
    (n.sessions i).active = true ∧ stationOf (n.sessions i).peerCallsign = fold call ∧
      call.isEmpty = false := by
  unfold flexSessionForCall at hi
  split_ifs at hi with hempty
  have := List.find?_some hi
  simp only [Bool.and_eq_true, strcasecmp_iff] at this
  exact ⟨this.1.1, this.2, by simpa using hempty⟩

theorem hopOffered_healed {i : Slot} (hi : n.healedVia d = some i) (hd : n.HopOffered h d) :
    n.HopOffered h { d with viaSession := some i } := by
  refine ⟨fun j hj => ?_, hd.call⟩
  obtain rfl : i = j := Option.some.inj hj
  have hcalled : n.flexSessionForCall d.viaCallsign.bytes = some i →
      (n.sessions i).active = true ∧
        h.Offered (stationOf (n.sessions i).peerCallsign) d.key := fun hfind => by
    obtain ⟨hup, hstation, hne⟩ := station_of_flexSessionForCall hfind
    rw [hstation]
    exact ⟨hup, hd.call (by simpa [Callsign.isEmpty] using hne)⟩
  unfold healedVia at hi
  split at hi
  · rename_i j' hvia
    split_ifs at hi with hup
    · obtain rfl := Option.some.inj hi
      exact hd.via j' hvia
    · exact hcalled hi
  · exact hcalled hi

theorem attributed_healDest (i : ℕ) (hn : n.Attributed h) : (n.healDest i).Attributed h := by
  refine attributed_dests hn fun d hd => ?_
  rcases mem_modify hd with hd | ⟨d₀, hget, rfl⟩
  · exact hn.hops d hd
  · have hold := hn.hops d₀ (List.mem_of_getElem? hget)
    split
    · exact hold
    · rename_i j hj
      exact hopOffered_healed hj hold

theorem attributed_loadPathRow (n : Node) (k : Key) (path : List Callsign) (updated : ℤ)
    (hn : n.Attributed h) : (n.loadPathRow k path updated).Attributed h := by
  unfold loadPathRow
  split
  · refine attributed_dests hn fun d hd => ?_
    rcases mem_modify hd with hd | ⟨d₀, hget, rfl⟩
    · exact hn.hops d hd
    · have hold := hn.hops d₀ (List.mem_of_getElem? hget)
      exact ⟨hold.via, hold.call⟩
  · split_ifs
    · refine attributed_dests hn fun d hd => ?_
      rcases List.mem_append.mp hd with hd | hd
      · exact hn.hops d hd
      · rw [List.mem_singleton.mp hd]
        exact ⟨fun _ hi => (by cases hi), fun hc => (by cases hc)⟩
    · exact hn

theorem settling_loadPathRow (k : Key) (path : List Callsign) (updated : ℤ)
    (hn : n.Settling h e) : (n.loadPathRow k path updated).Settling h e := by
  refine hn.of_rows (fun _ => ?_) ?_ (attributed_loadPathRow n k path updated hn.attributed) ?_
  all_goals
    unfold loadPathRow
    split
  · rfl
  · split_ifs <;> rfl
  · rfl
  · split_ifs <;> rfl
  · exact hn.rows
  · split_ifs
    exacts [hn.rows, hn.rows]

/-! ## Moves -/

theorem settling_merge {r : Record} (hr : n.Merges e s r) (hn : n.Settling h e) :
    (n.flexDtableMerge r s).Settling h e := by
  obtain ⟨-, hcfg, hlinks, -⟩ := flexDtableMerge_tables n r s
  obtain ⟨l, data, he, hon, hr⟩ := hr
  have hnamed := hn.named l (about_of_frame he)
  obtain ⟨hrow, htext⟩ := hon.station hnamed hn.rows
  have htold : h.Told (stationOf (n.sessions s).peerCallsign) r.key := by
    rcases hr with hr | rfl
    · exact .inl (hrow ▸ hn.heard l data he r hr)
    · exact .inr (htext ▸ ownEntry_neighbourKey n s)
  exact hn.of_rows (fun l => by rw [hlinks]) hcfg
    (attributed_flexDtableMerge n r s hon.1 htold hn.attributed hn.rows)
    (rowsAgree_flexDtableMerge n r s hn.rows)

/-- The row of an opened link. -/
theorem settling_row {x : Link} (hfree : (n.links l).linkCall.isEmpty = true)
    (hx : n.SameStation l x.linkCall) (hn : n.Settling h e) : (n.setLink l x).Settling h e := by
  have hne : ∀ l', (n.links l').linkCall.isEmpty = false → (n.setLink l x).links l' = n.links l' :=
    fun l' hl' => Function.update_of_ne (fun heq => by simp [heq, hfree] at hl') ..
  refine ⟨⟨hn.attributed.named, hn.attributed.told, fun d hd =>
    ⟨(hn.attributed.hops d hd).via, (hn.attributed.hops d hd).call⟩⟩, fun i hup l' hl' => ?_,
    fun l' hl' => ?_, fun l' data hl' => ?_⟩
  · by_cases heq : l' = l
    · subst heq
      rw [show (n.setLink l' x).links l' = x from Function.update_self ..]
      exact .inr (hx i ⟨hup, hl'⟩)
    · rw [show (n.setLink l x).links l' = n.links l' from Function.update_of_ne heq ..]
      exact hn.rows i hup l' hl'
  · have hnamed := hn.named l' hl'
    rw [hne l' hnamed]
    exact hnamed
  · rw [hne l' (hn.named l' (about_of_frame hl'))]
    exact hn.heard l' data hl'

/-- The step lemma. -/
theorem Move.settling (hrow : ∀ l x, e ≠ .row l x) (n : Node) (mv : Move) (hn : n.Settling h e)
    (hmv : mv.Legal SameStation e n) : (mv.apply n).Settling h e := by
  cases mv with
  | serve m =>
      have hsame : n.SameRoutes m := hmv
      exact hn.of_rows hsame.linkCall hsame.cfg (hsame.attributed hn.attributed)
        (hsame.rowsAgree hn.rows)
  | row l x =>
      rcases hmv with heq | ⟨hfree, hx⟩
      · exact absurd heq (hrow l x)
      · exact settling_row hfree hx hn
  | merge s r => exact settling_merge hmv hn
  | relink s l => exact settling_relink hmv hn
  | migrate s l => exact settling_migrate hmv.1 hmv.2 hn
  | start s l port => exact settling_startSession port hmv.1 hn
  | stop s x => exact settling_stop hmv.2 hn
  | opts s o => exact settling_setLinkOpts o hn
  | sample s value => exact settling_sample value hn
  | heal i =>
      exact hn.of_rows (fun _ => rfl) rfl (attributed_healDest i hn.attributed) hn.rows
  | cache k path updated => exact settling_loadPathRow k path updated hn

/-! ## Every run -/

end Node

/-- The entry points that look at the rows of the sessions. -/
def Event.readsRows : Event → Bool
  | .clock .. | .row .. | .mapTable .. | .notePeerL2Restart .. | .heal .. | .pathCache ..
  | .pathFrame .. | .l3Frame .. => false
  | _ => true

namespace Node

/-- What an event adds to the ledger: the records of the frame it receives, under the name in its
row. -/
def hears (n : Node) (e : Event) : Ledger :=
  match e.frame with
  | none => []
  | some (l, data) => (frameRecords n.cfg data).map fun r => (stationOf (n.links l).linkCall, r.key)

/-- Everything heard on the way. -/
def heard (n : Node) : List Event → Ledger
  | [] => []
  | e :: events => n.hears e ++ (n.event e).heard events

/-- The row an event is about names somebody; and an entry point that looks at the rows finds no
session on a row of another station, nor does the keeper open a row some session of another
station still points at. -/
structure Settled (n : Node) (e : Event) : Prop where
  named : ∀ l ∈ e.about, (n.links l).linkCall.isEmpty = false
  rows : e.readsRows = true → n.RowsAgree
  opens : e = .timer → n.KeeperOpens SameStation

theorem attributed_setLink {n : Node} {h : Ledger} (hn : n.Attributed h) (l : LinkId) (x : Link) :
    (n.setLink l x).Attributed h :=
  ⟨hn.named, hn.told, fun d hd => ⟨(hn.hops d hd).via, (hn.hops d hd).call⟩⟩

/-- One event. -/
theorem Attributed.event {n : Node} {h : Ledger} {e : Event} (hn : n.Attributed h)
    (hs : n.Settled e) : (n.event e).Attributed (h ++ n.hears e) := by
  have hgrown : n.Attributed (h ++ n.hears e) := hn.mono (List.subset_append_left h (n.hears e))
  have hmoves : (∀ l x, e ≠ .row l x) → e.readsRows = true →
      (n.event e).Attributed (h ++ n.hears e) := fun hrow hreads => by
    have hstart : n.Settling (h ++ n.hears e) e := by
      refine ⟨hgrown, hs.rows hreads, fun l hl => hs.named l hl, fun l data hl r hr => ?_⟩
      refine List.mem_append_right h ?_
      unfold hears
      rw [hl]
      exact List.mem_map_of_mem hr
    exact ((event_moves n e hs.opens).invariant (Move.settling hrow) hstart).attributed
  cases e with
  | clock seconds ticks => exact (sameRoutes_clock n seconds ticks).attributed hgrown
  | row l x => exact attributed_setLink hgrown l x
  | mapTable ports => exact (sameRoutes_mapTable n ports).attributed hgrown
  | notePeerL2Restart call port =>
      exact (sameRoutes_flexNetNotePeerL2Restart n call port).attributed hgrown
  | heal i => exact attributed_healDest i hgrown
  | pathCache rows =>
      exact Sweep.foldl_keeps (P := Attributed (n.hears (.pathCache rows) |> (h ++ ·)))
        (fun n row hn => attributed_loadPathRow n row.1 row.2.1 row.2.2 hn) rows hgrown
  | pathFrame s reply body => exact (sameRoutes_sendPath n s _ _).attributed hgrown
  | l3Frame s data => exact (sameRoutes_sendPath n s _ _).attributed hgrown
  | _ => exact hmoves (by simp) rfl

theorem attributed_boot (cfg : Config) (axipPorts : List AxipPort) (portLinks : List PortLink)
    (links : LinkId → Link) (now : ℤ) : (boot cfg axipPorts portLinks links now).Attributed [] :=
  ⟨fun _ hup => (by cases hup), fun _ _ hlr => (by cases hlr), fun _ hd => (by cases hd)⟩

/-- A run whose events find the rows settled. -/
theorem Attributed.after {n : Node} {h : Ledger} {events : List Event} (hn : n.Attributed h)
    (hs : Chain Node.event Settled n events) :
    (n.after events).Attributed (h ++ n.heard events) := by
  induction events generalizing n h with
  | nil => exact (List.append_nil h).symm ▸ hn
  | cons e events ih =>
      have := ih (hn.event hs.1) hs.2
      rwa [List.append_assoc] at this

/-- What a session was taught, and what it is the next hop of, came from the station it is named
after. -/
structure RoutesNamed (h : Ledger) (n : Node) : Prop where
  learned : ∀ i, (n.sessions i).active = true → ∀ lr ∈ (n.learned i).routes,
    h.Told (stationOf (n.sessions i).peerCallsign) lr.key
  via : ∀ d ∈ n.dests, ∀ i, d.viaSession = some i →
    h.Offered (stationOf (n.sessions i).peerCallsign) d.key

theorem Attributed.routesNamed {n : Node} {h : Ledger} (hn : n.Attributed h) : n.RoutesNamed h where
  learned i hup lr hlr := hn.named i hup ▸ hn.told i lr hlr
  via d hd i hi := ((hn.hops d hd).via i hi).2

/-- In every run whose events find the rows settled, the routes carry the name of the station that
sent them. -/
theorem after_routesNamed {cfg : Config} {axipPorts : List AxipPort} {portLinks : List PortLink}
    {links : LinkId → Link} {now : ℤ} {events : List Event}
    (hsettled : Chain Node.event Settled (boot cfg axipPorts portLinks links now) events) :
    ((boot cfg axipPorts portLinks links now).after events).RoutesNamed
      ((boot cfg axipPorts portLinks links now).heard events) :=
  ((attributed_boot cfg axipPorts portLinks links now).after hsettled).routesNamed

/-- `A` tells us of `K`; its row is zeroed, and given to `A` again. -/
theorem routesNamed_reappeared :
    ((boot (Bench.config false) [] [] Bench.links 1000).after [.initSession 0 1,
      Bench.record 0 0x4B 10, .row 0 {}, .row 0 (Bench.row (Bench.addr 0x41)),
      .initSession 0 1]).RoutesNamed
      ((boot (Bench.config false) [] [] Bench.links 1000).heard [.initSession 0 1,
        Bench.record 0 0x4B 10, .row 0 {}, .row 0 (Bench.row (Bench.addr 0x41)),
        .initSession 0 1]) := by
  refine after_routesNamed ⟨⟨by decide +kernel, fun _ => by decide +kernel, fun h => ?_⟩,
    ⟨by decide +kernel, fun _ => by decide +kernel, fun h => ?_⟩,
    ⟨by decide +kernel, fun h => ?_, fun h => ?_⟩,
    ⟨by decide +kernel, fun h => ?_, fun h => ?_⟩,
    ⟨by decide +kernel, fun _ => by decide +kernel, fun h => ?_⟩, trivial⟩
  all_goals cases h

/-- `A` tells us of `K`; its row is zeroed, and given to `C`.  The session, with what `A` taught
it, takes the name of `C`. -/
theorem not_routesNamed_reassigned :
    ¬ ((boot (Bench.config false) [] [] Bench.links 1000).after [.initSession 0 1,
      Bench.record 0 0x4B 10, .row 0 {}, .row 0 (Bench.row (Bench.addr 0x43)),
      .initSession 0 1]).RoutesNamed
      ((boot (Bench.config false) [] [] Bench.links 1000).heard [.initSession 0 1,
        Bench.record 0 0x4B 10, .row 0 {}, .row 0 (Bench.row (Bench.addr 0x43)),
        .initSession 0 1]) := by
  intro hnamed
  have hlearned := hnamed.learned Bench.slotA
  revert hlearned
  decide +kernel

end Node

end FlexNet
