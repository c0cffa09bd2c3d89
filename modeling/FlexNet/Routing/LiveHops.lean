import FlexNet.Routing.Effects

/-!
# A finite route points at a live neighbour

A row of the destination table below infinity names a session that is up, has that session's port,
and a cost the table may hold.  Rows are written by a merge, by a re-election, by a change of the
link options, by two healing sites and by the path cache; a session that ends has all rows through
it elected again, so no row is left pointing at a slot that the next neighbour takes.
-/

namespace FlexNet

open Runs

namespace Node

variable {W : Node → LinkId → AxCall → Prop} {e : Event} {n m : Node} {s : Slot} {d d' : DestEntry}

/-- A row below infinity has a cost the table may hold, and the port of a session that is up. -/
def LiveHop (n : Node) (d : DestEntry) : Prop :=
  d.rtt < rttInfinity → 1 ≤ d.rtt ∧ ∃ i, d.viaSession = some i ∧
    (n.sessions i).active = true ∧ d.port = (n.sessions i).port

/-- Every row below infinity is such. -/
def LiveHops (n : Node) : Prop := ∀ d ∈ n.dests, n.LiveHop d

/-! ## What it depends on -/

/-- Every session that is up stays so, on its port. -/
def KeepsUp (n m : Node) : Prop :=
  ∀ i, (n.sessions i).active = true →
    (m.sessions i).active = true ∧ (m.sessions i).port = (n.sessions i).port

theorem LiveHop.of_hop (hup : n.KeepsUp m) (hop : d'.hop = d.hop) (h : n.LiveHop d) :
    m.LiveHop d' := by
  unfold DestEntry.hop at hop
  simp only [DestEntry.mk.injEq] at hop
  obtain ⟨-, hrtt, -, -, hport, hvia, -⟩ := hop
  intro hfinite
  rw [hrtt] at hfinite ⊢
  obtain ⟨hpos, i, hi, hactive, hp⟩ := h hfinite
  exact ⟨hpos, i, hvia.trans hi, (hup i hactive).1, (hport.trans hp).trans (hup i hactive).2.symm⟩

theorem LiveHops.of_hops (hup : n.KeepsUp m)
    (hops : m.dests.map DestEntry.hop = n.dests.map DestEntry.hop) (h : n.LiveHops) :
    m.LiveHops := by
  intro d' hd'
  obtain ⟨d, hd, hop⟩ := List.mem_map.mp (hops ▸ List.mem_map_of_mem hd')
  exact (h d hd).of_hop hup hop.symm

theorem SameRoutes.keepsUp (h : n.SameRoutes m) : n.KeepsUp m := fun i hi => by
  have hup := (h.active i).trans hi
  exact ⟨hup, (h.session hup).2.2.2.1⟩

theorem keepsUp_setSession (n : Node) {x : Session}
    (hx : x.active = (n.sessions s).active ∧ x.port = (n.sessions s).port) :
    n.KeepsUp (n.setSession s x) := fun i hi => by
  by_cases his : i = s
  · subst his
    simp [setSession, hx, hi]
  · simp [setSession, his, hi]

theorem liveHops_setSession (n : Node) {x : Session}
    (hx : x.active = (n.sessions s).active ∧ x.port = (n.sessions s).port) (h : n.LiveHops) :
    (n.setSession s x).LiveHops :=
  h.of_hops (keepsUp_setSession n hx) rfl

/-! ## Merges and elections -/

/-- An elected row. -/
theorem liveHop_reelect (n : Node) (d : DestEntry) : n.LiveHop (n.toEnv.flexDestReelect d) := by
  rcases n.toEnv.flexDestReelect_cases d with ⟨heq, -⟩ | ⟨si, hop, -, hoffer, -, heq⟩ <;> rw [heq]
  · exact fun hfinite => absurd hfinite (lt_irrefl _)
  · obtain ⟨hup, -⟩ := Env.hopOffer_eq_some.mp hoffer
    have hpos := (Env.hopOffer_bounds hoffer).2.1
    exact fun _ => ⟨hpos, si, rfl, hup, rfl⟩

/-- A row that carries a record heard from a session that is up. -/
theorem Rewritten.liveHop {r : Record} (h : n.Rewritten s r d) (hsound : r.Sound)
    (hr : r.rtt ≠ 0 ∨ r.isInfinity = true) (hup : (n.sessions s).active = true) : n.LiveHop d := by
  obtain ⟨d₀, -, -, rfl⟩ := h
  intro hfinite
  have hpos : 0 < r.rtt := by
    have hnonneg := hsound.nonneg
    rcases hr with hr | hr
    · omega
    · rw [hsound.infinity, decide_eq_true_eq, rttInfinity] at hr
      omega
  refine ⟨?_, s, rfl, hup, rfl⟩
  change 1 ≤ flexLinkOptsCost (n.linkOpts s) r.rtt
  unfold flexLinkOptsCost linkPenalty rttInfinity
  split_ifs <;> omega

theorem liveHops_flexDtableMerge (n : Node) {r : Record} (hr : n.Merges e s r) (h : n.LiveHops) :
    (n.flexDtableMerge r s).LiveHops := by
  obtain ⟨hsessions, -⟩ := flexDtableMerge_tables n r s
  have hup : n.KeepsUp (n.flexDtableMerge r s) := fun i hi => by
    rw [hsessions]
    exact ⟨hi, rfl⟩
  have hsound := hr.sound
  obtain ⟨l, data, -, ⟨hactive, -⟩, -⟩ := hr
  intro d hd
  rcases mem_flexDtableMerge n r s hd with ⟨d₀, hd₀, hop⟩ | ⟨hrtt, hrow⟩ | ⟨d₀, -, -, rfl⟩
  · exact (h d₀ hd₀).of_hop hup hop
  · exact (hrow.liveHop hsound hrtt hactive).of_hop hup rfl
  · exact liveHop_reelect _ d₀

/-- A session that ends leaves no row below infinity behind. -/
theorem liveHops_stop (n : Node) {x : Session} (h : n.LiveHops) :
    ((n.setSession s x).flexDestReelectVia s).LiveHops := by
  intro d hd
  obtain ⟨d₀, hd₀, rfl⟩ := List.mem_map.mp hd
  split_ifs with hvia
  · exact liveHop_reelect (n.setSession s x) d₀
  · intro hfinite
    obtain ⟨hpos, i, hi, hactive, hport⟩ := h d₀ hd₀ hfinite
    have his : i ≠ s := fun his => hvia (.inl (his ▸ hi))
    refine ⟨hpos, i, hi, ?_⟩
    change ((n.setSession s x).sessions i).active = true ∧
      d₀.port = ((n.setSession s x).sessions i).port
    rw [setSession_sessions_of_ne n x his]
    exact ⟨hactive, hport⟩

/-! ## The other moves -/

theorem liveHop_shiftDest (n : Node) (shift : ℤ) (h : n.LiveHop d) :
    n.LiveHop (shiftDest s shift d) := by
  unfold shiftDest
  split_ifs with hd
  · intro _
    obtain ⟨-, i, hi, hactive, hport⟩ := h hd.2.2.2
    refine ⟨?_, i, hi, hactive, hport⟩
    dsimp only
    unfold rttInfinity
    omega
  · exact h

theorem liveHops_setLinkOpts (n : Node) (o : LinkOpts) (h : n.LiveHops) :
    (n.setLinkOpts s o).LiveHops := by
  unfold setLinkOpts
  extract_lets shift m
  by_cases hshift : shift = 0
  · rw [if_pos hshift]
    exact h
  · rw [if_neg hshift]
    intro d hd
    obtain ⟨d₀, hd₀, rfl⟩ := List.mem_map.mp hd
    exact liveHop_shiftDest n _ (h d₀ hd₀)

/-- Healing looks only for rows whose session is gone, and those are at infinity. -/
theorem liveHops_healDest (n : Node) (i : ℕ) (h : n.LiveHops) : (n.healDest i).LiveHops := by
  intro d hd
  rcases mem_modify hd with hd | ⟨d, hget, rfl⟩
  · exact h d hd
  · have hlive := h d (List.mem_of_getElem? hget)
    split
    · exact hlive
    · rename_i j hj
      intro hfinite
      obtain ⟨hpos, i, hi, hactive, hport⟩ := hlive hfinite
      obtain rfl : i = j := by
        unfold healedVia at hj
        rw [hi] at hj
        dsimp only at hj
        rw [if_pos hactive] at hj
        exact Option.some.inj hj
      exact ⟨hpos, i, rfl, hactive, hport⟩

/-- The path cache adds rows at infinity only. -/
theorem liveHops_loadPathRow (n : Node) (k : Key) (path : List Callsign) (updated : ℤ)
    (h : n.LiveHops) : (n.loadPathRow k path updated).LiveHops := by
  unfold loadPathRow
  split
  · intro d hd
    rcases mem_modify hd with hd | ⟨d, hget, rfl⟩
    · exact h d hd
    · exact h d (List.mem_of_getElem? hget)
  · split_ifs
    · intro d hd
      rcases List.mem_append.mp hd with hd | hd
      · exact h d hd
      · rw [List.mem_singleton.mp hd]
        exact fun hfinite => absurd hfinite (lt_irrefl _)
    · exact h

theorem liveHops_startSession (n : Node) (l : LinkId) (port : ℕ)
    (hdown : (n.sessions s).active = false) (h : n.LiveHops) :
    (n.startSession s l port).LiveHops := by
  have hstarted := startSession_started n s l port hdown
  refine h.of_hops (fun i hi => ?_) hstarted.hops
  have his : i ≠ s := fun his => by simp [his, hdown] at hi
  have hid := hstarted.identity i his
  unfold Session.identity at hid
  rw [if_pos hi] at hid
  split_ifs at hid with hup
  simp only [Option.some.injEq, Prod.mk.injEq] at hid
  exact ⟨hup, hid.2.2.1⟩

/-! ## Every run -/

/-- The step lemma. -/
theorem Move.liveHops (n : Node) (mv : Move) (h : n.LiveHops) (hmv : mv.Legal W e n) :
    (mv.apply n).LiveHops := by
  cases mv with
  | serve m =>
      have hsame : n.SameRoutes m := hmv
      exact h.of_hops hsame.keepsUp hsame.hops
  | row l x => exact h
  | merge s r => exact liveHops_flexDtableMerge n hmv h
  | relink s l => exact liveHops_setSession n ⟨rfl, rfl⟩ h
  | migrate s l => exact liveHops_setSession n ⟨rfl, rfl⟩ h
  | start s l port => exact liveHops_startSession n l port hmv.1 h
  | stop s x => exact liveHops_stop n h
  | opts s o => exact liveHops_setLinkOpts n o h
  | sample s value => exact liveHops_setSession n ⟨rfl, rfl⟩ h
  | heal i => exact liveHops_healDest n i h
  | cache k path updated => exact liveHops_loadPathRow n k path updated h

theorem LiveHops.event (h : n.LiveHops) (e : Event) : (n.event e).LiveHops :=
  (event_moves (W := fun _ _ _ => True) n e fun _ => .of_forall fun _ _ _ _ _ => trivial).invariant
    Move.liveHops h

/-- In every state a node reaches, every row of the destination table below infinity has a cost
in `1..59999`, the slot of a session that is up, and that session's port. -/
theorem after_liveHops (cfg : Config) (axipPorts : List AxipPort) (portLinks : List PortLink)
    (links : LinkId → Link) (now : ℤ) (events : List Event) :
    ((boot cfg axipPorts portLinks links now).after events).LiveHops := by
  have hboot : (boot cfg axipPorts portLinks links now).LiveHops := fun d hd => by cases hd
  exact Sweep.foldl_keeps (P := LiveHops) (fun n e h => h.event e) events hboot

end Node

end FlexNet
