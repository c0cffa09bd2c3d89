import FlexNet.Node.State

/-!
# What the node would tell a peer

`flex_expected_rtt` and the predicates around it: which station a session talks to, which
destinations a link's options let it offer, and the cheapest cost over the sessions that may be
a source for a peer.  `Env.Offers` is the abstract reading: some other session offers the
destination to this peer.  `expectedRtt_lt_iff` says the loop computes it.
-/

namespace FlexNet

/-! ## Link options -/

/-- `FLEXNET_LINK_PENALTY`. -/
def linkPenalty : ℤ := 2000

/-- `flex_link_opts_source_allows`. -/
def flexLinkOptsSourceAllows (opts : LinkOpts) (isNeighbour : Bool) : Bool :=
  if isNeighbour then !opts.noNbr else !opts.noBehind

/-- `flex_link_opts_cost`. -/
def flexLinkOptsCost (opts : LinkOpts) (rtt : ℤ) : ℤ :=
  if !opts.penalty then rtt
  else if rtt ≤ 0 ∨ rttInfinity ≤ rtt then rtt
  else if rttInfinity - linkPenalty ≤ rtt then rttInfinity - 1
  else rtt + linkPenalty

theorem flexLinkOptsCost_bounds (opts : LinkOpts) {rtt : ℤ} (h₀ : 0 < rtt)
    (h₁ : rtt < rttInfinity) :
    rtt ≤ flexLinkOptsCost opts rtt ∧ flexLinkOptsCost opts rtt < rttInfinity := by
  unfold flexLinkOptsCost linkPenalty rttInfinity at *
  split_ifs <;> omega

namespace Config

/-- `flex_crossport_active`. -/
def crossportActive (cfg : Config) : Bool :=
  cfg.crossport && cfg.transit && cfg.l2Transit

/-- `flex_advertise_direct_only`. -/
def advertiseDirectOnly (cfg : Config) : Bool :=
  !cfg.l2Transit

/-- `flex_own_base_call`: the base call and SSID of the node. -/
def ownBaseCall (cfg : Config) : CStr × ℤ :=
  let (base, suffix) := splitFirstDash (flexNormalizeCallsign cfg.myCall)
  (base, ssidOf suffix)

/-- `flex_own_ssid_range`: `FLEXNETSSIDRANGE` widened to the node SSID, else that SSID alone. -/
def ownSsidRange (cfg : Config) : ℤ × ℤ :=
  let ssid := cfg.ownBaseCall.2
  match cfg.ssidRange with
  | none => (ssid, ssid)
  | some (lo, hi) => (min lo ssid, max hi ssid)

/-- `flex_record_is_ours`: the node's own record covers the destination. -/
def recordIsOurs (cfg : Config) (k : Key) : Bool :=
  let own := cfg.ownBaseCall.1
  !own.isEmpty && k.call.bytes == own &&
    decide (k.lo ≤ cfg.ownSsidRange.2 ∧ cfg.ownSsidRange.1 ≤ k.hi)

/-- `flex_local_covers`: a received record names one of the node's advertised local calls. -/
def localCovers (cfg : Config) (k : Key) : Bool :=
  cfg.locals.any fun l =>
    l.state == .bound && decide (k.lo ≤ l.ssid ∧ l.ssid ≤ k.hi) && strcasecmp l.base k.call.bytes

end Config

namespace Env

variable (e : Env)

/-! ## Who a session talks to -/

/-- `flex_sess_peer_call`: the callsign in the session's link row, empty without one. -/
def sessPeerCall (s : Slot) : CStr :=
  match (e.sessions s).link with
  | none => []
  | some l => flexNormalizeCallsign (e.links l).linkCall

/-- `flex_dest_is_session_peer`: the destination is the station session `s` talks to. -/
def destIsSessionPeer (s : Slot) (k : Key) : Bool :=
  !k.call.isEmpty && (e.sessions s).active && (e.sessions s).link.isSome &&
    !(e.sessPeerCall s).isEmpty &&
    (let (base, suffix) := splitLastDash (e.sessPeerCall s)
     strcasecmp base k.call.bytes && decide (k.lo ≤ ssidOf suffix ∧ ssidOf suffix ≤ k.hi))

/-- `flex_dest_is_our_peer`. -/
def destIsOurPeer (k : Key) : Bool :=
  slots.any fun s => e.destIsSessionPeer s k

/-- `flex_learned_has`: the peer itself told us about the destination. -/
def learnedHas (p : Slot) (k : Key) : Bool :=
  !k.call.isEmpty && ((e.learned p).find k).isSome

/-! ## The cheapest source -/

/-- What a session offers for a destination. -/
structure Offer where
  cost : ℤ
  penalty : ℤ
  direct : Bool
deriving DecidableEq

/-- The body of the source loop of `flex_expected_rtt`: what session `si` offers for `k`. -/
def offer (si : Slot) (k : Key) : Option Offer :=
  match (e.learned si).find k with
  | none => none
  | some lr =>
    if lr.rttAtNeighbour ≤ 0 ∨ rttInfinity ≤ lr.rttAtNeighbour then none
    else if !flexLinkOptsSourceAllows (e.linkOpts si)
        (lr.isDirectNeighbour || e.destIsSessionPeer si k) then none
    else
      let raw := min (lr.rttAtNeighbour + max 1 (e.sessions si).ourLinkTime) (rttInfinity - 1)
      let cand := flexLinkOptsCost (e.linkOpts si) raw
      some ⟨cand, cand - raw, lr.isDirectNeighbour⟩

/-- Session `si` may be a source for peer `p`: another active session, on the peer's port unless
cross-port routing is in force. -/
def maySource (p si : Slot) : Bool :=
  decide (si ≠ p) && (e.sessions si).active &&
    (e.cfg.crossportActive || (e.sessions si).port == (e.sessions p).port)

/-- The result of `flex_expected_rtt` with its three out-parameters. -/
structure Expected where
  rtt : ℤ
  src : Option Slot
  direct : Bool
  penalty : ℤ
deriving DecidableEq

/-- No session offers a finite path. -/
def noSource : Expected := ⟨rttInfinity, none, false, 0⟩

/-- One turn of the source loop. -/
def cheaper (p : Slot) (k : Key) (best : Expected) (si : Slot) : Expected :=
  if !e.maySource p si then best
  else match e.offer si k with
    | none => best
    | some o => if o.cost < best.rtt then ⟨o.cost, some si, o.direct, o.penalty⟩ else best

/-- `flex_expected_rtt`: the cheapest cost the node could tell peer `p` for destination `k`. -/
def expectedRtt (p : Slot) (k : Key) : Expected :=
  if e.destIsSessionPeer p k then noSource else slots.foldl (e.cheaper p k) noSource

/-! ## The abstract reading -/

/-- Some other session offers the destination to the peer. -/
def Offers (p : Slot) (k : Key) : Prop :=
  e.destIsSessionPeer p k = false ∧
    ∃ si, e.maySource p si = true ∧ (e.offer si k).isSome = true

instance (p : Slot) (k : Key) : Decidable (e.Offers p k) :=
  inferInstanceAs (Decidable (_ ∧ ∃ _ : Fin 8, _))

/-- The destination counts as session `si`'s neighbour for its link options. -/
def isNeighbour (si : Slot) (k : Key) : Bool :=
  ((e.learned si).find k).elim false LearnedRoute.isDirectNeighbour || e.destIsSessionPeer si k

variable {e}

/-- A session offers what it learned at a finite cost and its link options let through. -/
theorem offer_isSome_iff {si : Slot} {k : Key} :
    (e.offer si k).isSome = true ↔
      (∃ rtt, ((e.learned si).find k).map LearnedRoute.rttAtNeighbour = some rtt ∧
        0 < rtt ∧ rtt < rttInfinity) ∧
      flexLinkOptsSourceAllows (e.linkOpts si) (e.isNeighbour si k) = true := by
  unfold offer isNeighbour
  cases (e.learned si).find k with
  | none => simp
  | some lr =>
      simp only [Option.map_some, Option.some.injEq, exists_eq_left', Option.elim_some]
      split_ifs <;> simp_all
      omega

/-- An offer is finite, and more than its penalty. -/
theorem offer_bounds {si : Slot} {k : Key} {o : Offer} (h : e.offer si k = some o) :
    0 ≤ o.penalty ∧ o.penalty < o.cost ∧ o.cost < rttInfinity := by
  unfold offer at h
  split at h
  · cases h
  · rename_i lr hlr
    split_ifs at h with hrtt
    obtain ⟨hpos, hlt⟩ := not_or.mp hrtt
    cases h
    have hraw : 0 < min (lr.rttAtNeighbour + max 1 (e.sessions si).ourLinkTime) (rttInfinity - 1) ∧
        min (lr.rttAtNeighbour + max 1 (e.sessions si).ourLinkTime) (rttInfinity - 1) <
          rttInfinity := by
      unfold rttInfinity at *
      omega
    have hcost := flexLinkOptsCost_bounds (e.linkOpts si) hraw.1 hraw.2
    dsimp only
    omega

/-- The running minimum of the source loop is infinite exactly while no source was found, and
a finite cost with its penalty otherwise. -/
def WellFormed (x : Expected) : Prop :=
  x = noSource ∨
    (x.src.isSome = true ∧ 0 ≤ x.penalty ∧ x.penalty < x.rtt ∧ x.rtt < rttInfinity)

theorem wellFormed_cheaper {p : Slot} {k : Key} {best : Expected} {si : Slot}
    (h : WellFormed best) : WellFormed (e.cheaper p k best si) := by
  unfold cheaper
  split_ifs
  · exact h
  · split
    · exact h
    · rename_i o ho
      split_ifs
      · exact .inr ⟨rfl, offer_bounds ho⟩
      · exact h

theorem wellFormed_foldl {p : Slot} {k : Key} {best : Expected} (l : List Slot)
    (h : WellFormed best) : WellFormed (l.foldl (e.cheaper p k) best) :=
  Sweep.foldl_keeps (fun _ _ => wellFormed_cheaper) l h

/-- The loop ends with a source exactly when it began with one or met one. -/
theorem foldl_cheaper_lt_iff {p : Slot} {k : Key} {best : Expected} (l : List Slot)
    (h : WellFormed best) :
    (l.foldl (e.cheaper p k) best).rtt < rttInfinity ↔
      best.rtt < rttInfinity ∨
        ∃ si ∈ l, e.maySource p si = true ∧ (e.offer si k).isSome = true := by
  induction l generalizing best with
  | nil => simp
  | cons si l ih =>
      have hstep : (e.cheaper p k best si).rtt < rttInfinity ↔
          best.rtt < rttInfinity ∨ (e.maySource p si = true ∧ (e.offer si k).isSome = true) := by
        unfold cheaper
        cases hm : e.maySource p si
        · simp
        · cases ho : e.offer si k with
          | none => simp
          | some o =>
              have ho' := (offer_bounds ho).2.2
              by_cases hlt : o.cost < best.rtt <;> simp [hlt, ho']
              omega
      rw [List.foldl_cons, ih (wellFormed_cheaper h), hstep]
      simp only [List.mem_cons, exists_eq_or_imp, or_assoc]

theorem wellFormed_expectedRtt {p : Slot} {k : Key} : WellFormed (e.expectedRtt p k) := by
  unfold expectedRtt
  split_ifs
  · exact .inl rfl
  · exact wellFormed_foldl _ (.inl rfl)

/-- The source loop finds a finite cost exactly when some session offers one. -/
theorem expectedRtt_lt_iff {p : Slot} {k : Key} :
    (e.expectedRtt p k).rtt < rttInfinity ↔ e.Offers p k := by
  unfold expectedRtt Offers
  have hloop := foldl_cheaper_lt_iff (e := e) (p := p) (k := k) slots (.inl rfl)
  cases e.destIsSessionPeer p k
  · simpa [noSource] using hloop
  · simp [noSource]

theorem expectedRtt_src_isSome {p : Slot} {k : Key} :
    (e.expectedRtt p k).src.isSome = true ↔ e.Offers p k := by
  rw [← expectedRtt_lt_iff]
  rcases wellFormed_expectedRtt (e := e) (p := p) (k := k) with h | ⟨hs, -, -, hlt⟩
  · simp [h, noSource]
  · simp [hs, hlt]

theorem expectedRtt_of_not_offers {p : Slot} {k : Key} (h : ¬ e.Offers p k) :
    e.expectedRtt p k = noSource := by
  rcases wellFormed_expectedRtt (e := e) (p := p) (k := k) with h' | ⟨-, -, -, hlt⟩
  · exact h'
  · exact absurd (expectedRtt_lt_iff.mp hlt) h

/-- What the rule starts from: a cost with its penalty, or the sentinel. -/
theorem expectedRtt_bounds {p : Slot} {k : Key} :
    0 ≤ (e.expectedRtt p k).penalty ∧ (e.expectedRtt p k).penalty < (e.expectedRtt p k).rtt ∧
      (e.expectedRtt p k).rtt ≤ rttInfinity := by
  rcases wellFormed_expectedRtt (e := e) (p := p) (k := k) with h | ⟨-, hpen, hlt, hinf⟩
  · simp [h, noSource, rttInfinity]
  · exact ⟨hpen, hlt, hinf.le⟩

end Env

end FlexNet
