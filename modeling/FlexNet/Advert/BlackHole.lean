import FlexNet.Advert.Steps
import FlexNet.Node.Events

/-!
# No black hole is offered

A finite cost is promised to a peer once it is queued, and stands until it is replaced.  When the
last source of a destination goes, every other peer's check is due, and the check withdraws what
the peer was told.  Two kinds of entries slip through: one whose first record is still queued,
which the rule takes for one the peer was never told about, and one whose last cost is so large
that the step to the sentinel stays under the refresh threshold.
-/

namespace FlexNet

open Runs AdvRoute

/-! ## Renamed tables -/

namespace Env

/-- The change of names leaves a peer's destination offered: it does not make it the peer itself,
and no session whose link options tell neighbours from the rest takes it for the other kind. -/
def KeepsNeighbours (e e' : Env) (p : Slot) (k : Key) : Prop :=
  e'.destIsSessionPeer p k = false ∧ ∀ si, e.maySource p si = true →
    ((e.linkOpts si).noNbr = false ∧ (e.linkOpts si).noBehind = false) ∨
      e'.isNeighbour si k = e.isNeighbour si k

instance (e e' : Env) (p : Slot) (k : Key) : Decidable (e.KeepsNeighbours e' p k) :=
  inferInstanceAs (Decidable (_ ∧ ∀ _ : Fin 8, _ → _))

theorem Renamed.offers {e e' : Env} {p : Slot} {k : Key} (h : e.Renamed e')
    (hkeep : e.KeepsNeighbours e' p k) (hoffers : e.Offers p k) : e'.Offers p k := by
  obtain ⟨-, si, hmay, hoffer⟩ := hoffers
  refine ⟨hkeep.1, si, ?_, ?_⟩
  · simpa [maySource, h.active, h.port, h.cfg] using hmay
  · rw [offer_isSome_iff] at hoffer ⊢
    rw [h.learned, h.linkOpts]
    refine ⟨hoffer.1, ?_⟩
    rcases hkeep.2 si hmay with ⟨hnbr, hbehind⟩ | hsame
    · simp [flexLinkOptsSourceAllows, hnbr, hbehind]
    · rw [hsame]
      exact hoffer.2

end Env

namespace View

variable {p : Slot} {v : View}

/-- The checks of a destination without a source meet no stuck entry, and changes of names leave
what the peer was promised offered. -/
def LeavesNothingStuck (p : Slot) (v : View) : PeerAct → Prop
  | .check k force => ¬ v.env.Offers p k → ∀ a ∈ v.entries, a.key = k → a.FiniteTold →
    ¬ (v.input p k).Stuck force a
  | .rename e => ∀ a ∈ v.entries, a.FiniteTold → v.env.KeepsNeighbours e p a.key
  | _ => True

/-- The invariant: what an active peer was promised is offered, or its check is due. -/
structure PromisesKept (p : Slot) (v : View) : Prop where
  tidy : v.Tidy
  transit : v.env.cfg.transit = true
  quiesce : v.env.cfg.pcfQuiesce = false
  linked : v.env.Linked p
  offered : (v.env.sessions p).active = true →
    ∀ a ∈ v.entries, a.FiniteTold → v.env.Offers p a.key ∨ a.key ∈ v.due

/-- The gate is open for every destination of the table. -/
theorem PromisesKept.gate (hv : v.PromisesKept p) (hup : (v.env.sessions p).active = true)
    {a : AdvRoute} (ha : a ∈ v.entries) : v.env.checkGate p a.key v.peer = true := by
  obtain ⟨hcall, hours⟩ := hv.tidy.gated a ha
  simp [Env.checkGate, Config.recordsAllowed, hv.transit, hv.quiesce, hup, hv.linked hup, hcall,
    hours]

theorem offers_of_cost {k : Key} (h : (v.input p k).cost < rttInfinity) : v.env.Offers p k := by
  by_contra hno
  exact absurd (Env.checkInput_of_not_offers hno).2 h.ne

theorem promisesKept_apply {act : PeerAct} (hv : v.PromisesKept p) (hl : v.Legal p act)
    (hstuck : v.LeavesNothingStuck p act) : (v.apply p act).PromisesKept p where
  tidy := tidy_apply hv.tidy hl
  transit := (cfg_apply hl) ▸ hv.transit
  quiesce := (cfg_apply hl) ▸ hv.quiesce
  linked := by
    cases act with
    | tables e due => exact hl.2.2.1
    | rename e => exact hl.2
    | check | refill | emit | close | owe | clear | release | send => exact hv.linked
  offered := fun hup b hb hfin => by
    rcases finiteTold_of_apply hv.tidy.sound hb hfin with
      ⟨a, ha, hk, hfin', hcheck⟩ | ⟨force, rfl, hlt⟩
    · rw [← hk]
      cases act with
      | tables e due =>
          have htransit : e.cfg.transit = true := hl.1 ▸ hv.transit
          rcases hl.2.2.2 htransit hup with hnil | ⟨hup', hkeeps⟩
          · exact absurd ha (by simp [entries, hnil])
          · rcases hv.offered hup' a ha hfin' with hoffers | hdue
            · by_cases hmem : a.key ∈ due
              · exact .inr (List.mem_append_right _ hmem)
              · exact .inl (hkeeps a.key hmem (hv.tidy.gated a ha).1 hoffers)
            · exact .inr (List.mem_append_left _ hdue)
      | rename e =>
          have hup' : (v.env.sessions p).active = true := hl.1.active p ▸ hup
          exact (hv.offered hup' a ha hfin').imp (hl.1.offers (hstuck a ha hfin')) id
      | check k force =>
          by_cases hoffers : v.env.Offers p a.key
          · exact .inl hoffers
          · have hdue := (hv.offered hup a ha hfin').resolve_left hoffers
            refine .inr (List.mem_filter.mpr ⟨hdue, decide_eq_true fun hak => ?_⟩)
            subst hak
            exact hstuck hoffers a ha rfl hfin'
              (hk ▸ hcheck force (by rw [hk]) (hk ▸ hv.gate hup ha))
      | refill | emit | close | owe | clear | release | send => exact hv.offered hup a ha hfin'
    · exact .inl (offers_of_cost hlt)

/-- In every run whose checks of a destination without a source meet no stuck entry, and whose
changes of names take no neighbour away, an active peer whose checks are all done was promised
nothing but what some other session offers; nor does a frame carry anything else. -/
theorem promised_offered {e : Env} {acts : List PeerAct} (htransit : e.cfg.transit = true)
    (hquiesce : e.cfg.pcfQuiesce = false) (hdown : (e.sessions p).active = false)
    (hrun : GuardedRun (View.apply p) (fun v act => v.Legal p act ∧ v.LeavesNothingStuck p act)
      (start e) acts v)
    (hdue : v.due = []) (hup : (v.env.sessions p).active = true) :
    (∀ a ∈ v.entries, 0 ≤ a.told → a.told < rttInfinity →
      v.env.Offers p a.key ∧ (v.env.expectedRtt p a.key).rtt < rttInfinity) ∧
      v.FrameFiniteOnly p (v.env.Offers p) := by
  have hinv : v.PromisesKept p := hrun.invariant (I := PromisesKept p)
    (fun _ _ hv ⟨hl, hstuck⟩ => promisesKept_apply hv hl hstuck)
    ⟨tidy_start e, htransit, hquiesce, fun hup => absurd hup (by simp [start, hdown]),
      fun _ _ ha => absurd ha List.not_mem_nil⟩
  have hoffered : ∀ a ∈ v.entries, a.FiniteTold → v.env.Offers p a.key := fun a ha hfin =>
    (hinv.offered hup a ha hfin).resolve_right (by simp [hdue])
  refine ⟨fun a ha h0 hlt => ?_, frameFiniteOnly hinv.tidy.sound hoffered⟩
  have h := hoffered a ha ⟨h0, hlt⟩
  exact ⟨h, Env.expectedRtt_lt_iff.mpr h⟩

/-! ### Two runs -/

open Bench

instance (act : PeerAct) : Decidable (v.LeavesNothingStuck p act) :=
  match act with
  | .check _ _ => inferInstanceAs (Decidable (¬ _ → ∀ a ∈ _, _ → _ → ¬ _))
  | .rename _ => inferInstanceAs (Decidable (∀ a ∈ _, _ → _))
  | .tables _ _ | .refill | .emit | .close _ | .owe | .clear | .release
  | .send _ _ => instDecidableTrue

/-- The tables of the small node after `A` taught it `K`, and perhaps withdrew it. -/
def heard (costs : List ℤ) : Env :=
  ((node false).after (costs.map (record 0 0x4B))).toEnv

set_option maxRecDepth 10000 in
/-- `K` is sent to `B`, and withdrawn when `A` withdraws it. -/
theorem promised_offered_withdrawn :
    let v := [PeerAct.tables (heard [10]) [], .check (dest 0x4B) false, .emit,
      .tables (heard [10, 60000]) [dest 0x41, dest 0x4B], .check (dest 0x41) false,
      .check (dest 0x4B) false, .emit].foldl (View.apply slotB)
        (start (Node.boot (config false) [] [] links 1000).toEnv)
    (∃ a ∈ v.entries, a.lastRtt = rttInfinity) ∧
      (∀ a ∈ v.entries, 0 ≤ a.told → a.told < rttInfinity →
        v.env.Offers 1 a.key ∧ (v.env.expectedRtt 1 a.key).rtt < rttInfinity) ∧
        v.FrameFiniteOnly 1 (v.env.Offers 1) := by
  have hlinked : (heard [10]).Linked 1 ∧ (heard [10, 60000]).Linked 1 := by
    constructor <;> decide +kernel
  have hkeeps : (heard [10]).KeepsSources (heard [10, 60000]) 1 [dest 0x41, dest 0x4B] :=
    keepsSources_of_keys (by decide +kernel)
  refine ⟨by decide +kernel, promised_offered (p := 1) (by decide +kernel) (by decide +kernel)
    (by decide +kernel) (.of_chain ?_) (by decide +kernel) (by decide +kernel)⟩
  exact ⟨⟨⟨rfl, by decide +kernel, hlinked.1, fun _ _ => .inl rfl⟩, trivial⟩,
    ⟨trivial, by decide +kernel⟩, ⟨rfl, trivial⟩,
    ⟨⟨rfl, by decide +kernel, hlinked.2, fun _ _ => .inr ⟨by decide +kernel, hkeeps⟩⟩, trivial⟩,
    ⟨trivial, by decide +kernel⟩, ⟨trivial, by decide +kernel⟩, ⟨rfl, trivial⟩, trivial⟩

set_option maxRecDepth 10000 in
/-- Not every run keeps its promises: `K` waits for a token in `B`'s queue when `A`, its only
source, withdraws it. -/
theorem promised_black_hole :
    ¬ ∀ (events : List Event) (p : Slot),
      (((node false).after events).sessions p).active = true →
      ∀ a ∈ (((node false).after events).peers p).adv.advs, 0 ≤ a.told → a.told < rttInfinity →
        (((node false).after events).expectedRtt p a.key).rtt < rttInfinity := by
  intro hall
  have hrun := hall [record 0 0x4C 10, record 0 0x4B 10, record 0 0x4B 60000] 1
  revert hrun
  decide +kernel

end View

end FlexNet
