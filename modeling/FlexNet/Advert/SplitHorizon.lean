import FlexNet.Advert.Steps
import FlexNet.Node.Events

/-!
# Split horizon

A destination is barred for a peer that taught it to us, unless it is one of our own peers, and
for the peer itself.  A check never gives a barred destination a finite cost; what a finite cost
that is already queued or sent becomes when its destination is barred later is left to later
checks, and none is made for the peer that teaches it.  In a run that bars no destination while
its peer holds a finite cost, unless a check is due that withdraws it, split horizon holds on the
wire.
-/

namespace FlexNet

open Runs AdvRoute

namespace Env

/-- Split horizon forbids a finite cost: the peer taught us the destination, which is not one of
our own peers, or the destination is the peer itself. -/
def Barred (e : Env) (p : Slot) (k : Key) : Prop :=
  (e.learnedHas p k = true ∧ e.destIsOurPeer k = false) ∨ e.destIsSessionPeer p k = true

instance (e : Env) (p : Slot) (k : Key) : Decidable (e.Barred p k) :=
  inferInstanceAs (Decidable (_ ∨ _))

/-- The rule goes on with the sentinel for a barred destination. -/
theorem cost_of_barred {e : Env} {p : Slot} {k : Key} (h : e.Barred p k) :
    (e.checkInput p k).cost = rttInfinity := by
  rcases h with ⟨hhas, hpeer⟩ | hself
  · refine CheckInput.cost_of_gated ?_
    simp [CheckInput.gated, checkInput, hhas, hpeer]
  · exact (checkInput_of_not_offers fun hoffers => by simp [hoffers.1] at hself).2

end Env

namespace View

variable {p : Slot} {v : View}

/-- The tables move without barring a destination whose finite cost the peer holds or is about to
get, unless its check is due; and a check of a barred destination withdraws such a cost: its gate is
open, and the entry is none of those it leaves. -/
def BarsNothingTold (p : Slot) (v : View) : PeerAct → Prop
  | .tables e due =>
    ∀ a ∈ v.entries, a.FiniteTold → e.Barred p a.key → v.env.Barred p a.key ∨ a.key ∈ due
  | .rename e => ∀ a ∈ v.entries, a.FiniteTold → e.Barred p a.key → v.env.Barred p a.key
  | .check k force => v.env.Barred p k → ∀ a ∈ v.entries, a.key = k → a.FiniteTold →
    v.env.checkGate p k v.peer = true ∧ ¬ (v.input p k).Stuck force a
  | _ => True

/-- The invariant: a barred destination is told or queued at a finite cost only while its check is
due. -/
structure HorizonKept (p : Slot) (v : View) : Prop where
  tidy : v.Tidy
  barred : ∀ a ∈ v.entries, a.FiniteTold → v.env.Barred p a.key → a.key ∈ v.due

theorem horizonKept_apply {act : PeerAct} (hv : v.HorizonKept p) (hl : v.Legal p act)
    (hbars : v.BarsNothingTold p act) : (v.apply p act).HorizonKept p where
  tidy := tidy_apply hv.tidy hl
  barred := fun b hb hfin hbarred => by
    rcases finiteTold_of_apply hv.tidy.sound hb hfin with
      ⟨a, ha, hk, hfin', hleft⟩ | ⟨force, rfl, hlt⟩
    · rw [← hk] at hbarred ⊢
      cases act with
      | tables e due =>
          rcases hbars a ha hfin' hbarred with hbefore | hdue
          · exact List.mem_append_left _ (hv.barred a ha hfin' hbefore)
          · exact List.mem_append_right _ hdue
      | rename e => exact hv.barred a ha hfin' (hbars a ha hfin' hbarred)
      | check k force =>
          have hdue := hv.barred a ha hfin' hbarred
          refine List.mem_filter.mpr ⟨hdue, decide_eq_true fun hak => ?_⟩
          subst hak
          obtain ⟨hgate, hstuck⟩ := hbars hbarred a ha rfl hfin'
          exact hstuck (hk ▸ hleft force (by rw [hk]) (hk ▸ hgate))
      | refill | emit | close | owe | clear | release | send =>
          exact hv.barred a ha hfin' hbarred
    · exact absurd (Env.cost_of_barred hbarred) hlt.ne

/-- In every run that bars no destination while the peer holds a finite cost for it, unless a check
is due that withdraws it: the next frame carries a finite cost for no destination that is barred and
not due, and frames of records leave only when nothing is due; and a barred destination last sent at
a finite cost has its withdrawal queued, or its check is due. -/
theorem splitHorizon_kept {e : Env} {acts : List PeerAct}
    (hrun : GuardedRun (View.apply p) (fun v act => v.Legal p act ∧ v.BarsNothingTold p act)
      (start e) acts v) :
    v.FrameFiniteOnly p (fun k => v.env.Barred p k → k ∈ v.due) ∧
      ∀ a ∈ v.entries, a.toldFinite = true → v.env.Barred p a.key →
        a.key ∈ v.due ∨ (a.pending = true ∧ a.pendingRtt = rttInfinity) := by
  have hinv : v.HorizonKept p := hrun.invariant (I := HorizonKept p)
    (fun _ _ hv ⟨hl, hbars⟩ => horizonKept_apply hv hl hbars)
    ⟨tidy_start e, fun _ ha => absurd ha List.not_mem_nil⟩
  refine ⟨frameFiniteOnly hinv.tidy.sound hinv.barred,
    fun a ha htold hbarred => or_iff_not_imp_left.mpr fun hdone => ?_⟩
  have hnot : ¬ a.FiniteTold := fun hfin => hdone (hinv.barred a ha hfin hbarred)
  have hq : a.pending = true := by
    by_contra hq
    exact hnot ((finiteTold_of_not_pending (by simpa using hq)).mpr htold)
  have hcost := (hinv.tidy.sound.entries a ha).queued hq
  rw [finiteTold_of_pending hq, not_and, not_lt] at hnot
  exact ⟨hq, le_antisymm hcost.2 (hnot hcost.1.le)⟩

/-! ### Two runs -/

open Bench

/-- The small node after `A` taught it `K`. -/
def taught : Env := ((node false).after [record 0 0x4B 10]).toEnv

instance (act : PeerAct) : Decidable (v.BarsNothingTold p act) :=
  match act with
  | .tables _ _ | .rename _ => inferInstanceAs (Decidable (∀ a ∈ _, _ → _ → _))
  | .check _ _ => inferInstanceAs (Decidable (_ → ∀ a ∈ _, _ → _ → _ ∧ ¬ _))
  | .refill | .emit | .close _ | .owe | .clear | .release
  | .send _ _ => instDecidableTrue

set_option maxRecDepth 10000 in
/-- `K` is sent to `B`, and to no one who taught it. -/
theorem splitHorizon_kept_taught :
    let v := [PeerAct.check (dest 0x4B) false, .emit].foldl (View.apply slotB) (start taught)
    (∃ a ∈ v.entries, a.toldFinite = true) ∧
      (v.FrameFiniteOnly 1 (fun k => v.env.Barred 1 k → k ∈ v.due) ∧
        ∀ a ∈ v.entries, a.toldFinite = true → v.env.Barred 1 a.key →
          a.key ∈ v.due ∨ (a.pending = true ∧ a.pendingRtt = rttInfinity)) :=
  ⟨by decide +kernel, splitHorizon_kept (p := 1) (e := taught)
    (.of_chain ⟨⟨trivial, by decide +kernel⟩, ⟨rfl, trivial⟩, trivial⟩)⟩

set_option maxRecDepth 10000 in
/-- Not every run withdraws what the peer teaches: `B`, which has our table, is told `K`, which
`A` taught, and then teaches it. -/
theorem splitHorizon_taught_back :
    ¬ ∀ (events : List Event) (k : Key) (cost : ℤ),
      (((node false).after events).sessions 1).active = true →
      (((node false).after events).peers 1).pcfQuiesced = false →
      ((node false).after events).destIsOurPeer k = false →
      (∃ a ∈ (((node false).after events).peers 1).adv.advs, a.key = k ∧ a.toldFinite = true) →
      ∃ a ∈ (((node false).after (events ++
          [.processCE 1 ([0x33] ++ recordOctets k cost ++ [0x0D]), .clock 1 0, .timer])).peers
            1).adv.advs,
        a.key = k ∧
          ((a.pending = true ∧ a.pendingRtt = rttInfinity) ∨ a.lastRtt = rttInfinity) := by
  intro hall
  have hrun := hall [record 1 0x4C 10, .timer, record 0 0x4B 10] (dest 0x4B) 10
  revert hrun
  decide +kernel

end View

end FlexNet
