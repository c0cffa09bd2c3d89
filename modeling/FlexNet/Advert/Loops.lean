import FlexNet.Advert.Steps
import FlexNet.Node.Events

/-!
# A destination declared a loop

The detector latches an entry when it asks for a withdrawal, and the withdrawal waits in the
entry's queue slot.  Three later or simultaneous decisions lose it: a direct source revives the
entry with the latch set, an unforced check of a still climbing cost empties the slot, and a last
cost close to the sentinel leaves the withdrawal under the refresh threshold.  In a run without
these three, a latched entry whose peer was told something is withdrawn or about to be.
-/

namespace FlexNet

open Runs AdvRoute

namespace CheckInput

variable (i : CheckInput)

/-- The decisions on an entry that lose the withdrawal of a latched destination. -/
def LosesWithdrawal (force : Bool) (a : AdvRoute) : Prop :=
  i.cost < rttInfinity ∧
    if i.expected.direct then a.looping = true
    else force = false ∧ a.toldFinite = true ∧
      if a.looping then a.Climbed (i.cost - i.penalty)
      else a.pending = false ∧ a.LastClimb (i.cost - i.penalty) ∧
        costDelta a.lastRtt rttInfinity < refreshThreshold a.lastRtt

instance (force : Bool) (a : AdvRoute) : Decidable (i.LosesWithdrawal force a) :=
  inferInstanceAs (Decidable (_ ∧ ite _ _ (_ ∧ _ ∧ ite _ _ _)))

end CheckInput

/-- Nothing finite is left with the peer of a latched entry but what a queued withdrawal is about
to take back. -/
structure AdvRoute.Contained (a : AdvRoute) : Prop where
  withdrawn : a.looping = true → a.toldFinite = true → a.pending = true
  queued : a.looping = true → a.pending = true → a.pendingRtt = rttInfinity

namespace AdvRoute.Contained

variable {a b : AdvRoute}

theorem of_not_looping (h : a.looping = false) : a.Contained :=
  ⟨fun hl => absurd hl (by simp [h]), fun hl => absurd hl (by simp [h])⟩

/-- A queued withdrawal contains the entry. -/
theorem queue_inf {penalty : ℤ} : (a.queue rttInfinity penalty).Contained :=
  ⟨fun _ _ => rfl, fun _ _ => rfl⟩

/-- A withdrawal goes on the queue unless the threshold stops it. -/
theorem settle_inf {force : Bool} {penalty : ℤ} (ha : a.Contained) :
    (settle force rttInfinity penalty a).Contained := by
  rcases settle_cases force rttInfinity penalty a with ⟨-, h⟩ | ⟨-, -, h⟩ <;> rw [h]
  · exact queue_inf
  · exact ha

theorem unqueue (h : a.looping = true → a.toldFinite = false) :
    { a with pending := false }.Contained :=
  ⟨fun hl ht => absurd ht (by
    have := h hl
    simpa [toldFinite] using this), fun _ hq => by cases hq⟩

theorem commit {now : ℤ} (ha : a.Contained) (hq : a.pending = true) : (a.commit now).Contained :=
  ⟨fun hl ht => by
    have hinf := ha.queued hl hq
    rw [toldFinite_iff] at ht
    simp only [AdvRoute.commit, hinf] at ht
    omega, fun _ hq' => by cases hq'⟩

end AdvRoute.Contained

/-- One check that loses no withdrawal. -/
theorem contained_decideEntry {i : CheckInput} {force : Bool} {a : AdvRoute} (hpen : 0 ≤ i.penalty)
    (hcost : IsCost i.cost) (ha : a.Contained) (hlose : ¬ i.LosesWithdrawal force a) :
    (decideEntry force i.expected.direct i.cost i.penalty a).Contained := by
  rcases decideEntry_cases force i.expected.direct i.cost i.penalty a hpen with
    ⟨hinf, h⟩ | ⟨hdir, hfin, hl, hc, h⟩ | ⟨hdir, hfin, hl, hc, a', hs, hl', h⟩ |
      ⟨-, -, -, a', -, hl', h⟩ <;> rw [h]
  · -- no detector: either the cost is the sentinel, or the entry is not latched
    by_cases hl : a.looping = true
    · have hinf : i.cost = rttInfinity := by
        by_contra hne
        have hfin : i.cost < rttInfinity := lt_of_le_of_ne hcost.2 hne
        rcases hinf with hdir | hinf
        · exact hlose ⟨hfin, by simpa [hdir] using hl⟩
        · omega
      exact hinf ▸ ha.settle_inf
    · exact .of_not_looping (by simpa using hl)
  · split_ifs with hforce
    · exact ha.settle_inf
    · refine .unqueue fun _ => ?_
      by_contra htold
      refine hlose ⟨hfin, ?_⟩
      simp_all
  · rcases settle_cases force rttInfinity i.penalty a' with ⟨-, h⟩ | ⟨hfire, hq, h⟩ <;> rw [h]
    · exact .queue_inf
    · obtain ⟨-, hforce, hsmall⟩ := fires_eq_false.mp hfire
      refine ⟨fun _ htold => absurd ?_ hlose, fun _ hq' => absurd hq' (by simp [hq])⟩
      rw [hs.lastRtt] at hsmall
      have htold' : a.toldFinite = true := by
        rw [toldFinite_iff] at htold ⊢
        rwa [← hs.lastRtt]
      exact ⟨hfin, by simp [hdir, hforce, htold', hl, ← hs.pending, hq, hc, hsmall]⟩
  · exact .of_not_looping (by simpa using hl')

/-! ## Runs -/

namespace View

variable {p : Slot} {v : View}

/-- A check that does not lose the withdrawal of a latched entry; every other act. -/
def KeepsWithdrawals (p : Slot) (v : View) : PeerAct → Prop
  | .check k force => v.env.checkGate p k v.peer = true →
    ∀ a ∈ v.entries, a.key = k → ¬ (v.input p k).LosesWithdrawal force a
  | _ => True

/-- The invariant: every entry is contained. -/
structure LoopsContained (v : View) : Prop where
  tidy : v.Tidy
  contained : ∀ a ∈ v.entries, a.Contained

theorem loopsContained_apply {act : PeerAct} (hv : v.LoopsContained) (hl : v.Legal p act)
    (hkeep : v.KeepsWithdrawals p act) : (v.apply p act).LoopsContained where
  tidy := tidy_apply hv.tidy hl
  contained := fun b hb => by
    have hmem := mem_apply hv.tidy.sound hb
    cases act with
    | check k force =>
        rcases hmem with ⟨hmem, -⟩ | ⟨hgate, rfl, room, hent⟩
        · exact hv.contained b hmem
        · rcases checkEntry_cases hent with ⟨hfind, -, -⟩ | ⟨a, hfind, rfl, hwhy⟩ | ⟨heq, -, -, -⟩
          · exact hv.contained b (AdvertisedState.mem_of_find hfind)
          · refine .unqueue fun _ => ?_
            rcases hwhy with ⟨-, htold⟩ | hheld
            · exact htold
            · simp only [CheckInput.heldDown, Bool.and_eq_true, decide_eq_true_eq] at hheld
              simp only [toldFinite, decide_eq_false_iff_not]
              omega
          · rw [heq]
            cases hfind : v.peer.adv.find b.key with
            | none =>
                refine contained_decideEntry Env.checkInput_penalty Env.isCost_checkInput
                  (.of_not_looping rfl) fun hlose => ?_
                -- a new entry is neither latched nor told anything
                simpa [CheckInput.LosesWithdrawal, AdvRoute.fresh, toldFinite] using hlose.2
            | some a =>
                have ha := AdvertisedState.mem_of_find hfind
                exact contained_decideEntry Env.checkInput_penalty Env.isCost_checkInput
                  (hv.contained a ha)
                  (hkeep hgate a ha (AdvertisedState.find_key hfind))
    | emit =>
        rcases hmem with hmem | ⟨a, ha, hq, rfl⟩
        · exact hv.contained b hmem
        · exact (hv.contained a ha).commit hq
    | clear => exact hmem.elim
    | tables | rename | refill | close | owe | release | send => exact hv.contained b hmem

/-- In every run whose checks lose no withdrawal, every latched entry of a peer that was told
something is withdrawn, or its withdrawal is queued; and once the queue is empty no latched entry
is told a finite cost. -/
theorem looping_withdrawn {e : Env} {acts : List PeerAct}
    (hrun : GuardedRun (View.apply p) (fun v act => v.Legal p act ∧ v.KeepsWithdrawals p act)
      (start e) acts v) :
    (∀ a ∈ v.entries, a.looping = true → 0 ≤ a.lastRtt →
      a.lastRtt = rttInfinity ∨ (a.pending = true ∧ a.pendingRtt = rttInfinity)) ∧
    ((∀ a ∈ v.entries, a.pending = false) →
      ∀ a ∈ v.entries, a.looping = true → a.toldFinite = false) := by
  have hinv : v.LoopsContained := hrun.invariant (I := LoopsContained)
    (fun _ _ hv ⟨hl, hkeep⟩ => loopsContained_apply hv hl hkeep)
    ⟨tidy_start e, fun _ ha => absurd ha List.not_mem_nil⟩
  refine ⟨fun a ha hl hsent => ?_, fun hempty a ha hl => ?_⟩
  · by_cases htold : a.toldFinite = true
    · have hq := (hinv.contained a ha).withdrawn hl htold
      exact .inr ⟨hq, (hinv.contained a ha).queued hl hq⟩
    · left
      rw [toldFinite_iff] at htold
      rcases (hinv.tidy.sound.entries a ha).sent with hnever | hcost
      · omega
      · have := hcost.2
        omega
  · by_contra htold
    have hq := (hinv.contained a ha).withdrawn hl (by simpa using htold)
    rw [hempty a ha] at hq
    cases hq

/-! ### Two runs -/

open Bench

/-- The tables of the small node while `A` teaches it `K` at a cost. -/
def climb (cost : ℤ) : Env :=
  { (node false).toEnv with
    learned := fun s => if s = slotA then { routes := [⟨dest 0x4B, cost, 1000, false⟩] } else {} }

theorem keepsSources_climb {cost : ℤ} {e' : Env} :
    (climb cost).KeepsSources e' 1 [dest 0x4B] :=
  keepsSources_of_keys fun s lr hlr => by
    unfold climb at hlr
    dsimp only at hlr
    split_ifs at hlr
    · obtain rfl := List.mem_singleton.mp hlr
      exact List.mem_singleton_self _
    · cases hlr

theorem legal_climb {c' : ℤ} (c : ℤ) (hv : v.env = climb c) :
    v.Legal 1 (.tables (climb c') [dest 0x4B]) := by
  have hup : ((node false).sessions 1).active = true ∧
      ((node false).sessions 1).link.isSome = true := by decide +kernel
  refine ⟨?_, ?_, fun _ => hup.2, fun _ _ => .inr ⟨?_, ?_⟩⟩ <;> rw [hv]
  · rfl
  · exact le_rfl
  · exact hup.1
  · exact keepsSources_climb

/-- `K` is taught at a cost, checked, and sent to `B`. -/
def climbActs (cost : ℤ) : List PeerAct :=
  [.tables (climb cost) [dest 0x4B], .check (dest 0x4B) false, .emit]

instance (act : PeerAct) : Decidable (v.KeepsWithdrawals p act) :=
  match act with
  | .check _ _ => inferInstanceAs (Decidable (_ → ∀ a ∈ _, _ → ¬ _))
  | .tables _ _ | .rename _ | .refill | .emit | .close _ | .owe | .clear | .release
  | .send _ _ => instDecidableTrue

set_option maxRecDepth 10000 in
/-- Costs 10, 20, 40, 80 latch `K`, and its withdrawal is sent. -/
theorem looping_withdrawn_climb :
    let v := ([10, 20, 40, 80].flatMap climbActs).foldl (View.apply slotB) (start (climb 10))
    (∃ a ∈ v.entries, a.looping = true ∧ 0 ≤ a.lastRtt) ∧
      ∀ a ∈ v.entries, a.looping = true → 0 ≤ a.lastRtt →
        a.lastRtt = rttInfinity ∨ (a.pending = true ∧ a.pendingRtt = rttInfinity) := by
  refine ⟨by decide +kernel, (looping_withdrawn (p := 1) (e := climb 10) (.of_chain ?_)).1⟩
  exact ⟨⟨legal_climb 10 rfl, trivial⟩, ⟨trivial, by decide +kernel⟩, ⟨rfl, trivial⟩,
    ⟨legal_climb 10 rfl, trivial⟩, ⟨trivial, by decide +kernel⟩, ⟨rfl, trivial⟩,
    ⟨legal_climb 20 rfl, trivial⟩, ⟨trivial, by decide +kernel⟩, ⟨rfl, trivial⟩,
    ⟨legal_climb 40 rfl, trivial⟩, ⟨trivial, by decide +kernel⟩, ⟨rfl, trivial⟩,
    trivial⟩

set_option maxRecDepth 10000 in
/-- Not every run of the node contains its loops: `A` teaches `K` at 10, 20 and 40, which spends
`B`'s tokens, then at 80, which latches `K` and queues the withdrawal, and at 90, which drops
it. -/
theorem looping_withdrawal_lost :
    ¬ ∀ events : List Event, ∀ p : Slot,
      (((node false).after events).sessions p).active = true →
      (((node false).after events).peers p).pcfQuiesced = false →
      ∀ a ∈ (((node false).after events).peers p).adv.advs, a.looping = true → 0 ≤ a.lastRtt →
        a.lastRtt = rttInfinity ∨ (a.pending = true ∧ a.pendingRtt = rttInfinity) := by
  intro hall
  have hrun := hall [record 0 0x4B 10, .clock 10 0, record 0 0x4B 20, record 0 0x4B 40,
    record 0 0x4B 80, record 0 0x4B 90] 1
  revert hrun
  decide +kernel

end View

end FlexNet
