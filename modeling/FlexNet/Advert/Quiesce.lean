import FlexNet.Advert.Steps
import FlexNet.Node.Events

/-!
# The answer to a `'3+'`

A quiesced peer is told nothing until it asks with a `'3+'`, and then everything the other active
sessions taught us is checked with force.  The walk visits no destination that only a dead session
taught us, and withdraws nothing the peer was never told; what the peer holds of these, and no
session offers, stays with it.  Where every promise that is not offered any more can be reached by
the walk, nothing is stranded, however long the answer takes and whatever happens meanwhile.
-/

namespace FlexNet

open Runs AdvRoute

/-! ## What the peer ends up with -/

/-- The entry leaves nothing finite with the peer but for destinations in `S`. -/
structure AdvRoute.Within (S : Key → Prop) (a : AdvRoute) : Prop where
  told : a.toldFinite = true → S a.key ∨ (a.pending = true ∧ a.pendingRtt = rttInfinity)
  queued : a.pending = true → a.pendingRtt < rttInfinity → S a.key

namespace AdvRoute.Within

variable {S T : Key → Prop} {a b : AdvRoute}

theorem mono (h : a.Within S) (hST : ∀ k, S k → T k) : a.Within T :=
  ⟨fun htold => (h.told htold).imp (hST _) id, fun hq hlt => hST _ (h.queued hq hlt)⟩

theorem of_mem (h : S a.key) : a.Within S := ⟨fun _ => .inl h, fun _ _ => h⟩

theorem commit {now : ℤ} (h : a.Within S) (hq : a.pending = true) : (a.commit now).Within S := by
  refine ⟨fun htold => .inl (h.queued hq ?_), fun hq' => by cases hq'⟩
  rw [toldFinite_iff] at htold
  exact htold.2

theorem unqueue (htold : a.toldFinite = false) : { a with pending := false }.Within S :=
  ⟨fun h => absurd h (by simpa [toldFinite] using htold), fun hq => by cases hq⟩

theorem queue_inf {penalty : ℤ} : (a.queue rttInfinity penalty).Within S :=
  ⟨fun _ => .inr ⟨rfl, rfl⟩, fun _ hlt => absurd hlt (lt_irrefl _)⟩

/-- A sound entry that is within `S` but not in it holds no finite cost in the end. -/
theorem of_not_finiteTold (ha : a.Sound) (h : ¬ a.FiniteTold) : a.Within S := by
  refine ⟨fun htold => .inr ?_, fun hq hlt => absurd ?_ h⟩
  · have hq : a.pending = true := by
      by_contra hq
      exact h ((finiteTold_of_not_pending (by simpa using hq)).mpr htold)
    have hcost := ha.queued hq
    rw [finiteTold_of_pending hq, not_and, not_lt] at h
    exact ⟨hq, le_antisymm hcost.2 (h hcost.1.le)⟩
  · exact (finiteTold_of_pending hq).mpr ⟨(ha.queued hq).1.le, hlt⟩

end AdvRoute.Within

namespace View

variable {p : Slot} {v : View} {S : Key → Prop} {a b : AdvRoute}

/-- A check keeps an entry within `S` once `S` has what is offered now. -/
theorem within_check {k : Key} {force room : Bool} (hb : b.key = k)
    (hS : ∀ k, v.env.Offers p k → S k)
    (hent : checkEntry (v.input p k) force room k (v.peer.adv.find k) = some b)
    (hold : ∀ a ∈ v.entries, a.Within S) : b.Within S := by
  by_cases hoffers : v.env.Offers p k
  · exact .of_mem (hb ▸ hS k hoffers)
  · have hcost := (Env.checkInput_of_not_offers hoffers).2
    obtain ⟨a, hfind, ⟨htold, ⟨rfl, -⟩ | rfl⟩ | ⟨htold, rfl⟩⟩ :=
      checkEntry_sentinel hcost Env.checkInput_penalty (Env.checkInput_cost_eq.mp hcost) hent
    · exact hold b (AdvertisedState.mem_of_find hfind)
    · exact .unqueue htold
    · rcases settle_cases force rttInfinity (v.input p k).penalty a with ⟨-, h⟩ | ⟨-, -, h⟩ <;>
        rw [h]
      · exact .queue_inf
      · exact hold a (AdvertisedState.mem_of_find hfind)

theorem within_apply (act : PeerAct) (hs : v.peer.adv.Sound) (hS : ∀ k, v.env.Offers p k → S k)
    (hold : ∀ a ∈ v.entries, a.Within S) : ∀ b ∈ (v.apply p act).entries, b.Within S := by
  intro b hb
  have hmem := mem_apply hs hb
  cases act with
  | check k force =>
      rcases hmem with ⟨hmem, -⟩ | ⟨-, hk, room, hent⟩
      · exact hold b hmem
      · exact within_check hk hS hent hold
  | emit =>
      rcases hmem with hmem | ⟨a, ha, hq, rfl⟩
      · exact hold b hmem
      · exact (hold a ha).commit hq
  | clear => exact hmem.elim
  | tables | rename | refill | close | owe | release | send => exact hold b hmem

/-! ## The walk -/

/-- Every finite cost the peer holds or is about to get is still offered, or the walk visits its
destination and can take it back. -/
def WalkReaches (p : Slot) (v : View) : Prop :=
  ∀ a ∈ v.entries, a.FiniteTold → v.env.Offers p a.key ∨
    (a.key ∈ v.env.walkKeys p false ∧
      (a.toldFinite = true ∨ (v.env.linkOpts p).ownOnly = true))

instance (p : Slot) (v : View) : Decidable (v.WalkReaches p) :=
  inferInstanceAs (Decidable (∀ a ∈ _, _ → _ ∨ (_ ∧ (_ ∨ _))))

/-- The forced walk that answers a `'3+'`. -/
def answer (p : Slot) (v : View) : View :=
  { v with peer := (v.env.flexAdvertiseWalkForPeer p false true v.peer).1 }

/-- An entry the rest of the walk has yet to take back. -/
def Awaits (p : Slot) (e : Env) (keys : List Key) (a : AdvRoute) : Prop :=
  a.key ∈ keys ∧ (a.toldFinite = true ∨ (e.linkOpts p).ownOnly = true)

/-- The walk takes back what it can reach. -/
theorem within_checks {e : Env} {keys : List Key} {x : Peer} (hs : x.adv.Sound)
    (hgate : ∀ a ∈ x.adv.advs, e.checkGate p a.key x = true)
    (hold : ∀ a ∈ x.adv.advs, a.Within (e.Offers p) ∨ Awaits p e keys a) :
    ∀ b ∈ (keys.foldl (fun x k => e.flexAdvertiseCheck p k true x) x).adv.advs,
      b.Within (e.Offers p) := by
  induction keys generalizing x with
  | nil => exact fun b hb => (hold b hb).resolve_right fun h => absurd h.1 List.not_mem_nil
  | cons k keys ih =>
      have hframe := e.flexAdvertiseCheck_frame p k true x
      refine ih (Env.sound_check hs) (fun b hb => ?_) fun b hb => ?_
      · have hsame : e.checkGate p b.key (e.flexAdvertiseCheck p k true x) =
            e.checkGate p b.key x := by rw [hframe]; rfl
        rw [hsame]
        rcases Env.mem_check hs hb with ⟨hmem, -⟩ | ⟨hk, rfl, -⟩
        · exact hgate b hmem
        · exact hk
      · rcases Env.mem_check hs hb with ⟨hmem, hne⟩ | ⟨-, rfl, room, hent⟩
        · have hkey : b.key ≠ k := fun hk => by
            rcases hne with hne | hshut
            · exact hne hk
            · rw [← hk, hgate b hmem] at hshut
              cases hshut
          refine (hold b hmem).imp id fun h => ⟨?_, h.2⟩
          exact (List.mem_cons.mp h.1).resolve_left hkey
        · left
          by_cases hoffers : e.Offers p b.key
          · exact .of_mem hoffers
          · have hcost := (Env.checkInput_of_not_offers hoffers).2
            obtain ⟨a, hfind, ⟨htold, ⟨rfl, hown⟩ | rfl⟩ | ⟨htold, heq⟩⟩ :=
              checkEntry_sentinel hcost Env.checkInput_penalty (Env.checkInput_cost_eq.mp hcost)
                hent
            · refine (hold b (AdvertisedState.mem_of_find hfind)).resolve_right fun hawaits => ?_
              have hown' : (e.linkOpts p).ownOnly = false := hown
              simp [Awaits, htold, hown'] at hawaits
            · exact .unqueue htold
            · -- a forced check of something the peer holds always goes on the queue
              rcases settle_cases true rttInfinity (e.checkInput p b.key).penalty a with
                ⟨-, h⟩ | ⟨hfire, -⟩
              · rw [heq, h]
                exact .queue_inf
              · cases (fires_eq_false.mp hfire).2.1

/-! ## Runs -/

/-- The destination was offered to the peer at some moment of the run from `v`. -/
def OfferedSince (p : Slot) (v : View) (acts : List PeerAct) (k : Key) : Prop :=
  Visited (View.apply p) (fun u => u.env.Offers p k) v acts

theorem offeredSince_now {rest : List PeerAct} {k : Key}
    (h : (rest.foldl (View.apply p) v).env.Offers p k) : OfferedSince p v rest k :=
  Visited.last (P := fun u : View => u.env.Offers p k) h

/-- What a run keeps within the destinations offered since it began. -/
theorem within_run {rest : List PeerAct} {w : View} (hs : v.peer.adv.Sound)
    (hold : ∀ a ∈ v.entries, a.Within (v.env.Offers p)) (hrun : PeerRun p v rest w) :
    w.peer.adv.Sound ∧ ∀ a ∈ w.entries, a.Within (OfferedSince p v rest) := by
  induction hrun with
  | start => exact ⟨hs, fun a ha => (hold a ha).mono fun _ h => Visited.last h⟩
  | step act hprev _ ih =>
      refine ⟨sound_apply ih.1 act, ?_⟩
      have hnow := hprev.eq_foldl
      have hmore := within_apply act ih.1
        (fun k hoffers => offeredSince_now (hnow ▸ hoffers)) ih.2
      exact fun b hb => (hmore b hb).mono fun _ => Visited.extend

/-- In every run: when the walk that answers a `'3+'` reaches every promise that is not offered any
more, then from the end of the walk on, and so when the drain sends the closing `'3-'`, every
destination last sent at a finite cost was offered at the moment of the `'3+'` or later, or its
withdrawal is queued; once nothing is queued, it was offered. -/
theorem answer_strands_nothing {e : Env} {acts rest : List PeerAct} {w : View}
    (hreach : PeerRun p (start e) acts v) (htransit : v.env.cfg.transit = true)
    (hup : (v.env.sessions p).active = true) (hlink : (v.env.sessions p).link.isSome = true)
    (hreleased : v.peer.pcfQuiesced = false) (hwalk : v.WalkReaches p)
    (hrun : PeerRun p (v.answer p) rest w) :
    (∀ a ∈ w.entries, a.toldFinite = true →
      OfferedSince p (v.answer p) rest a.key ∨ (a.pending = true ∧ a.pendingRtt = rttInfinity)) ∧
    (w.peer.adv.queued = false →
      ∀ a ∈ w.entries, a.toldFinite = true → OfferedSince p (v.answer p) rest a.key) := by
  have htidy : v.Tidy := hreach.invariant (I := Tidy) (fun _ _ => tidy_apply) (tidy_start e)
  have hgate : ∀ a ∈ v.entries, v.env.checkGate p a.key v.peer = true := fun a ha => by
    obtain ⟨hcall, hours⟩ := htidy.gated a ha
    simp [Env.checkGate, Config.recordsAllowed, htransit, hup, hlink, hreleased, hcall, hours]
  -- after the walk the peer holds nothing but what is offered
  have hwalked : ∀ b ∈ (v.answer p).entries, b.Within (v.env.Offers p) := by
    rw [answer, entries, Env.flexAdvertiseWalkForPeer_fst]
    refine within_checks htidy.sound hgate fun a ha => ?_
    by_cases hfin : a.FiniteTold
    · exact (hwalk a ha hfin).imp .of_mem id
    · exact .inl (.of_not_finiteTold (htidy.sound.entries a ha) hfin)
  have hsound : (v.answer p).peer.adv.Sound := by
    rw [answer, Env.flexAdvertiseWalkForPeer_fst]
    exact Sweep.foldl_keeps (P := fun x : Peer => x.adv.Sound) (fun _ _ => Env.sound_check) _
      htidy.sound
  obtain ⟨-, hend⟩ := within_run hsound hwalked hrun
  refine ⟨fun a ha => (hend a ha).told, fun hempty a ha htold => ?_⟩
  refine ((hend a ha).told htold).resolve_right fun hq => ?_
  have := List.any_eq_false.mp hempty a ha
  simp [hq.1] at this

/-! ### Two runs -/

open Bench

/-- The tables of the small node after `A` taught it `K`, and perhaps withdrew it. -/
def known (costs : List ℤ) : Env :=
  ((node true).after (costs.map (record 0 0x4B))).toEnv

/-- `B` was sent `K` when `A` withdraws it. -/
def lapsed : View :=
  [PeerAct.tables (known [10]) [], .check (dest 0x4B) false, .emit,
    .tables (known [10, 60000]) [dest 0x41, dest 0x4B]].foldl (View.apply slotB)
      (start (Node.boot (config true) [] [] links 1000).toEnv)

theorem lapsed_reached :
    ∃ acts, PeerRun slotB (start (Node.boot (config true) [] [] links 1000).toEnv)
      acts lapsed := by
  have hlinked : (known [10]).Linked 1 ∧ (known [10, 60000]).Linked 1 := by
    constructor <;> decide +kernel
  have hkeeps : (known [10]).KeepsSources (known [10, 60000]) 1 [dest 0x41, dest 0x4B] :=
    keepsSources_of_keys (by decide +kernel)
  refine ⟨_, .of_chain ⟨⟨rfl, by decide +kernel, hlinked.1, fun _ _ => .inl rfl⟩, trivial, rfl,
    ⟨rfl, by decide +kernel, hlinked.2, fun _ _ => .inr ⟨by decide +kernel, hkeeps⟩⟩, trivial⟩⟩

/-- What follows the walk that answers `B`. -/
def afterwards : List PeerAct := [.owe, .check (dest 0x4B) false, .check (dest 0x41) false]

set_option maxRecDepth 10000 in
/-- A `'3+'` of `B` while `A` is still up takes `K` back. -/
theorem answer_strands_nothing_lapsed :
    (∃ a ∈ lapsed.entries, a.key = dest 0x4B ∧ a.toldFinite = true) ∧
    ∀ a ∈ (afterwards.foldl (View.apply slotB) (lapsed.answer slotB)).entries, a.toldFinite = true →
      OfferedSince slotB (lapsed.answer slotB) afterwards a.key ∨
        (a.pending = true ∧ a.pendingRtt = rttInfinity) := by
  obtain ⟨_, hreach⟩ := lapsed_reached
  have hrun : PeerRun slotB (lapsed.answer slotB) afterwards
      (afterwards.foldl (View.apply slotB) (lapsed.answer slotB)) :=
    .of_chain ⟨trivial, trivial, trivial, trivial⟩
  exact ⟨by decide +kernel, (answer_strands_nothing hreach (by decide +kernel) (by decide +kernel)
    (by decide +kernel) (by decide +kernel) (by decide +kernel) hrun).1⟩

/-- A `'3+'`, received on a link. -/
def statusPos (l : LinkId) : Event := .processCE l [0x33, 0x2B, 0x0D]

set_option maxRecDepth 10000 in
/-- Not every answer strands nothing: `A`, the only source of `K`, is gone when `B` asks with a
`'3+'`, and the walk does not visit what it taught us. -/
theorem answer_strands :
    ¬ ∀ (events rest : List Event),
      let asked := (node true).after events
      let done := asked.after (statusPos 1 :: rest)
      (done.sessions 1).active = true → (asked.peers 1).pcfQuiesced = true →
      (done.peers 1).pcfQuiesced = true → (done.peers 1).adv.queued = false →
      ∀ a ∈ (done.peers 1).adv.advs, a.toldFinite = true →
        ∃ mid ∈ (statusPos 1 :: rest).inits,
          ((asked.after mid).expectedRtt 1 a.key).rtt < rttInfinity := by
  intro hall
  have hrun := hall
    [record 0 0x4B 10, statusPos 1, .clock 20 0, .timer, .clock 20 0, .timer, .clock 20 0, .timer,
      .closeSession 0]
    [.clock 20 0, .timer]
  revert hrun
  decide +kernel

end View

end FlexNet
