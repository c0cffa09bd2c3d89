import FlexNet.Advert.Machine

/-!
# What one act does to the entries

`View.mem_apply` says once, for every act of the machine, what an entry of the table after the
act was before it.  The invariants of the peer are derived from it; `View.Tidy` is the one every
other invariant starts from.
-/

namespace FlexNet

open Runs AdvRoute

namespace View

variable {p : Slot} {v w : View} {a b : AdvRoute}

/-- The entries of the peer's table. -/
abbrev entries (v : View) : List AdvRoute := v.peer.adv.advs

/-- What the decision rule reads for a destination. -/
abbrev input (v : View) (p : Slot) (k : Key) : CheckInput := v.env.checkInput p k

/-- What `b`, an entry after the act, was before it. -/
def EntryOf (p : Slot) (v : View) : PeerAct → AdvRoute → Prop
  | .check k force, b =>
    (b ∈ v.entries ∧ (b.key ≠ k ∨ v.env.checkGate p k v.peer = false)) ∨
      (v.env.checkGate p k v.peer = true ∧ b.key = k ∧
        ∃ room, checkEntry (v.input p k) force room k (v.peer.adv.find k) = some b)
  | .emit, b => b ∈ v.entries ∨ ∃ a ∈ v.entries, a.pending = true ∧ b = a.commit v.env.now
  | .clear, _ => False
  | _, b => b ∈ v.entries

@[simp] theorem drainEob_advs {e : Env} {isPcf : Bool} {frames : ℕ} {x : Peer} :
    (e.drainEob p isPcf frames x).adv.advs = x.adv.advs := by
  unfold Env.drainEob Env.flexSendFrame
  dsimp only
  split_ifs <;> rfl

@[simp] theorem flexSendFrame_adv {e : Env} {pid : UInt8} {data : CStr} {x : Peer} :
    (e.flexSendFrame p pid data x).adv = x.adv := rfl

/-- A frame turn keeps the table sound, and commits some queued entries. -/
theorem emit_entries {e : Env} {isPcf : Bool} {x : Peer} (hs : x.adv.Sound) :
    (e.emitFrame p isPcf x).1.adv.Sound ∧ ∀ b ∈ (e.emitFrame p isPcf x).1.adv.advs,
      b ∈ x.adv.advs ∨ ∃ a ∈ x.adv.advs, a.pending = true ∧ b = a.commit e.now := by
  rcases e.emitFrame_cases p isPcf hs with
    ⟨-, heq⟩ | ⟨picks, st, -, -, hpacked, heq⟩ <;> rw [heq]
  · exact ⟨hs, fun b hb => .inl hb⟩
  · refine ⟨hpacked.sound.congr rfl, fun b hb => ?_⟩
    have hfind := hpacked.find b.key
    rw [hpacked.sound.find_of_mem hb] at hfind
    obtain ⟨a, ha, hab⟩ := Option.map_eq_some_iff.mp hfind.symm
    have hmem := AdvertisedState.mem_of_find ha
    split_ifs at hab with hpick
    · exact .inr ⟨a, hmem, (hpacked.picked a hpick).2, hab.symm⟩
    · exact .inl (hab ▸ hmem)

theorem sound_apply (hs : v.peer.adv.Sound) (act : PeerAct) : (v.apply p act).peer.adv.Sound := by
  cases act with
  | check k force => exact Env.sound_check hs
  | refill => exact hs.congr AdvertisedState.advs_refill
  | emit => exact (emit_entries hs).1
  | close frames => exact hs.congr drainEob_advs
  | clear => exact .empty
  | owe => exact hs.congr rfl
  | tables | rename | release | send => exact hs

/-- What one act does to the entries. -/
theorem mem_apply (hs : v.peer.adv.Sound) {act : PeerAct} (hb : b ∈ (v.apply p act).entries) :
    v.EntryOf p act b := by
  cases act with
  | check k force => exact Env.mem_check hs hb
  | refill =>
      rw [entries, apply, AdvertisedState.advs_refill] at hb
      exact hb
  | emit => exact (emit_entries hs).2 b hb
  | close frames =>
      rw [entries, apply, drainEob_advs] at hb
      exact hb
  | clear => exact absurd hb List.not_mem_nil
  | tables | rename | owe | release | send => exact hb

/-- Where a finite cost comes from: an act leaves it with the entry, or a check with a finite cost
put it there.  A check that went on with the sentinel leaves it with a stuck entry only. -/
theorem finiteTold_of_apply (hs : v.peer.adv.Sound) {act : PeerAct}
    (hb : b ∈ (v.apply p act).entries) (hfin : b.FiniteTold) :
    (∃ a ∈ v.entries, a.key = b.key ∧ a.FiniteTold ∧
      ∀ force, act = .check b.key force → v.env.checkGate p b.key v.peer = true →
        (v.input p b.key).Stuck force a) ∨
    (∃ force, act = .check b.key force ∧ (v.input p b.key).cost < rttInfinity) := by
  have hmem := mem_apply hs hb
  cases act with
  | check k force =>
      rcases hmem with ⟨hmem, hwhy⟩ | ⟨hgate, rfl, room, hent⟩
      · refine .inl ⟨b, hmem, rfl, hfin, ?_⟩
        rintro _ ⟨⟩ hgate
        simp [hgate] at hwhy
      · rcases lt_or_eq_of_le (Env.isCost_checkInput (e := v.env) (p := p) (k := b.key)).2 with
          hlt | heq
        · exact .inr ⟨force, rfl, hlt⟩
        · obtain ⟨hfind, hstuck⟩ := stuck_of_checkEntry heq Env.checkInput_penalty
            (Env.checkInput_cost_eq.mp heq) hent hfin
          refine .inl ⟨b, AdvertisedState.mem_of_find hfind, rfl, hfin, ?_⟩
          rintro _ ⟨⟩ -
          exact hstuck
  | emit =>
      rcases hmem with hmem | ⟨a, ha, hq, rfl⟩
      · exact .inl ⟨b, hmem, rfl, hfin, fun _ h => by cases h⟩
      · refine .inl ⟨a, ha, rfl, ?_, fun _ h => by cases h⟩
        rwa [FiniteTold, told_commit hq] at hfin
  | clear => exact hmem.elim
  | tables | rename | refill | close | owe | release | send =>
      exact .inl ⟨b, hmem, rfl, hfin, fun _ h => by cases h⟩

/-- A table move that may take any source away is legal once every check is due. -/
theorem keepsSources_of_keys {e e' : Env} {due : List Key}
    (h : ∀ s, ∀ lr ∈ (e.learned s).routes, lr.key ∈ due) : e.KeepsSources e' p due := by
  rintro k hk - ⟨-, si, -, hoffer⟩
  unfold Env.offer at hoffer
  split at hoffer
  · cases hoffer
  · rename_i lr hlr
    exact absurd (KeyedTable.lookup_key hlr ▸ h si lr (KeyedTable.mem_of_lookup hlr)) hk

/-- The next frame turn hands no finite cost to `flex_send_frame` but for destinations that
satisfy `Q`. -/
def FrameFiniteOnly (p : Slot) (v : View) (Q : Key → Prop) : Prop :=
  v.env.emitFrame p (v.isPcf p) v.peer = (v.peer, false) ∨
    ∃ (picks : List AdvRoute) (st : AdvertisedState),
      v.env.emitFrame p (v.isPcf p) v.peer =
        (v.env.flexSendFrame p pidCE (recordsFrame (pickRecords picks))
          { v.peer with adv := { st with tokens := st.tokens - 1 } }, true) ∧
      ∀ a ∈ picks, a.pendingRtt < rttInfinity → Q a.key

theorem frameFiniteOnly {Q : Key → Prop} (hs : v.peer.adv.Sound)
    (hQ : ∀ a ∈ v.entries, a.FiniteTold → Q a.key) : v.FrameFiniteOnly p Q := by
  rcases v.env.emitFrame_cases p (v.isPcf p) hs with
    ⟨-, heq⟩ | ⟨picks, st, -, -, hpacked, heq⟩
  · exact .inl heq
  · refine .inr ⟨picks, st, heq, fun a ha hlt => ?_⟩
    obtain ⟨hmem, hq⟩ := hpacked.picked a ha
    exact hQ a hmem ((finiteTold_of_pending hq).mpr ⟨((hs.entries a hmem).queued hq).1.le, hlt⟩)

/-! ## The invariant of every table -/

/-- What every reachable table keeps: it is sound, and its destinations are ones the gate lets
through. -/
structure Tidy (v : View) : Prop where
  sound : v.peer.adv.Sound
  gated : ∀ a ∈ v.entries, a.key.call.isEmpty = false ∧ v.env.cfg.recordIsOurs a.key = false

theorem cfg_apply {act : PeerAct} (h : v.Legal p act) : (v.apply p act).env.cfg = v.env.cfg := by
  cases act with
  | tables => exact h.1
  | rename => exact h.1.cfg
  | _ => rfl

theorem tidy_apply {act : PeerAct} (hv : v.Tidy) (hl : v.Legal p act) : (v.apply p act).Tidy where
  sound := sound_apply hv.sound act
  gated := fun b hb => by
    rw [cfg_apply hl]
    have hmem := mem_apply hv.sound hb
    cases act with
    | check k force =>
        rcases hmem with ⟨hmem, -⟩ | ⟨hgate, rfl, -⟩
        · exact hv.gated b hmem
        · simp only [Env.checkGate, Bool.and_eq_true, Bool.not_eq_true'] at hgate
          exact ⟨hgate.1.2, hgate.2⟩
    | emit =>
        rcases hmem with hmem | ⟨a, ha, -, rfl⟩
        · exact hv.gated b hmem
        · exact hv.gated a ha
    | clear => exact hmem.elim
    | tables | rename | refill | close | owe | release | send => exact hv.gated b hmem

theorem tidy_start (e : Env) : (start e).Tidy :=
  ⟨.empty, fun _ ha => absurd ha List.not_mem_nil⟩

end View

end FlexNet
