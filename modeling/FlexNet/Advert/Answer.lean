import FlexNet.Advert.Silence
import Mathlib.Data.List.Infix

/-!
# What the answer to a `'3+'` contains, and how it is closed

The forced walk puts every destination that may be told on the queue (`waits_walk`).  What is queued
stays queued until a frame takes it (`waits_or_announced`), unless a withdrawal was sent less than
90 seconds ago, the link is marked `'='`, or the count-to-infinity detector latches.  While the
`'3-'` is owed no other path of the source sends one, and the drain sends it only with nothing
queued, two refill periods after the last pass that had something to do (`answer_closed`).
-/

namespace FlexNet

open Runs AdvRoute

/-! ## Entries that wait for a frame -/

/-- The entry is queued, and no withdrawal of it is recent enough to hold it down. -/
structure AdvRoute.Waits (now : ℤ) (a : AdvRoute) : Prop where
  pending : a.pending = true
  notHeld : rttInfinity ≤ a.lastRtt → poisonHolddown ≤ now - a.lastAt

theorem AdvRoute.Waits.later {now now' : ℤ} {a : AdvRoute} (h : a.Waits now) (hnow : now ≤ now') :
    a.Waits now' :=
  ⟨h.pending, fun hinf => by have := h.notHeld hinf; omega⟩

theorem settle_pending {force : Bool} {expected penalty : ℤ} {a : AdvRoute}
    (h : force = true ∨ a.pending = true) : (settle force expected penalty a).pending = true := by
  rcases settle_cases force expected penalty a with ⟨-, heq⟩ | ⟨hfire, hpend, -⟩
  · rw [heq]
    rfl
  · rcases h with h | h
    · rw [(fires_eq_false.mp hfire).2.1] at h
      cases h
    · rw [hpend] at h
      cases h

/-- A decision queues the cost, when the walk is forced, and leaves a queued entry queued, when the
detector has not latched. -/
theorem decideEntry_pending {force direct : Bool} {cost penalty : ℤ} {a : AdvRoute}
    (hpen : 0 ≤ penalty) (h : force = true ∨ (a.pending = true ∧ a.looping = false)) :
    (decideEntry force direct cost penalty a).pending = true := by
  have hsame : ∀ a' : AdvRoute, a'.SameRecord a → force = true ∨ a'.pending = true :=
    fun a' hs => h.imp_right fun hq => hs.pending.trans hq.1
  rcases decideEntry_cases force direct cost penalty a hpen with ⟨-, heq⟩ | ⟨-, -, hl, -, heq⟩ |
      ⟨-, -, -, -, a', hs, -, heq⟩ | ⟨-, -, -, a', hs, -, heq⟩ <;> rw [heq]
  · exact settle_pending (hsame a (.refl a))
  · rcases h with h | h
    · rw [if_pos h]
      exact settle_pending (.inl h)
    · rw [hl] at h
      cases h.2
  · exact settle_pending (hsame a' hs)
  · exact settle_pending (hsame a' hs)

/-- A check leaves an entry that waits waiting. -/
theorem waits_checkEntry {i : CheckInput} {force room : Bool} {k : Key} {a b : AdvRoute}
    (hown : i.ownOnly = false) (hpen : 0 ≤ i.penalty) (ha : a.Waits i.now)
    (hloop : force = true ∨ a.looping = false)
    (h : checkEntry i force room k (some a) = some b) : b.Waits i.now := by
  have hheld : ∀ cost, i.heldDown a cost = false := fun cost => by
    simp only [CheckInput.heldDown, Bool.and_eq_false_iff, decide_eq_false_iff_not, not_and, not_lt]
    exact .inr fun hinf _ => ha.notHeld hinf
  unfold checkEntry at h
  cases hscreen : i.screen (some a) with
  | leave =>
      rw [hscreen] at h
      cases h
      exact ha
  | unqueue =>
      rcases CheckInput.screen_unqueue hscreen with ⟨howned, -⟩ | hdown
      · rw [hown] at howned
        cases howned
      · rw [Option.elim_some, hheld] at hdown
        cases hdown
  | go cost penalty =>
      rw [hscreen] at h
      obtain ⟨-, rfl, -⟩ := CheckInput.screen_go hscreen
      cases h
      refine ⟨decideEntry_pending hpen (hloop.imp_right fun hl => ⟨ha.pending, hl⟩), ?_⟩
      rw [decideEntry_lastRtt hpen, decideEntry_lastAt hpen]
      exact ha.notHeld

/-- A forced check queues a destination that no gate shuts. -/
theorem waits_checkEntry_forced {i : CheckInput} {room : Bool} {k : Key} {adv : Option AdvRoute}
    (hgated : i.gated = false) (hsrc : i.expected.src.isSome = true) (hpen : 0 ≤ i.penalty)
    (hheld : ∀ a, adv = some a → rttInfinity ≤ a.lastRtt → poisonHolddown ≤ i.now - a.lastAt)
    (hroom : room = true ∨ adv.isSome = true) :
    ∃ b, checkEntry i true room k adv = some b ∧ b.Waits i.now := by
  have hscreen : i.screen adv = .go i.cost i.penalty := by
    rw [CheckInput.screen_eq, hgated]
    have hdown : adv.elim false (fun a => i.heldDown a i.cost) = false := by
      cases adv with
      | none => rfl
      | some a =>
          simp only [Option.elim_some, CheckInput.heldDown, Bool.and_eq_false_iff,
            decide_eq_false_iff_not, not_and, not_lt]
          exact .inr fun hinf _ => hheld a rfl hinf
    rw [hdown]
    simp [Option.isNone_iff_eq_none, Option.isSome_iff_ne_none.mp hsrc]
  unfold checkEntry
  rw [hscreen]
  cases adv with
  | some a =>
      refine ⟨_, rfl, decideEntry_pending hpen (.inl rfl), ?_⟩
      rw [decideEntry_lastRtt hpen, decideEntry_lastAt hpen]
      exact hheld a rfl
  | none =>
      dsimp only
      rw [if_pos (hroom.resolve_right (by simp))]
      refine ⟨_, rfl, decideEntry_pending hpen (.inl rfl), fun hinf => ?_⟩
      rw [decideEntry_lastRtt hpen] at hinf
      simp [AdvRoute.fresh, rttInfinity] at hinf

/-! ## The forced walk -/

namespace Env

variable {e : Env} {p : Slot} {k : Key} {x : Peer}

/-- A check of one destination leaves the entries of the others alone. -/
theorem find_check_of_ne {k' : Key} {force : Bool} (hne : k ≠ k') :
    (e.flexAdvertiseCheck p k' force x).adv.find k = x.adv.find k := by
  rcases e.flexAdvertiseCheck_cases p k' force x with h | ⟨a, h, rfl, -⟩ <;> rw [h]
  exact AdvertisedState.find_put_of_ne hne

/-- A check adds an entry at most. -/
theorem length_check {k' : Key} {force : Bool} :
    x.adv.advs.length ≤ (e.flexAdvertiseCheck p k' force x).adv.advs.length := by
  rcases e.flexAdvertiseCheck_cases p k' force x with h | ⟨a, h, -⟩ <;> rw [h]
  have hkeys : (x.adv.put a).advs.map AdvRoute.key = x.adv.advs.map AdvRoute.key ∨
      (x.adv.put a).advs.map AdvRoute.key = x.adv.advs.map AdvRoute.key ++ [a.key] :=
    KeyedTable.map_key_store
  change x.adv.advs.length ≤ (x.adv.put a).advs.length
  rcases hkeys with hkeys | hkeys
  · exact (by simpa using congrArg List.length hkeys : _ = _).ge
  · have hlen := congrArg List.length hkeys
    simp only [List.length_map, List.length_append, List.length_singleton] at hlen
    omega

theorem length_checks {keys : List Key} {force : Bool} :
    x.adv.advs.length ≤
      (keys.foldl (fun x k => e.flexAdvertiseCheck p k force x) x).adv.advs.length := by
  induction keys generalizing x with
  | nil => exact le_rfl
  | cons k keys ih => exact length_check.trans ih

/-- A forced check leaves an entry that waits waiting. -/
theorem waits_check {k' : Key} {force : Bool} {a : AdvRoute}
    (hown : (e.linkOpts p).ownOnly = false) (hfind : x.adv.find k = some a) (ha : a.Waits e.now)
    (hloop : force = true ∨ a.looping = false) :
    ∃ b, (e.flexAdvertiseCheck p k' force x).adv.find k = some b ∧ b.Waits e.now := by
  by_cases hk : k = k'
  · subst hk
    rcases e.flexAdvertiseCheck_cases p k force x with h | ⟨b, h, hkey, -, hent⟩ <;> rw [h]
    · exact ⟨a, hfind, ha⟩
    · rw [hfind] at hent
      refine ⟨b, hkey ▸ AdvertisedState.find_put_self, ?_⟩
      exact waits_checkEntry (i := e.checkInput p k) hown checkInput_penalty ha hloop hent
  · exact ⟨a, (find_check_of_ne hk).trans hfind, ha⟩

theorem find_checks_of_notMem {keys : List Key} {force : Bool} (hk : k ∉ keys) :
    (keys.foldl (fun x k => e.flexAdvertiseCheck p k force x) x).adv.find k = x.adv.find k ∧
      (keys.foldl (fun x k => e.flexAdvertiseCheck p k force x) x).pcfQuiesced =
        x.pcfQuiesced := by
  induction keys generalizing x with
  | nil => exact ⟨rfl, rfl⟩
  | cons k' keys ih =>
      rw [List.mem_cons, not_or] at hk
      obtain ⟨hfind, hlatch⟩ := ih (x := e.flexAdvertiseCheck p k' force x) hk.2
      refine ⟨hfind.trans (find_check_of_ne hk.1), hlatch.trans ?_⟩
      rw [Env.flexAdvertiseCheck_frame]

theorem waits_checks {keys : List Key} {a : AdvRoute} (hown : (e.linkOpts p).ownOnly = false)
    (hfind : x.adv.find k = some a) (ha : a.Waits e.now) :
    ∃ b, (keys.foldl (fun x k => e.flexAdvertiseCheck p k true x) x).adv.find k = some b ∧
      b.Waits e.now := by
  induction keys generalizing x a with
  | nil => exact ⟨a, hfind, ha⟩
  | cons k' keys ih =>
      obtain ⟨b, hb, hwaits⟩ : ∃ b, (e.flexAdvertiseCheck p k' true x).adv.find k = some b ∧
          b.Waits e.now := waits_check hown hfind ha (.inl rfl)
      exact ih hb hwaits

/-- Everything the other sessions offer is walked. -/
theorem mem_walkKeys_of_offers (hcall : k.call.isEmpty = false) (hoffers : e.Offers p k) :
    k ∈ e.walkKeys p false := by
  obtain ⟨-, si, hmay, hoffer⟩ := hoffers
  simp only [maySource, Bool.and_eq_true, decide_eq_true_eq] at hmay
  obtain ⟨rtt, hfind, -⟩ := (offer_isSome_iff.mp hoffer).1
  obtain ⟨lr, hlr, -⟩ := Option.map_eq_some_iff.mp hfind
  refine List.mem_flatMap.mpr ⟨si, mem_slots si, ?_⟩
  rw [if_neg (by simp [hmay.1.1, hmay.1.2])]
  refine List.mem_map.mpr ⟨lr, List.mem_filter.mpr ⟨KeyedTable.mem_of_lookup hlr, ?_⟩,
    KeyedTable.lookup_key hlr⟩
  rw [show lr.key = k from KeyedTable.lookup_key hlr]
  simp [hcall]

end Env

namespace View

variable {p : Slot} {v u w : View} {k : Key} {act : PeerAct}

/-- The destination may be told to the peer: it is named, not the node's own, offered, no gate is
shut for it, a withdrawal of it is not recent, and the advertised table has an entry for it or room
when the walk comes to it. -/
structure Answerable (p : Slot) (v : View) (k : Key) : Prop where
  named : k.call.isEmpty = false
  notOurs : v.env.cfg.recordIsOurs k = false
  offered : (v.env.expectedRtt p k).rtt < rttInfinity
  notOwnOnly : (v.env.linkOpts p).ownOnly = false
  notSplit : (v.env.learnedHas p k && !v.env.destIsOurPeer k) = false
  inScope : v.env.cfg.advertiseDirectOnly = true → (v.env.expectedRtt p k).direct = true
  notHeld : ∀ a, v.peer.adv.find k = some a → rttInfinity ≤ a.lastRtt →
    poisonHolddown ≤ v.env.now - a.lastAt
  room : ∀ before after, v.env.walkKeys p false = before ++ k :: after → k ∉ before →
    (before.foldl (fun x k => v.env.flexAdvertiseCheck p k true x) v.peer).adv.advs.length <
      maxAdvertised ∨ (v.peer.adv.find k).isSome = true

/-- There is room for every destination when the walk does not fill the table. -/
theorem room_of_walk (h : (v.answer p).peer.adv.advs.length < maxAdvertised)
    {before after : List Key} (hkeys : v.env.walkKeys p false = before ++ k :: after) :
    (before.foldl (fun x k => v.env.flexAdvertiseCheck p k true x) v.peer).adv.advs.length <
      maxAdvertised := by
  rw [answer, Env.flexAdvertiseWalkForPeer_fst, hkeys, List.foldl_append] at h
  exact Env.length_checks.trans_lt h

/-- The walk queues every destination that may be told. -/
theorem waits_walk (htransit : v.env.cfg.transit = true)
    (hup : (v.env.sessions p).active = true) (hlink : (v.env.sessions p).link.isSome = true)
    (hreleased : v.peer.pcfQuiesced = false) (hk : v.Answerable p k) :
    ∃ a, (v.answer p).peer.adv.find k = some a ∧ a.Waits v.env.now := by
  have hoffers := Env.expectedRtt_lt_iff.mp hk.offered
  obtain ⟨before, after, hkeys, hfirst⟩ :=
    List.eq_append_cons_of_mem (Env.mem_walkKeys_of_offers hk.named hoffers)
  obtain ⟨hfind, hlatch⟩ :=
    @Env.find_checks_of_notMem v.env p k v.peer before true hfirst
  have hroom := hk.room before after hkeys hfirst
  rw [answer, Env.flexAdvertiseWalkForPeer_fst, hkeys, List.foldl_append, List.foldl_cons]
  dsimp only
  generalize before.foldl _ v.peer = x at hfind hlatch hroom ⊢
  have hgate : v.env.checkGate p k x = true := by
    simp [Env.checkGate, Config.recordsAllowed, htransit, hup, hlink, hlatch, hreleased, hk.named,
      hk.notOurs]
  have hgated : (v.env.checkInput p k).gated = false := by
    simp only [CheckInput.gated, Env.checkInput, hk.notOwnOnly, hk.notSplit, Bool.false_or,
      Bool.and_eq_false_iff, Bool.not_eq_false']
    cases hscope : v.env.cfg.advertiseDirectOnly
    · exact .inl rfl
    · exact .inr (hk.inScope hscope)
  have hsrc : (v.env.checkInput p k).expected.src.isSome = true :=
    Env.expectedRtt_src_isSome.mpr hoffers
  have hfits : decide (x.adv.advs.length < maxAdvertised) = true ∨
      (x.adv.find k).isSome = true := by
    rw [hfind]
    exact hroom.imp_left decide_eq_true
  obtain ⟨b, hb, hwaits⟩ := waits_checkEntry_forced (k := k) hgated hsrc
    Env.checkInput_penalty (fun a ha => hk.notHeld a (hfind ▸ ha)) hfits
  rw [← Env.find_check_self hgate] at hb
  exact Env.waits_checks hk.notOwnOnly hb hwaits

/-! ## While the answer is open -/

/-- The `'3+'` has been walked, the tables may have moved, and the `'3-'` is owed. -/
def asked (p : Slot) (v : View) (e : Env) : View :=
  ((v.answer p).apply p (.tables e [])).apply p .owe

/-- Nothing wakes the peer, its session stays up, and its link options stay. -/
def Undisturbed (p : Slot) (v : View) (a : PeerAct) : Prop :=
  v.Allowed True False p a ∧ ((v.apply p a).env.sessions p).active = true ∧
    (v.apply p a).env.linkOpts p = v.env.linkOpts p

/-- A destination is announced in one of the frames. -/
def Announced (k : Key) (frames : List WireEvent) : Prop :=
  ∃ records cost, (k, cost) ∈ records ∧ .frame pidCE (recordsFrame records) ∈ frames

/-- A pass of the drain had something to do. -/
def Busy (v : View) (frames : ℕ) : Prop := v.peer.adv.queued = true ∨ 0 < frames

/-- What holds of a peer from its `'3+'` on. -/
structure Attended (p : Slot) (v : View) : Prop where
  up : (v.env.sessions p).active = true
  transit : v.env.cfg.transit = true
  answered : v.Answered p
  sound : v.peer.adv.Sound

theorem attended_apply (hv : v.Attended p) (ha : v.Undisturbed p act) :
    (v.apply p act).Attended p where
  up := ha.2.1
  transit := by rw [cfg_apply ha.1.1, hv.transit]
  answered := answered_apply hv.answered ha.1
  sound := sound_apply hv.sound act

/-- Acts that nothing but a wake-up or the end of the session takes. -/
theorem not_reset (hv : v.Attended p) (ha : v.Undisturbed p act) :
    act ≠ .owe ∧ act ≠ .clear ∧ act ≠ .release := by
  obtain ⟨⟨-, hgate⟩, hup, -⟩ := ha
  replace hgate := hgate trivial
  refine ⟨?_, ?_, ?_⟩ <;> rintro rfl
  · exact hgate.1
  all_goals
    have hdown := hgate.resolve_left id
    rw [hv.up] at hdown
    cases hdown

/-- Time does not run backwards. -/
theorem now_le_apply (hl : v.Legal p act) : v.env.now ≤ (v.apply p act).env.now := by
  cases act with
  | tables e due => exact hl.2.1
  | rename e => exact hl.1.now.ge
  | _ => exact le_rfl

/-- The end of a drain on an open answer: a busy pass and the first idle one note it, and the answer
is closed by a pass that finds nothing to do two refill periods later. -/
theorem drainEob_cases (e : Env) (isPcf : Bool) (frames : ℕ) {x : Peer}
    (hopen : x.adv.eobPending = true) :
    ((x.adv.queued = true ∨ 0 < frames) ∧
      e.drainEob p isPcf frames x = { x with adv := { x.adv with eobEmptySince := 0 } }) ∨
    (¬ (x.adv.queued = true ∨ 0 < frames) ∧ x.adv.eobEmptySince = 0 ∧
      e.drainEob p isPcf frames x = { x with adv := { x.adv with eobEmptySince := e.now } }) ∨
    (¬ (x.adv.queued = true ∨ 0 < frames) ∧ x.adv.eobEmptySince ≠ 0 ∧
      bucketRefill isPcf * eobQuietRefills ≤ e.now - x.adv.eobEmptySince ∧
      (e.drainEob p isPcf frames x).adv.eobPending = false ∧
      (e.drainEob p isPcf frames x).wire = (e.flexSendFrame p pidCE releaseToken x).wire) ∨
    (¬ (x.adv.queued = true ∨ 0 < frames) ∧ e.drainEob p isPcf frames x = x) := by
  unfold Env.drainEob
  rw [if_neg (by simp [hopen])]
  by_cases hbusy : x.adv.queued = true ∨ 0 < frames
  · rw [if_pos (by simpa using hbusy)]
    exact .inl ⟨hbusy, rfl⟩
  · rw [if_neg (by simpa using hbusy)]
    by_cases hfirst : x.adv.eobEmptySince = 0
    · rw [if_pos hfirst]
      exact .inr (.inl ⟨hbusy, hfirst, rfl⟩)
    · rw [if_neg hfirst]
      by_cases hquiet : bucketRefill isPcf * eobQuietRefills ≤ e.now - x.adv.eobEmptySince
      · rw [if_pos hquiet]
        refine .inr (.inr (.inl ⟨hbusy, hfirst, hquiet, ?_⟩))
        dsimp only
        split_ifs <;> exact ⟨rfl, rfl⟩
      · rw [if_neg hquiet]
        exact .inr (.inr (.inr ⟨hbusy, rfl⟩))

/-- Nothing but the end of a drain touches an open answer. -/
theorem eob_apply (hv : v.Attended p) (ha : v.Undisturbed p act)
    (hne : ∀ frames, act ≠ .close frames) :
    (v.apply p act).peer.adv.eobPending = v.peer.adv.eobPending ∧
      (v.apply p act).peer.adv.eobEmptySince = v.peer.adv.eobEmptySince := by
  obtain ⟨howe, hclear, hrelease⟩ := not_reset hv ha
  cases act with
  | check k force =>
      rw [apply, Env.flexAdvertiseCheck_frame]
      exact ⟨rfl, rfl⟩
  | refill => exact refill_eob _ _ _
  | emit => exact emitFrame_eob _ _ _ _
  | close frames => exact absurd rfl (hne frames)
  | owe => exact absurd rfl howe
  | clear => exact absurd rfl hclear
  | release => exact absurd rfl hrelease
  | tables | rename | send => exact ⟨rfl, rfl⟩

/-- An answer that is open was open before. -/
theorem open_of_apply (hv : v.Attended p) (ha : v.Undisturbed p act)
    (hopen : (v.apply p act).peer.adv.eobPending = true) : v.peer.adv.eobPending = true := by
  by_cases hclose : ∃ frames, act = .close frames
  · obtain ⟨frames, rfl⟩ := hclose
    by_contra hshut
    rw [apply, Env.drainEob, if_pos (by simpa using hshut)] at hopen
    exact hshut hopen
  · exact (eob_apply hv ha fun frames h => hclose ⟨frames, h⟩).1 ▸ hopen

/-- No record frame is an end-of-batch. -/
theorem recordsFrame_ne_releaseToken {picks : List AdvRoute} (hne : picks ≠ []) :
    recordsFrame (pickRecords picks) ≠ releaseToken := fun h => by
  have hrecords : pickRecords picks ≠ [] := by simpa [pickRecords] using hne
  have hlen := length_recordsFrame_ge hrecords
  rw [h] at hlen
  simp [releaseToken] at hlen

/-- While the answer is open, what an act queues is no end-of-batch. -/
theorem open_wire (hv : v.Attended p) (ha : v.Undisturbed p act)
    (hopen : (v.apply p act).peer.adv.eobPending = true) :
    ∃ gained, (v.apply p act).peer.wire = v.peer.wire ++ gained ∧
      .frame pidCE releaseToken ∉ gained := by
  have hwas := open_of_apply hv ha hopen
  obtain ⟨howe, hclear, hrelease⟩ := not_reset hv ha
  have hnone : (v.apply p act).peer.wire = v.peer.wire → ∃ gained,
      (v.apply p act).peer.wire = v.peer.wire ++ gained ∧ .frame pidCE releaseToken ∉ gained :=
    fun h => ⟨[], by simpa using h, by simp⟩
  have hsend : ∀ pid data (x : Peer), x.wire = v.peer.wire →
      ((pid = pidCE ∧ data = releaseToken) → False) → ∃ gained,
        (v.env.flexSendFrame p pid data x).wire = v.peer.wire ++ gained ∧
          .frame pidCE releaseToken ∉ gained := by
    intro pid data x hx htoken
    unfold Env.flexSendFrame
    dsimp only
    rw [hx]
    split_ifs
    · refine ⟨[.frame pid data], rfl, fun hmem => htoken ?_⟩
      rw [List.mem_singleton, WireEvent.frame.injEq] at hmem
      exact ⟨hmem.1.symm, hmem.2.symm⟩
    · exact ⟨[], by simp, by simp⟩
  cases act with
  | emit =>
      rcases v.env.emitFrame_cases p (v.isPcf p) hv.sound with
        ⟨-, heq⟩ | ⟨picks, st, hne, -, -, heq⟩
      · exact hnone (by simp only [apply, heq])
      · simp only [apply, heq]
        exact hsend _ _ _ rfl fun h => recordsFrame_ne_releaseToken hne h.2
  | close frames =>
      refine hnone ?_
      rcases drainEob_cases (p := p) v.env (v.isPcf p) frames hwas with
        ⟨-, h⟩ | ⟨-, -, h⟩ | ⟨-, -, -, h, -⟩ | ⟨-, h⟩
      · rw [apply, h]
      · rw [apply, h]
      · rw [apply, h] at hopen
        cases hopen
      · rw [apply, h]
  | send pid data =>
      refine hsend pid data v.peer rfl fun htoken => ?_
      have hanswered := hv.answered hv.up (.inr ⟨hv.transit, hwas⟩)
      rw [Session.answered, Bool.and_eq_true] at hanswered
      rcases (ha.1.2 trivial htoken.1).2 htoken.2 with hsent | htransit | heob
      · rw [hanswered.1] at hsent
        cases hsent
      · rw [hv.transit] at htransit
        cases htransit
      · rw [hwas] at heob
        cases heob
  | check k force => exact hnone (by rw [apply, Env.flexAdvertiseCheck_frame])
  | owe => exact absurd rfl howe
  | clear => exact absurd rfl hclear
  | release => exact absurd rfl hrelease
  | tables | rename | refill => exact hnone rfl

/-- What waits goes on waiting, or goes out in a frame. -/
theorem waits_apply (hv : v.Attended p) (ha : v.Undisturbed p act)
    (hown : (v.env.linkOpts p).ownOnly = false)
    {a : AdvRoute} (hfind : v.peer.adv.find k = some a) (hwaits : a.Waits v.env.now)
    (hloop : a.looping = false) :
    (∃ b, (v.apply p act).peer.adv.find k = some b ∧ b.Waits (v.apply p act).env.now) ∨
      ((∀ i, v.env.cfg.getBuff p i = true) → ∃ gained,
        (v.apply p act).peer.wire = v.peer.wire ++ gained ∧ Announced k gained) := by
  obtain ⟨howe, hclear, hrelease⟩ := not_reset hv ha
  cases act with
  | tables e due => exact .inl ⟨a, hfind, hwaits.later ha.1.1.2.1⟩
  | rename e => exact .inl ⟨a, hfind, hwaits.later ha.1.1.1.now.ge⟩
  | check k' force => exact .inl (Env.waits_check hown hfind hwaits (.inr hloop))
  | refill => exact .inl ⟨a, AdvertisedState.find_refill.trans hfind, hwaits⟩
  | close frames =>
      refine .inl ⟨a, ?_, hwaits⟩
      rw [apply, AdvertisedState.find, drainEob_advs]
      exact hfind
  | emit =>
      rcases v.env.emitFrame_cases p (v.isPcf p) hv.sound with
        ⟨-, heq⟩ | ⟨picks, st, -, -, hpacked, heq⟩
      · exact .inl ⟨a, by simpa only [apply, heq] using hfind, hwaits⟩
      · have hentry := hpacked.find k
        rw [hfind, Option.map_some] at hentry
        by_cases hpick : a ∈ picks
        · refine .inr fun hbuf => ⟨[.frame pidCE (recordsFrame (pickRecords picks))], ?_, ?_⟩
          · simp only [apply, heq, Env.flexSendFrame, hbuf, if_true]
          · refine ⟨_, a.pendingRtt, List.mem_map.mpr ⟨a, hpick, ?_⟩, List.mem_singleton_self _⟩
            rw [AdvertisedState.find_key hfind]
        · rw [if_neg hpick] at hentry
          refine .inl ⟨a, ?_, hwaits⟩
          simp only [apply, heq]
          exact hentry
  | owe => exact absurd rfl howe
  | clear => exact absurd rfl hclear
  | release => exact absurd rfl hrelease
  | send pid data => exact .inl ⟨a, hfind, hwaits⟩

/-! ## Runs -/

/-- A run from a `'3+'` on in which nothing disturbs the session. -/
abbrev AnswerRun (p : Slot) : View → List PeerAct → View → Prop :=
  GuardedRun (View.apply p) (Undisturbed p)

theorem attended_run {rest : List PeerAct} (hv : v.Attended p) (hrun : AnswerRun p v rest u) :
    u.Attended p ∧ u.env.cfg = v.env.cfg ∧ u.env.linkOpts p = v.env.linkOpts p := by
  refine hrun.invariant
    (I := fun w => w.Attended p ∧ w.env.cfg = v.env.cfg ∧ w.env.linkOpts p = v.env.linkOpts p)
    (fun w a hw ha => ?_) ⟨hv, rfl, rfl⟩
  exact ⟨attended_apply hw.1 ha, (cfg_apply ha.1.1).trans hw.2.1, ha.2.2.trans hw.2.2⟩

/-- Time does not run backwards between two states of a run. -/
theorem now_le_run {rest fs : List PeerAct} (hrun : AnswerRun p v rest u) (hfs : fs <+: rest) :
    (fs.foldl (View.apply p) v).env.now ≤ u.env.now := by
  induction hrun with
  | start =>
      rw [List.prefix_nil.mp hfs]
      exact le_rfl
  | step a hprev ha ih =>
      rcases List.prefix_concat_iff.mp hfs with rfl | hfs
      · rw [List.foldl_append, ← hprev.eq_foldl]
        exact le_rfl
      · exact (ih hfs).trans (now_le_apply ha.1.1)

/-- While the answer is open no end-of-batch is queued, and a destination that waits is still
waiting or was announced. -/
theorem open_run {rest : List PeerAct} (hv : v.Attended p) (hrun : AnswerRun p v rest u)
    (hopen : u.peer.adv.eobPending = true) :
    ∃ gained, u.peer.wire = v.peer.wire ++ gained ∧ .frame pidCE releaseToken ∉ gained ∧
      ((∀ i, v.env.cfg.getBuff p i = true) → (v.env.linkOpts p).ownOnly = false →
        ∀ k a, v.peer.adv.find k = some a → a.Waits v.env.now →
          (∀ fs, fs <+: rest → ∀ b, (fs.foldl (View.apply p) v).peer.adv.find k = some b →
            b.looping = false) →
          (∃ b, u.peer.adv.find k = some b ∧ b.Waits u.env.now) ∨ Announced k gained) := by
  induction hrun with
  | start => exact ⟨[], by simp, by simp, fun _ _ k a hfind ha _ => .inl ⟨a, hfind, ha⟩⟩
  | @step es t act hprev ha ih =>
      obtain ⟨ht, hcfg, hopts⟩ := attended_run hv hprev
      obtain ⟨gained, hwire, htoken, hwaits⟩ := ih (open_of_apply ht ha hopen)
      obtain ⟨more, hmore, htoken'⟩ := open_wire ht ha hopen
      refine ⟨gained ++ more, by rw [hmore, hwire, List.append_assoc], ?_, ?_⟩
      · rw [List.mem_append, not_or]
        exact ⟨htoken, htoken'⟩
      · intro hbuf hown k a hfind ha' hloop
        have hann : ∀ frames, Announced k frames → frames ⊆ gained ++ more →
            Announced k (gained ++ more) := fun frames h hsub => by
          obtain ⟨records, cost, hk, hframe⟩ := h
          exact ⟨records, cost, hk, hsub hframe⟩
        rcases hwaits hbuf hown k a hfind ha' fun fs hfs =>
          hloop fs (hfs.trans (List.prefix_append _ _))
          with ⟨b, hb, hbw⟩ | hdone
        · have hb' := hloop es (List.prefix_append _ _) b (by rw [← hprev.eq_foldl]; exact hb)
          rcases waits_apply ht ha (by rw [hopts]; exact hown) hb hbw hb' with h | h
          · exact .inl h
          · obtain ⟨more', hmore', hann'⟩ := h (by rw [hcfg]; exact hbuf)
            obtain rfl : more' = more := List.append_cancel_left (hmore'.symm.trans hmore)
            exact .inr (hann _ hann' (List.subset_append_right _ _))
        · exact .inr (hann _ hdone (List.subset_append_left _ _))

/-- While the answer is open, the last idle stretch began after every busy pass. -/
theorem busy_run {rest fs : List PeerAct} {frames : ℕ} (hv : v.Attended p)
    (hrun : AnswerRun p v rest u) (hopen : u.peer.adv.eobPending = true)
    (hfs : fs ++ [.close frames] <+: rest) (hbusy : (fs.foldl (View.apply p) v).Busy frames) :
    u.peer.adv.eobEmptySince = 0 ∨
      (fs.foldl (View.apply p) v).env.now ≤ u.peer.adv.eobEmptySince := by
  induction hrun with
  | start => simp at hfs
  | @step es t act hprev ha ih =>
      obtain ⟨ht, -⟩ := attended_run hv hprev
      have hwas := open_of_apply ht ha hopen
      rcases List.prefix_concat_iff.mp hfs with heq | hfs'
      · -- this is the busy pass itself
        obtain ⟨rfl, hact⟩ := List.append_inj' heq rfl
        cases hact
        rw [← hprev.eq_foldl] at hbusy ⊢
        rcases drainEob_cases (p := p) t.env (t.isPcf p) frames hwas with
          ⟨-, h⟩ | ⟨hidle, -⟩ | ⟨hidle, -⟩ | ⟨hidle, -⟩
        · rw [apply, h]
          exact .inl rfl
        all_goals exact absurd hbusy hidle
      · have hprevle := now_le_run hprev ((List.prefix_append fs [.close frames]).trans hfs')
        by_cases hclose : ∃ f, act = .close f
        · obtain ⟨f, rfl⟩ := hclose
          rcases drainEob_cases (p := p) t.env (t.isPcf p) f hwas with
            ⟨-, h⟩ | ⟨-, -, h⟩ | ⟨-, -, -, h, -⟩ | ⟨-, h⟩
          · rw [apply, h]
            exact .inl rfl
          · rw [apply, h]
            exact .inr hprevle
          · rw [apply, h] at hopen
            cases hopen
          · rw [apply, h]
            exact ih hwas hfs'
        · rw [(eob_apply ht ha fun f h => hclose ⟨f, h⟩).2]
          exact ih hwas hfs'

/-- Once closed, an answer stays closed, and the end of a drain does nothing. -/
theorem closed_run {more : List PeerAct} (hv : v.Attended p)
    (hclosed : v.peer.adv.eobPending = false) (hrun : AnswerRun p v more u) (frames : ℕ) :
    (u.apply p (.close frames)).peer = u.peer := by
  have hstays : u.peer.adv.eobPending = false := by
    refine (hrun.invariant (I := fun w => w.Attended p ∧ w.peer.adv.eobPending = false)
      (fun w a hw ha => ⟨attended_apply hw.1 ha, ?_⟩) ⟨hv, hclosed⟩).2
    by_contra hopen
    rw [open_of_apply hw.1 ha (by simpa using hopen)] at hw
    cases hw.2
  rw [apply, Env.drainEob, if_pos (by simp [hstays])]

/-- In every run: after the walk that answers a `'3+'`, as long as nothing disturbs the session, no
end-of-batch is queued before the one that closes the answer; that one is sent by the drain, once,
with nothing queued, and at least two refill periods after the last pass that had something to do;
and every destination that could be told at the `'3+'`, and whose detector does not latch, is
announced in a frame between the walk and it. -/
theorem answer_closed {e e' : Env} {acts rest : List PeerAct}
    (hreach : GatedRun True True p (start e) acts v) (htransit : e.cfg.transit = true)
    (hup : (v.env.sessions p).active = true) (hlink : (v.env.sessions p).link.isSome = true)
    (hreleased : v.peer.pcfQuiesced = false)
    (hmove : (v.answer p).Allowed True True p (.tables e' []))
    (hup' : (e'.sessions p).active = true) (hopts : e'.linkOpts p = v.env.linkOpts p)
    (hestablished : (e'.sessions p).answered = true)
    (hrun : AnswerRun p (v.asked p e') rest u) (hopen : u.peer.adv.eobPending = true)
    (ha : u.Undisturbed p act) (hcloses : (u.apply p act).peer.adv.eobPending = false) :
    act = .close 0 ∧ u.peer.adv.queued = false ∧
    (u.apply p act).peer.wire = (u.env.flexSendFrame p pidCE releaseToken u.peer).wire ∧
    (∀ fs frames, fs ++ [.close frames] <+: rest →
      (fs.foldl (View.apply p) (v.asked p e')).Busy frames →
        bucketRefill (u.isPcf p) * eobQuietRefills ≤
          u.env.now - (fs.foldl (View.apply p) (v.asked p e')).env.now) ∧
    (∃ gained, u.peer.wire = (v.asked p e').peer.wire ++ gained ∧
      .frame pidCE releaseToken ∉ gained ∧
      ((∀ i, e.cfg.getBuff p i = true) → ∀ k, v.Answerable p k →
        (∀ fs, fs <+: rest →
          ∀ b, (fs.foldl (View.apply p) (v.asked p e')).peer.adv.find k = some b →
            b.looping = false) →
        Announced k gained)) ∧
    ∀ more w, AnswerRun p (u.apply p act) more w →
      ∀ frames, (w.apply p (.close frames)).peer = w.peer := by
  have hcfg : v.env.cfg = e.cfg :=
    hreach.invariant (I := fun w => w.env.cfg = e.cfg)
      (fun w a hw h => (cfg_apply h.1).trans hw) rfl
  have hsound : v.peer.adv.Sound :=
    hreach.invariant (I := fun w => w.peer.adv.Sound) (fun w a hw _ => sound_apply hw a) .empty
  have hcfg' : (v.asked p e').env.cfg = e.cfg := hmove.1.1.trans hcfg
  have hattended : (v.asked p e').Attended p := by
    refine ⟨hup', hcfg' ▸ htransit, fun _ _ => hestablished, ?_⟩
    have hwalked : (v.answer p).peer.adv.Sound := by
      rw [answer, Env.flexAdvertiseWalkForPeer_fst]
      exact Sweep.foldl_keeps (P := fun x : Peer => x.adv.Sound)
        (fun _ _ => Env.sound_check) _ hsound
    exact sound_apply (sound_apply hwalked (.tables e' [])) .owe
  obtain ⟨hu, hucfg, -⟩ := attended_run hattended hrun
  -- only the end of a drain closes an answer
  obtain ⟨frames, rfl⟩ : ∃ frames, act = .close frames := by
    by_contra hne
    rw [(eob_apply hu ha fun frames h => hne ⟨frames, h⟩).1, hopen] at hcloses
    cases hcloses
  obtain ⟨hidle, hsince, hquiet, hwire⟩ : ¬ (u.peer.adv.queued = true ∨ 0 < frames) ∧
      u.peer.adv.eobEmptySince ≠ 0 ∧
      bucketRefill (u.isPcf p) * eobQuietRefills ≤ u.env.now - u.peer.adv.eobEmptySince ∧
      (u.apply p (.close frames)).peer.wire =
        (u.env.flexSendFrame p pidCE releaseToken u.peer).wire := by
    rcases drainEob_cases (p := p) u.env (u.isPcf p) frames hopen with
      ⟨-, h⟩ | ⟨-, -, h⟩ | ⟨hidle, hsince, hquiet, -, h⟩ | ⟨-, h⟩
    · rw [apply, h, hopen] at hcloses
      cases hcloses
    · rw [apply, h, hopen] at hcloses
      cases hcloses
    · exact ⟨hidle, hsince, hquiet, h⟩
    · rw [apply, h, hopen] at hcloses
      cases hcloses
  rw [not_or, Bool.not_eq_true] at hidle
  have hframes : frames = 0 := by omega
  subst hframes
  refine ⟨rfl, hidle.1, hwire, fun fs frames hfs hbusy => ?_, ?_, fun more w hmore frames =>
    closed_run (attended_apply hu ha) hcloses hmore frames⟩
  · have hlate := (busy_run hattended hrun hopen hfs hbusy).resolve_left hsince
    omega
  · obtain ⟨gained, hgained, htoken, hwaits⟩ := open_run hattended hrun hopen
    refine ⟨gained, hgained, htoken, fun hbuf k hk hloop => ?_⟩
    obtain ⟨a, hfind, hawaits⟩ := waits_walk (hcfg ▸ htransit) hup hlink hreleased hk
    have hown : ((v.asked p e').env.linkOpts p).ownOnly = false :=
      (congrArg LinkOpts.ownOnly hopts).trans hk.notOwnOnly
    refine (hwaits (by rw [hcfg']; exact hbuf) hown k a hfind (hawaits.later hmove.1.2.1)
      hloop).resolve_left ?_
    rintro ⟨b, hb, hbw⟩
    have hidle' := List.any_eq_false.mp hidle.1 b (AdvertisedState.mem_of_find hb)
    exact hidle' hbw.pending

end View

/-! ## The `'3+'` of the node -/

namespace Node

variable {n : Node} {s : Slot}

/-- What a peer teaches us is not told to it. -/
theorem flexLearnedAdd_peers_self (n : Node) (s : Slot) (r : Record) :
    (n.flexLearnedAdd s r).peers s = n.peers s := by
  have htrigger : ∀ (m : Node) k, (m.triggerPeers s k).peers s = m.peers s := fun m k => by
    rw [show m.triggerPeers s k = m.triggerPeersAll s [k] from rfl,
      (triggerPeersAll_peers m s [k]).2 s, if_pos (.inl rfl)]
  unfold flexLearnedAdd
  dsimp only
  by_cases hempty : r.key.call.isEmpty = true
  · rw [if_pos hempty]
  rw [if_neg hempty]
  cases (n.learned s).find r.key with
  | some lr =>
      dsimp only
      rw [setLearned_peers]
      split_ifs
      · rfl
      · rw [htrigger]
        rfl
  | none =>
      dsimp only
      split_ifs
      · rfl
      · rw [htrigger]
        rfl

theorem flexDtableMerge_peers_self (n : Node) (r : Record) (s : Slot) :
    (n.flexDtableMerge r s).peers s = n.peers s := by
  obtain ⟨dests, h | ⟨dests', h⟩⟩ := n.flexDtableMerge_cases r s <;> rw [h]
  exact flexLearnedAdd_peers_self ({ n with dests := dests } : Node) s r

theorem flexNotePeerEstablished_peers_self (n : Node) (s : Slot) :
    (n.flexNotePeerEstablished s).peers s = n.peers s := by
  have hneighbour : ∀ m : Node, (m.flexAddNeighbourEntry s).peers s = m.peers s := fun m => by
    unfold flexAddNeighbourEntry
    split_ifs
    · rfl
    · rfl
    · dsimp only
      split_ifs
      · unfold flagDirect
        split <;> exact flexDtableMerge_peers_self _ _ s
      · exact flexDtableMerge_peers_self _ _ s
  unfold flexNotePeerEstablished
  dsimp only
  split_ifs
  · rfl
  · split
    · rfl
    · split_ifs
      · rfl
      · exact hneighbour _

/-- The own frame alone queues no end-of-batch. -/
theorem flexSendOwnRoutes_deferred (e : Env) (p : Slot) (x : Peer) :
    (e.flexSendOwnRoutes p true x).pcfQuiesced = x.pcfQuiesced ∧
      ∃ gained, (e.flexSendOwnRoutes p true x).wire = x.wire ++ gained ∧
        .frame pidCE releaseToken ∉ gained := by
  unfold Env.flexSendOwnRoutes
  cases hframe : e.cfg.ownFrame with
  | none => exact ⟨rfl, [], by simp, by simp⟩
  | some frame =>
      dsimp only
      rw [if_pos rfl]
      refine ⟨rfl, ?_⟩
      unfold Env.flexSendFrame
      dsimp only
      split_ifs
      · refine ⟨[.frame pidCE frame], rfl, fun hmem => ?_⟩
        rw [List.mem_singleton, WireEvent.frame.injEq] at hmem
        exact Env.ownFrame_ne_releaseToken hframe hmem.2.symm
      · exact ⟨[], by simp, by simp⟩

/-- The node after the first steps of a `'3+'`: the latch is off, and the own frame is out. -/
def statusPosOwn (n : Node) (s : Slot) : Node :=
  let n := n.flexNotePeerEstablished s
  let n :=
    if (n.peers s).pcfQuiesced then
      n.setPeer s { n.peers s with pcfQuiesced := false, quiescedSince := 0 }
    else n
  n.flexSendOwnRoutes s n.cfg.transit

/-- A peer that has the own frame, without an end-of-batch, and waits for the walk. -/
structure OwnFrameSent (n m : Node) (s : Slot) : Prop where
  up : (m.sessions s).active = true
  linked : (m.sessions s).link.isSome = true
  established : (m.sessions s).flexIsEstablished = true
  transit : m.cfg.transit = true
  released : (m.peers s).pcfQuiesced = false
  wire : ∃ gained, (m.peers s).wire = (n.peers s).wire ++ gained ∧
    .frame pidCE releaseToken ∉ gained
  run : ∃ before, GatedRun True True s (n.view s) before (m.view s)

theorem ownFrameSent_statusPosOwn (hn : n.Linked) (hup : (n.sessions s).active = true)
    (hconn : ∃ l, (n.sessions s).link = some l ∧ (n.links l).flexL2Connected = true)
    (htransit : n.cfg.transit = true) : n.OwnFrameSent (n.statusPosOwn s) s := by
  unfold statusPosOwn
  extract_lets n₁ x n₂
  have hup₁ : (n₁.sessions s).active = true := (flexNotePeerEstablished_active n s).trans hup
  have hpeer₁ : n₁.peers s = n.peers s := flexNotePeerEstablished_peers_self n s
  obtain ⟨hlinked₁, hrun₁⟩ : n₁.Linked ∧ ∀ p, ∃ acts,
      GatedRun True True p (n.view p) acts (n₁.view p) :=
    advances_flexNotePeerEstablished (R := fun _ => True) n s hn
  obtain ⟨as, has⟩ := hrun₁ s
  have hcfg₁ : n₁.cfg = n.cfg :=
    has.invariant (I := fun w => w.env.cfg = n.cfg)
      (fun w a hw h => (View.cfg_apply h.1).trans hw) rfl
  have henv₂ : n₂.toEnv = n₁.toEnv := by
    simp only [n₂]
    split_ifs <;> rfl
  have hwire₂ : (n₂.peers s).wire = (n.peers s).wire := by
    simp only [n₂]
    split_ifs <;> simp [x, hpeer₁]
  have hreleased : (n₂.peers s).pcfQuiesced = false := by
    simp only [n₂]
    split_ifs with hlatch
    · simp [x]
    · simpa using hlatch
  have hdefer : n₂.cfg.transit = true := by
    rw [show n₂.cfg = n₁.cfg from congrArg Env.cfg henv₂, hcfg₁]
    exact htransit
  -- the own frame goes out without an end-of-batch
  have hown : (n₂.flexSendOwnRoutes s n₂.cfg.transit).peers s =
      n₂.toEnv.flexSendOwnRoutes s true (n₂.peers s) := by
    simp [flexSendOwnRoutes, hdefer]
  obtain ⟨hlatch, gained, hgained, htoken⟩ :=
    flexSendOwnRoutes_deferred n₂.toEnv s (n₂.peers s)
  rw [← hown] at hlatch hgained
  have hrelease : n₁.Advances True (fun _ => True) n₂ :=
    .ite (advances_release n₁ s fun _ => .inl trivial) (.refl n₁)
  have hsend : n₂.Advances True (fun _ => True) (n₂.flexSendOwnRoutes s n₂.cfg.transit) := by
    refine advances_ownRoutes n₂ s _ (fun _ => ⟨?_, .inr ?_⟩) fun _ hnow => .inr (.inl hnow)
    · rw [henv₂]
      exact hup₁
    · simp [Config.recordsAllowed, hreleased]
  obtain ⟨bs, hbs⟩ := ((hrelease.trans hsend) hlinked₁).2 s
  have hsession : (n₂.flexSendOwnRoutes s n₂.cfg.transit).sessions s = n₁.sessions s :=
    congrArg (fun e : Env => e.sessions s) henv₂
  refine ⟨?_, ?_, ?_, hdefer, hlatch.trans hreleased, ⟨gained, ?_, htoken⟩, as ++ bs,
    has.append hbs⟩
  · rw [hsession]
    exact hup₁
  · rw [hsession]
    exact hlinked₁ s hup₁
  · rw [hsession]
    exact flexNotePeerEstablished_established n hconn
  · rw [hgained, hwire₂]

/-- The rest of a `'3+'` is the walk and a drain. -/
theorem handleStatusPos_walked (h : (n.statusPosOwn s).cfg.transit = true) :
    n.handleStatusPos s = ((n.statusPosOwn s).walked s).flexAdvertiseDrain s := by
  have hrest : n.handleStatusPos s =
      let m := if (n.statusPosOwn s).cfg.transit then (n.statusPosOwn s).answerStatusPos s
        else n.statusPosOwn s
      m.setSession s { m.sessions s with sentRoutes := true } := rfl
  rw [hrest, if_pos h]
  exact answerStatusPos_eq (n.statusPosOwn s) s

/-- After the walk the session has our routes. -/
theorem walked_session (m : Node) (s : Slot) :
    (m.walked s).sessions s = { m.sessions s with sentRoutes := true } :=
  setSession_sessions_self ..

/-- The walk opens the answer, and the drain after it is the first of the answer's run. -/
theorem drain_answers {m : Node} (h : n.OwnFrameSent m s) : ∃ rest,
    View.AnswerRun s ((m.view s).asked s (m.walked s).toEnv) rest
      (((m.walked s).flexAdvertiseDrain s).view s) := by
  have hasked : (m.view s).asked s (m.walked s).toEnv = (m.walked s).view s := by
    simp [View.asked, View.answer, View.apply, view, walked, flexAdvertiseWalkForPeer]
  have hdrained : ((m.walked s).flexAdvertiseDrain s).view s = ⟨(m.walked s).toEnv,
      (m.walked s).toEnv.flexAdvertiseDrain s ((m.walked s).peers s), []⟩ := by
    simp [view, flexAdvertiseDrain]
  obtain ⟨rest, hrest⟩ := Env.drain_still (g := True) (R := False) (m.walked s).toEnv s
    ((m.walked s).peers s)
  have hrun := hrest.strengthen (I := fun w => w.env = (m.walked s).toEnv)
    (fun w a hw h => h.2.trans hw) rfl
  rw [hasked, hdrained]
  refine ⟨rest, hrun.mono ?_⟩
  rintro w a ⟨⟨hallowed, hstill⟩, hw⟩
  refine ⟨hallowed, ?_, ?_⟩
  · rw [hstill, hw, walked_session]
    exact h.up
  · rw [hstill]

/-- A `'3+'` heard on a connected row: the node's own frame without an end-of-batch, the walk, and
the first drain of the open answer. -/
theorem handleStatusPos_asked (hn : n.Linked) (hup : (n.sessions s).active = true)
    (hconn : ∃ l, (n.sessions s).link = some l ∧ (n.links l).flexL2Connected = true)
    (htransit : n.cfg.transit = true) :
    ∃ v e' before rest gained, GatedRun True True s (n.view s) before v ∧
      v.peer.wire = (n.peers s).wire ++ gained ∧ .frame pidCE releaseToken ∉ gained ∧
      (v.env.sessions s).active = true ∧ (v.env.sessions s).link.isSome = true ∧
      v.peer.pcfQuiesced = false ∧ (v.answer s).Allowed True True s (.tables e' []) ∧
      (e'.sessions s).active = true ∧ e'.linkOpts s = v.env.linkOpts s ∧
      (e'.sessions s).answered = true ∧
      View.AnswerRun s (v.asked s e') rest ((n.handleStatusPos s).view s) := by
  have hsent := ownFrameSent_statusPosOwn hn hup hconn htransit
  rw [handleStatusPos_walked hsent.transit]
  set m := n.statusPosOwn s
  obtain ⟨gained, hgained, htoken⟩ := hsent.wire
  obtain ⟨before, hbefore⟩ := hsent.run
  obtain ⟨rest, hrest⟩ := drain_answers hsent
  have halike : m.toEnv.Alike (m.walked s).toEnv :=
    alike_setSession (n := m) (s := s) ⟨rfl, rfl, rfl⟩
  refine ⟨m.view s, (m.walked s).toEnv, before, rest, gained, hbefore, hgained, htoken, hsent.up,
    hsent.linked, hsent.released, ⟨⟨rfl, le_rfl, ?_, fun _ hup => .inr ⟨?_, ?_⟩⟩, fun _ => ?_⟩,
    ?_, rfl, ?_, hrest⟩
  · exact halike.linked fun _ => hsent.linked
  · exact hsent.up
  · exact halike.keepsSources hsent.up
  · refine fun _ _ => ⟨hsent.up, fun hans => ?_⟩
    rw [walked_session]
    exact Session.answered_mono (x := m.sessions s) (fun _ => rfl) id hans
  · rw [walked_session]
    exact hsent.up
  · rw [walked_session, Session.answered, Bool.and_eq_true]
    exact ⟨rfl, hsent.established⟩

/-! ## One answer, and a second end-of-batch -/

open Bench

/-- The tables of the small node some seconds after `A` taught it `K` and `B` asked. -/
def askedFor (seconds : ℤ) : Env :=
  let e := ((node true).after [record 0 0x4B 10, View.statusPos 1]).toEnv
  { e with now := e.now + seconds }

/-- `B` when its next `'3+'` comes in. -/
def asking : View := (View.start (boot (config true) [] [] links 1000).toEnv).apply slotB
  (.tables (askedFor 0) [])

/-- The drains up to the one that closes the answer to `B`. -/
def drained : List PeerAct :=
  [.refill, .emit, .close 1, .tables (askedFor 20) [], .refill, .close 0, .tables (askedFor 60) [],
    .refill]

set_option maxRecDepth 10000 in
/-- `K` is announced before the `'3-'`. -/
theorem answer_closed_drained :
    ∃ gained, (drained.foldl (View.apply slotB) (asking.asked slotB (askedFor 0))).peer.wire =
        (asking.asked slotB (askedFor 0)).peer.wire ++ gained ∧
      .frame pidCE releaseToken ∉ gained ∧ View.Announced (dest 0x4B) gained := by
  have hheard : Chain Node.event Heard (boot (config true) [] [] links 1000)
      [.initSession 0 1, .initSession 1 1, record 0 0x4B 10, View.statusPos 1] := by decide +kernel
  have hcfg : (askedFor 0).cfg = config true :=
    (after_answered (config true) [] [] links 1000 slotB hheard).2
  have htransit : (askedFor 0).cfg.transit = true := by rw [hcfg]; rfl
  have hup : ((askedFor 0).sessions slotB).active = true := by decide +kernel
  have hlink : ((askedFor 0).sessions slotB).link.isSome = true := by decide +kernel
  have hmove : ∀ t t' x, t ≤ t' →
      View.Allowed True False slotB ⟨askedFor t, x, []⟩ (.tables (askedFor t') []) :=
    fun t t' x ht => ⟨⟨rfl, by simpa [askedFor] using ht, fun _ => hlink, fun _ _ =>
      .inr ⟨hup, fun _ _ _ h => h⟩⟩, fun _ _ _ => ⟨hup, id⟩⟩
  have hstart : GatedRun True True slotB (View.start (boot (config true) [] [] links 1000).toEnv)
      [.tables (askedFor 0) []] asking := by
    refine .of_chain ⟨⟨⟨hcfg, by decide +kernel, fun _ => hlink, fun _ _ => .inl rfl⟩, ?_⟩, trivial⟩
    exact fun _ _ howed => absurd howed (by decide +kernel)
  have hrest : View.AnswerRun slotB (asking.asked slotB (askedFor 0)) drained
      (drained.foldl (View.apply slotB) (asking.asked slotB (askedFor 0))) := by
    refine .of_chain
      ⟨⟨⟨trivial, fun _ => trivial⟩, hup, rfl⟩, ⟨⟨rfl, fun _ => ⟨?_, hup⟩⟩, hup, rfl⟩,
      ⟨⟨trivial, fun _ => htransit⟩, hup, rfl⟩, ⟨hmove 0 20 _ (by decide), hup, rfl⟩,
      ⟨⟨trivial, fun _ => trivial⟩, hup, rfl⟩, ⟨⟨trivial, fun _ => htransit⟩, hup, rfl⟩,
      ⟨hmove 20 60 _ (by decide), hup, rfl⟩, ⟨⟨trivial, fun _ => trivial⟩, hup, rfl⟩, trivial⟩
    decide +kernel
  have hnone : asking.peer.adv.find (dest 0x4B) = none := rfl
  have hk : asking.Answerable slotB (dest 0x4B) := by
    refine ⟨rfl, by decide +kernel, by decide +kernel, by decide +kernel, by decide +kernel,
      fun h => ?_, fun a ha => ?_,
      fun _ _ hkeys _ => .inl (View.room_of_walk (by decide +kernel) hkeys)⟩
    · rw [show asking.env.cfg = config true from hcfg] at h
      cases h
    · rw [hnone] at ha
      cases ha
  have hclose : View.Undisturbed slotB
      (drained.foldl (View.apply slotB) (asking.asked slotB (askedFor 0))) (.close 0) :=
    ⟨⟨trivial, fun _ => htransit⟩, hup, rfl⟩
  obtain ⟨gained, hwire, htoken, hall⟩ := (View.answer_closed hstart (by rfl) hup hlink rfl
    ⟨(hmove 0 0 _ le_rfl).1, (hmove 0 0 _ le_rfl).2⟩ hup rfl (by decide +kernel) hrest
    (by decide +kernel) hclose (by decide +kernel)).2.2.2.2.1
  refine ⟨gained, hwire, htoken, hall (fun _ => rfl) _ hk fun fs hfs b hb => ?_⟩
  have hnever : ∀ fs ∈ drained.inits, ∀ b ∈
      (fs.foldl (View.apply slotB) (asking.asked slotB (askedFor 0))).peer.adv.advs,
      b.looping = false := by
    decide +kernel
  exact hnever fs ((List.mem_inits fs drained).mpr hfs) b (AdvertisedState.mem_of_find hb)

set_option maxRecDepth 10000 in
/-- Closing an answer does not end the batches: the refresh that falls due later ends with a `'3-'`
of its own, before `B` asks again. -/
theorem answer_closed_reopens :
    ¬ ∀ events rest : List Event,
      let asked := (node false).after (events ++ [View.statusPos 1])
      let done := asked.after rest
      Chain Node.event (fun n ev => ¬ n.Wakes slotB ev ∧ (n.sessions slotB).active = true ∧
        (n.event ev).linkOpts slotB = n.linkOpts slotB) asked rest →
      ((done.peers slotB).wire.drop (asked.peers slotB).wire.length).count
        (.frame pidCE releaseToken) ≤ 1 := by
  intro hall
  have hrun := hall [record 0 0x4B 10]
    [.clock 20 0, .timer, .clock 20 0, .timer, .clock 20 0, .timer, .clock 130 0, .timer]
  revert hrun
  decide +kernel

end Node

end FlexNet
