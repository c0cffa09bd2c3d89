import FlexNet.Links.Timers

/-!
# The reaper

Every tick the reaper looks at the row of each session.  A row that is not connected starts the
session's grace timer, a connected one stops it, and so does everything that gives the session
another row or the slot another session.  So a timer that has run out has run over ticks at each of
which the row was down (`Node.DownSince`).
-/

namespace FlexNet

namespace Node

variable {n m t : Node} {s : Slot} {l li : LinkId} {e : Event} {events : List Event}

/-! ## What a turn sees and does -/

/-- The reaper finds the session up on a row that is not connected, or that names nobody. -/
def SeenDown (n : Node) (s : Slot) : Prop :=
  (n.sessions s).active = true ∧ ∃ l, (n.sessions s).link = some l ∧
    ((n.links l).flexL2Connected = false ∨ (n.links l).linkCall.isEmpty = true)

/-- Another connected row on the session's port carries the callsign of its peer. -/
def CarriesPeer (n : Node) (s : Slot) (li : LinkId) : Prop :=
  li < n.cfg.maxLinks ∧ (n.sessions s).link ≠ some li ∧ (n.links li).flexL2Connected = true ∧
    (n.links li).linkCall.isEmpty = false ∧ (n.links li).port = some (n.sessions s).port ∧
    (n.sessions s).peerCallsign.isEmpty = false ∧
    flexNormalizeCallsign (n.sessions s).peerCallsign ≠ [] ∧
    flexNormalizeCallsign (n.links li).linkCall = flexNormalizeCallsign (n.sessions s).peerCallsign

/-- What a session has exchanged with its peer: the handshake, what it was taught, and what it
told. -/
def SameExchange (n m : Node) (s : Slot) : Prop :=
  (m.sessions s).active = true ∧
    (m.sessions s).gotPeerInit = (n.sessions s).gotPeerInit ∧
    (m.sessions s).flexEstInferred = (n.sessions s).flexEstInferred ∧
    (m.sessions s).sentRoutes = (n.sessions s).sentRoutes ∧
    m.learned s = n.learned s ∧ (m.peers s).adv = (n.peers s).adv

/-- The session has been on rows that are down at every tick since `a`, and its timer has run
since then; a session that starts, or is carried over, sets the timer back. -/
def DownSince (s : Slot) (a : Node) (ticks : List Node) : Prop :=
  a.SeenDown s ∧ a.reapBadSince s = 0 ∧ ∀ t ∈ ticks, t.SeenDown s ∧ t.reapBadSince s = a.now

theorem migrationTarget_iff (hcall : (n.sessions s).peerCallsign.isEmpty = false)
    (hli : li < n.cfg.maxLinks) : n.migrationTarget s li = true ↔ n.CarriesPeer s li := by
  unfold migrationTarget CarriesPeer
  simp only [Bool.and_eq_true, decide_eq_true_eq, Bool.not_eq_true', beq_iff_eq, hli, hcall,
    true_and]
  constructor
  · rintro ⟨⟨⟨⟨⟨hother, hup⟩, hnamed⟩, hport⟩, htext⟩, hsame⟩
    exact ⟨hother, hup, hnamed, hport, by rw [← hsame]; simpa using htext, hsame⟩
  · rintro ⟨hother, hup, hnamed, hport, htext, hsame⟩
    exact ⟨⟨⟨⟨⟨hother, hup⟩, hnamed⟩, hport⟩, by rw [hsame]; simpa using htext⟩, hsame⟩

theorem reapTarget_some (h : n.reapTarget s = some li) : n.CarriesPeer s li := by
  unfold reapTarget at h
  split_ifs at h with hcall
  have hli := List.mem_range.mp (List.mem_of_find?_eq_some h)
  exact (migrationTarget_iff (by simpa using hcall) hli).mp (List.find?_some h)

theorem reapTarget_none (h : n.reapTarget s = none) (li : LinkId) : ¬ n.CarriesPeer s li := by
  intro hcarries
  have hcall : (n.sessions s).peerCallsign.isEmpty = false := hcarries.2.2.2.2.2.1
  unfold reapTarget at h
  rw [if_neg (by simp [hcall]), List.find?_eq_none] at h
  exact h li (List.mem_range.mpr hcarries.1) ((migrationTarget_iff hcall hcarries.1).mpr hcarries)

/-- The verdict on a session: keep it on a connected row that names somebody, end it without a row
at once, and otherwise by the timer. -/
theorem reapVerdict_cases (n : Node) (s : Slot) (hup : (n.sessions s).active = true) :
    ((n.sessions s).link = none ∧ n.reapVerdict s = (.now, n.reapBadSince s)) ∨
    ((n.sessions s).link ≠ none ∧ ¬ n.SeenDown s ∧ n.reapVerdict s = (.keep, 0)) ∨
    (n.SeenDown s ∧ ∃ bad, bad = (if n.reapBadSince s = 0 then n.now else n.reapBadSince s) ∧
      n.reapVerdict s = (if reapGrace ≤ n.now - bad then .now else .wait, bad)) := by
  unfold reapVerdict
  cases hlink : (n.sessions s).link with
  | none => exact .inl ⟨rfl, rfl⟩
  | some l =>
      right
      have hdown : n.SeenDown s ↔
          ((n.links l).flexL2Connected = false ∨ (n.links l).linkCall.isEmpty = true) := by
        simp [SeenDown, hup, hlink]
      unfold flexReapDecide
      simp only [Option.map_some]
      by_cases hfine : ((n.links l).flexL2Connected && !(n.links l).linkCall.isEmpty) = true
      · left
        rw [if_pos hfine, hdown]
        simp only [Bool.and_eq_true, Bool.not_eq_true'] at hfine
        exact ⟨nofun, by simp [hfine.1, hfine.2], rfl⟩
      · right
        rw [if_neg hfine, hdown]
        refine ⟨?_, _, rfl, rfl⟩
        simp only [Bool.and_eq_true, Bool.not_eq_true', not_and, Bool.not_eq_false] at hfine
        cases hc : (n.links l).flexL2Connected with
        | false => exact .inl rfl
        | true => exact .inr (hfine hc)

theorem unflagOldLink_exchange (n : Node) (s : Slot) :
    (n.unflagOldLink s).sessions = n.sessions ∧ (n.unflagOldLink s).learned = n.learned ∧
      (n.unflagOldLink s).peers = n.peers := by
  unfold unflagOldLink
  split <;> exact ⟨rfl, rfl, rfl⟩

/-- A session that is moved to another row keeps what it has exchanged. -/
theorem migrateSession_sameExchange (n : Node) (s : Slot) (li : LinkId)
    (hup : (n.sessions s).active = true) :
    n.SameExchange (n.migrateSession s li) s ∧
      ((n.migrateSession s li).sessions s).link = some li ∧
        (n.migrateSession s li).reapBadSince s = 0 := by
  obtain ⟨hsessions, hlearned, hpeers⟩ := n.unflagOldLink_exchange s
  have hmoved : (n.migrateSession s li).sessions s = { n.sessions s with link := some li } := by
    rw [← hsessions]
    exact Function.update_self ..
  refine ⟨?_, by rw [hmoved], Function.update_self ..⟩
  unfold SameExchange
  rw [hmoved]
  exact ⟨hup, rfl, rfl, rfl, congrFun hlearned s, congrArg Peer.adv (congrFun hpeers s)⟩

theorem setBadSince_sameExchange (n : Node) (s : Slot) (bad : ℤ)
    (hup : (n.sessions s).active = true) : n.SameExchange (n.setBadSince s bad) s :=
  ⟨hup, rfl, rfl, rfl, rfl, rfl⟩

theorem reapSession_down (n : Node) (s : Slot) : ((n.reapSession s).sessions s).active = false := by
  unfold reapSession
  extract_lets n₁ n₂ st n₃ x n₄ n₅ n₆
  have hzero : n₆.sessions s = {} := setSession_sessions_self n₅ s {}
  exact congrArg Session.active hzero

/-- The reaper's turn on a session that is up: it ends the session, or the session keeps what it
has exchanged, on its row or on one that carries its peer. -/
theorem reapTurn_cases (n : Node) (s : Slot) (hup : (n.sessions s).active = true) :
    (((n.reapTurn s).sessions s).active = false ∧ (∀ li, ¬ n.CarriesPeer s li) ∧
      ((n.sessions s).link = none ∨ n.SeenDown s ∧ n.reapBadSince s ≠ 0 ∧
        reapGrace ≤ n.now - n.reapBadSince s)) ∨
    (n.SameExchange (n.reapTurn s) s ∧
      (n.SeenDown s ∨ (n.sessions s).link = none) ∧ (n.reapTurn s).reapBadSince s = 0 ∧
        ∃ li, n.CarriesPeer s li ∧ ((n.reapTurn s).sessions s).link = some li) ∨
    (n.SameExchange (n.reapTurn s) s ∧ ((n.reapTurn s).sessions s).link = (n.sessions s).link ∧
      (n.sessions s).link ≠ none ∧ (n.SeenDown s → ∀ li, ¬ n.CarriesPeer s li) ∧
        ((n.reapTurn s).reapBadSince s = 0 ∨ n.SeenDown s ∧ (n.reapTurn s).reapBadSince s =
          if n.reapBadSince s = 0 then n.now else n.reapBadSince s)) := by
  have hset := fun bad => n.setBadSince_sameExchange s bad hup
  rw [n.reapTurn_up hup]
  have hmoves : ∀ bad li, n.reapTarget s = some li →
      n.SameExchange ((n.setBadSince s bad).migrateSession s li) s ∧ n.CarriesPeer s li ∧
        (((n.setBadSince s bad).migrateSession s li).sessions s).link = some li ∧
          ((n.setBadSince s bad).migrateSession s li).reapBadSince s = 0 :=
    fun bad li htarget => by
      obtain ⟨hsame, hlink⟩ := (n.setBadSince s bad).migrateSession_sameExchange s li hup
      exact ⟨hsame, reapTarget_some htarget, hlink⟩
  rcases n.reapVerdict_cases s hup with ⟨hlink, hverdict⟩ | ⟨hlink, hfine, hverdict⟩ |
    ⟨hdown, bad, hbad, hverdict⟩
  · rw [hverdict]
    cases htarget : n.reapTarget s with
    | none => exact .inl ⟨reapSession_down _ s, reapTarget_none htarget, .inl hlink⟩
    | some li =>
        obtain ⟨hsame, hcarries, hrow, hzero⟩ := hmoves (n.reapBadSince s) li htarget
        exact .inr (.inl ⟨hsame, .inr hlink, hzero, li, hcarries, hrow⟩)
  · rw [hverdict]
    exact .inr (.inr ⟨hset 0, rfl, hlink, fun h => absurd h hfine,
      .inl (Function.update_self ..)⟩)
  · rw [hverdict]
    cases htarget : n.reapTarget s with
    | some li =>
        obtain ⟨hsame, hcarries, hrow, hzero⟩ := hmoves bad li htarget
        dsimp only
        split_ifs <;> exact .inr (.inl ⟨hsame, .inl hdown, hzero, li, hcarries, hrow⟩)
    | none =>
        have hlink : (n.sessions s).link ≠ none := by
          obtain ⟨-, l, hl, -⟩ := hdown
          simp [hl]
        by_cases hgrace : reapGrace ≤ n.now - bad
        · left
          dsimp only
          rw [if_pos hgrace]
          have hrunning : n.reapBadSince s ≠ 0 := by
            intro hzero
            rw [if_pos hzero] at hbad
            rw [hbad, sub_self] at hgrace
            exact absurd hgrace (by decide)
          rw [if_neg hrunning] at hbad
          exact ⟨reapSession_down _ s, reapTarget_none htarget,
            .inr ⟨hdown, hrunning, hbad ▸ hgrace⟩⟩
        · dsimp only
          rw [if_neg hgrace]
          exact .inr (.inr ⟨hset bad, rfl, hlink, fun _ => reapTarget_none htarget,
            .inr ⟨hdown, hbad ▸ Function.update_self ..⟩⟩)

/-! ## Ticks -/

/-- The node as the reaper's turn on slot `s` in an event finds it. -/
def reaperTurn (n : Node) (s : Slot) : Event → List Node
  | .timer =>
    [(slots.takeWhile fun i => i != s).foldl reapTurn n.flexPortLinksKeep.flexLinkOptsPoll]
  | _ => []

/-- The node as the reaper's turns on slot `s` in a run find it, in order. -/
def reaperTurns (s : Slot) : Node → List Event → List Node
  | _, [] => []
  | n, e :: es => n.reaperTurn s e ++ reaperTurns s (n.event e) es

/-- The turns of other slots. -/
theorem graceKept_foldl_reapTurn (is : List Slot) (n : Node) (h : s ∉ is) :
    n.GraceKept (is.foldl reapTurn n) s := by
  induction is generalizing n with
  | nil => exact .refl n s
  | cons i is ih =>
      obtain ⟨hi, his⟩ := not_or.mp (List.mem_cons.not.mp h)
      have hset : ∀ bad, n.GraceKept (n.setBadSince i bad) s := fun bad =>
        graceKept_of_eq rfl (Function.update_of_ne hi ..)
      exact ((hset _).trans ((n.untouched_reapTurn i).grace s)).trans (ih (n.reapTurn i) his)

/-- The slots before one, and those after it. -/
theorem slots_split (s : Slot) :
    ∃ rest, slots = (slots.takeWhile fun i => i != s) ++ s :: rest ∧ s ∉ rest := by
  obtain ⟨pre, rest, hslots⟩ := List.append_of_mem (mem_slots s)
  have hnodup := nodup_slots
  rw [hslots, List.nodup_append, List.nodup_cons] at hnodup
  obtain ⟨-, ⟨hrest, -⟩, hpre⟩ := hnodup
  have htake : (slots.takeWhile fun i => i != s) = pre := by
    rw [hslots, List.takeWhile_append_of_pos, List.takeWhile_cons_of_neg (by simp),
      List.append_nil]
    intro i hi
    simpa using hpre i hi s (by simp)
  exact ⟨rest, by rw [htake]; exact hslots, hrest⟩

/-- A tick is a turn of the reaper on the slot, and nothing before or after it touches the
timer. -/
theorem flexNetTimer_graceKept (n : Node) (s : Slot) :
    ∃ t, n.reaperTurn s .timer = [t] ∧ n.GraceKept t s ∧
      (t.reapTurn s).GraceKept n.flexNetTimer s := by
  refine ⟨_, rfl, ?_, ?_⟩
  · refine ((n.graced_flexPortLinksKeep.grace s).trans
      ((untouched_flexLinkOptsPoll _).grace s)).trans (graceKept_foldl_reapTurn _ _ fun hmem => ?_)
    simpa using List.mem_takeWhile_imp hmem
  · obtain ⟨rest, hslots, hrest⟩ := slots_split s
    set t := (slots.takeWhile fun i => i != s).foldl reapTurn
      n.flexPortLinksKeep.flexLinkOptsPoll with ht
    have hreap : n.flexPortLinksKeep.flexLinkOptsPoll.reapSessions =
        rest.foldl reapTurn (t.reapTurn s) := by
      rw [reapSessions, hslots, List.foldl_append, List.foldl_cons]
    unfold flexNetTimer
    dsimp only
    rw [hreap]
    refine (graceKept_foldl_reapTurn rest _ hrest).trans ?_
    exact ((untouched_proactiveInit _).grace s).trans
      ((Untouched.foldl untouched_serveSession slots _).grace s)

/-! ## Runs -/

/-- The timer of a session that is up is not running, or it was started at a tick since when the
session has been on rows that are down. -/
def GraceOwed (ticks : List Node) (n : Node) (s : Slot) : Prop :=
  (n.sessions s).active = true → n.reapBadSince s = 0 ∨
    ∃ earlier a mid, ticks = earlier ++ a :: mid ∧ DownSince s a mid ∧ n.reapBadSince s = a.now

variable {ticks : List Node}

theorem GraceOwed.kept (h : GraceOwed ticks n s) (hkept : n.GraceKept m s) :
    GraceOwed ticks m s := by
  intro hup
  rcases hkept hup with hzero | ⟨hup', hsame⟩
  · exact .inl hzero
  · rw [hsame]
    exact h hup'

/-- One turn of the reaper. -/
theorem GraceOwed.turn (h : GraceOwed ticks n s) : GraceOwed (ticks ++ [n]) (n.reapTurn s) s := by
  intro hup
  by_cases hn : (n.sessions s).active = true
  swap
  · rw [n.reapTurn_down (by simpa using hn)] at hup
    exact absurd hup hn
  rcases n.reapTurn_cases s hn with
    ⟨hdown, -⟩ | ⟨-, -, hzero, -⟩ | ⟨-, -, -, -, hzero | ⟨hseen, hbad⟩⟩
  · exact absurd hup (by simp [hdown])
  · exact .inl hzero
  · exact .inl hzero
  · right
    by_cases hzero : n.reapBadSince s = 0
    · -- the timer starts at this tick
      rw [if_pos hzero] at hbad
      exact ⟨ticks, n, [], rfl, ⟨hseen, hzero, by simp⟩, hbad⟩
    · rw [if_neg hzero] at hbad
      obtain ⟨earlier, a, mid, rfl, ⟨ha, hstart, hmid⟩, hsince⟩ :=
        (h hn).resolve_left hzero
      refine ⟨earlier, a, mid ++ [n], by simp, ⟨ha, hstart, fun t ht => ?_⟩, hbad.trans hsince⟩
      rcases List.mem_append.mp ht with ht | ht
      · exact hmid t ht
      · rw [List.mem_singleton.mp ht]
        exact ⟨hseen, hsince⟩

theorem GraceOwed.event (h : GraceOwed ticks n s) (e : Event) :
    GraceOwed (ticks ++ n.reaperTurn s e) (n.event e) s ∧
      ∀ t ∈ n.reaperTurn s e, GraceOwed ticks t s := by
  by_cases htimer : e = .timer
  · subst htimer
    obtain ⟨t, hturn, hbefore, hafter⟩ := n.flexNetTimer_graceKept s
    rw [hturn]
    refine ⟨(h.kept hbefore).turn.kept hafter, fun u hu => ?_⟩
    rw [List.mem_singleton.mp hu]
    exact h.kept hbefore
  have hnone : n.reaperTurn s e = [] := by
    unfold reaperTurn
    split
    · exact absurd rfl htimer
    · rfl
  rw [hnone, List.append_nil]
  refine ⟨?_, by simp⟩
  by_cases hclock : ∃ t k, e = .clock t k
  · obtain ⟨t, k, rfl⟩ := hclock
    exact h.kept (graceKept_of_eq rfl rfl)
  · exact h.kept ((n.event_untouched e (fun t k h => hclock ⟨t, k, h⟩) htimer).grace s)

/-- At every turn of a run the timer is owed to the turns before. -/
theorem GraceOwed.turns (events : List Event) {pre later : List Node} {b : Node}
    (h : GraceOwed ticks n s) (hturns : n.reaperTurns s events = pre ++ b :: later) :
    GraceOwed (ticks ++ pre) b s := by
  induction events generalizing n ticks pre with
  | nil => cases pre <;> cases hturns
  | cons e events ih =>
      obtain ⟨hnext, hat⟩ := h.event e
      rw [reaperTurns] at hturns
      cases hone : n.reaperTurn s e with
      | nil =>
          rw [hone, List.nil_append] at hturns
          rw [hone, List.append_nil] at hnext
          exact ih hnext hturns
      | cons u us =>
          obtain rfl : us = [] := by
            unfold reaperTurn at hone
            split at hone
            · exact (List.cons.inj hone).2.symm
            · cases hone
          rw [hone, List.singleton_append] at hturns
          rw [hone] at hnext hat
          cases pre with
          | nil =>
              obtain ⟨rfl, -⟩ := List.cons.inj hturns
              rw [List.append_nil]
              exact hat u (List.mem_singleton_self u)
          | cons v pre =>
              obtain ⟨rfl, hrest⟩ := List.cons.inj hturns
              have := ih hnext hrest
              rwa [List.append_assoc, List.singleton_append] at this

/-- A live neighbour is never reaped.  The reaper ends a session that has no row, or one whose row
it has found down at every tick over the grace period, and only while no other connected row on the
session's port carries the peer.  Where one does, the session moves there with all it has
exchanged. -/
theorem live_neighbour_kept (cfg : Config) (axipPorts : List AxipPort) (portLinks : List PortLink)
    (links : LinkId → Link) (now : ℤ) (s : Slot) (events : List Event)
    (before later : List Node) (b : Node)
    (hturns : (boot cfg axipPorts portLinks links now).reaperTurns s events = before ++ b :: later)
    (hup : (b.sessions s).active = true) :
    (((b.reapTurn s).sessions s).active = false →
      (∀ li, ¬ b.CarriesPeer s li) ∧ ((b.sessions s).link = none ∨
        ∃ earlier a mid, before = earlier ++ a :: mid ∧ DownSince s a (mid ++ [b]) ∧
          a.now + reapGrace ≤ b.now)) ∧
    ((∃ li, b.CarriesPeer s li) → b.SameExchange (b.reapTurn s) s ∧
      (b.SeenDown s ∨ (b.sessions s).link = none →
        ∃ li, b.CarriesPeer s li ∧ ((b.reapTurn s).sessions s).link = some li) ∧
      (¬ (b.SeenDown s ∨ (b.sessions s).link = none) →
        ((b.reapTurn s).sessions s).link = (b.sessions s).link)) := by
  have howed : GraceOwed before b s := by
    have hboot : GraceOwed [] (boot cfg axipPorts portLinks links now) s := fun h => by cases h
    simpa using hboot.turns events hturns
  rcases b.reapTurn_cases s hup with ⟨hdown, hnone, hwhy⟩ | ⟨hsame, hbad, -, hmoved⟩ |
    ⟨hsame, hstays, hlink, hnone, -⟩
  · refine ⟨fun _ => ⟨hnone, ?_⟩, fun ⟨li, hli⟩ => absurd hli (hnone li)⟩
    rcases hwhy with hlink | ⟨hseen, hrunning, hgrace⟩
    · exact .inl hlink
    · right
      obtain ⟨earlier, a, mid, rfl, ⟨ha, hstart, hmid⟩, hsince⟩ := (howed hup).resolve_left hrunning
      refine ⟨earlier, a, mid, rfl, ⟨ha, hstart, fun t ht => ?_⟩, by omega⟩
      rcases List.mem_append.mp ht with ht | ht
      · exact hmid t ht
      · rw [List.mem_singleton.mp ht]
        exact ⟨hseen, hsince⟩
  · have hstill := hsame.1
    exact ⟨fun h => absurd hstill (by simp [h]),
      fun _ => ⟨hsame, fun _ => hmoved, fun h => absurd hbad h⟩⟩
  · have hstill := hsame.1
    refine ⟨fun h => absurd hstill (by simp [h]), fun ⟨li, hli⟩ => ⟨hsame, ?_, fun _ => hstays⟩⟩
    rintro (hseen | hnolink)
    · exact absurd hli (hnone hseen li)
    · exact absurd hnolink hlink

end Node

namespace Bench

/-- The session with `A` starts, its row is dropped at 2000 s, and the reaper ticks until 2005 s. -/
def dropped : List Event :=
  [.initSession 0 1, .clock 1000 0, .row 0 {}, .timer, .clock 3 0, .timer, .clock 2 0, .timer]

/-- The node before it has any session. -/
def fresh : Node := Node.boot (config true) [] [] links 1000

set_option maxRecDepth 10000 in
/-- The third tick ends the session, after five seconds. -/
theorem live_neighbour_kept_dropped :
    ∃ before b, fresh.reaperTurns slotA dropped = before ++ [b] ∧
      ((b.reapTurn slotA).sessions slotA).active = false ∧ (∀ li, ¬ b.CarriesPeer slotA li) ∧
      ∃ earlier a mid, before = earlier ++ a :: mid ∧ Node.DownSince slotA a (mid ++ [b]) ∧
        a.now + Node.reapGrace ≤ b.now := by
  obtain ⟨t₁, t₂, t₃, hturns⟩ : ∃ t₁ t₂ t₃, fresh.reaperTurns slotA dropped = [t₁, t₂] ++ [t₃] :=
    ⟨_, _, _, rfl⟩
  have hlast : (fresh.reaperTurns slotA dropped).map (fun t => ((t.sessions slotA).active,
      (t.sessions slotA).link.isSome, ((t.reapTurn slotA).sessions slotA).active)) =
        [(true, true, true), (true, true, true), (true, true, false)] := by
    decide +kernel
  rw [hturns] at hlast
  simp only [List.cons_append, List.nil_append, List.map_cons, List.map_nil, List.cons.injEq,
    Prod.mk.injEq, and_true] at hlast
  obtain ⟨-, -, hup, hlink, hdown⟩ := hlast
  obtain ⟨hnone, hwhy⟩ := (Node.live_neighbour_kept (config true) [] [] links 1000 slotA dropped
    [t₁, t₂] [] t₃ hturns hup).1 hdown
  exact ⟨[t₁, t₂], t₃, hturns, hdown, hnone, hwhy.resolve_left (Option.isSome_iff_ne_none.mp hlink)⟩

end Bench

end FlexNet
