import FlexNet.Links.Found
import FlexNet.Lib.Smoothing

/-!
# The link-time filter

A link time that goes out stamps the 10 ms tick counter, which wraps at 32 bits; the next link time
that comes in is a sample of the round trip, and the session's filter takes it in unless it is 0 or
above 60 s.  `Filtered` is what the filter keeps to, told of the link times that went out and of the
samples it took since the session started; `after_filtered` says that it holds of every session in
every run.
-/

namespace FlexNet

open Runs Smoothing

/-! ## The filter alone -/

/-- A sample that was taken: the link time it answers, counted from 0, when it came, and the
smoothed value it found. -/
structure Sample where
  answers : ℕ
  tick : UInt32
  value : UInt32
  found : UInt32

/-- The stamps of the link times a session has sent, and the samples it has taken. -/
structure TimingLog where
  sent : List UInt32 := []
  taken : List Sample := []

namespace LinkTiming

variable (t : LinkTiming)

/-- A link time goes out. -/
def sent (ticks : UInt32) : LinkTiming := { t with txTick := ticks, pending := true }

/-- A link time that comes in is a sample. -/
def takes (ticks : UInt32) : Bool :=
  t.pending && !(ticks - t.txTick == 0 || decide (6000 < ticks - t.txTick))

/-- The smoothed value in the units of the wire. -/
def wire (smoothed : UInt32) : UInt32 :=
  let wire := (smoothed + 5) / 10
  if wire < 1 then 1 else if 4095 < wire then 4095 else wire

/-- The smoothed value after a sample. -/
def fold (sample : UInt32) : UInt32 :=
  if t.samples == 0 then sample else (t.smoothed * 3 + sample) / 4

/-- A link time comes in. -/
def received (ticks : UInt32) : LinkTiming :=
  if t.takes ticks then
    let smoothed := t.fold (ticks - t.txTick)
    ⟨smoothed, t.txTick, t.samples + 1, false, (wire smoothed).toNat⟩
  else { t with pending := false }

end LinkTiming

namespace TimingLog

variable (log : TimingLog)

/-- A link time has gone out. -/
def sending (ticks : UInt32) : TimingLog := { log with sent := log.sent ++ [ticks] }

/-- A link time has come in. -/
def receiving (t : LinkTiming) (ticks : UInt32) : TimingLog :=
  if t.takes ticks then
    { log with taken := log.taken ++ [⟨log.sent.length - 1, ticks, ticks - t.txTick, t.smoothed⟩] }
  else log

end TimingLog

/-- What the filter of a session keeps to. -/
structure Filtered (t : LinkTiming) (log : TimingLog) : Prop where
  /-- a sample is a round trip of 1 to 6000 ticks -/
  sample : ∀ x ∈ log.taken, 1 ≤ x.value.toNat ∧ x.value.toNat ≤ 6000
  /-- it is the time since the link time it answers went out -/
  stamp : ∀ x ∈ log.taken, ∃ tick, log.sent[x.answers]? = some tick ∧ x.value = x.tick - tick
  /-- a link time is answered once -/
  once : (log.taken.map Sample.answers).Pairwise (· < ·)
  /-- nothing overflows on the way -/
  fits : ∀ x ∈ log.taken, x.found.toNat * 3 + x.value.toNat < 2 ^ 32
  between : log.taken ≠ [] → Between (log.taken.map fun x => x.value.toNat) t.smoothed.toNat
  ours : log.taken ≠ [] → 1 ≤ t.ours ∧ t.ours ≤ 600
  /-- a stamp that waits for its answer is the last one, and has none yet -/
  armed : t.pending = true → log.sent.getLast? = some t.txTick ∧
    ∀ x ∈ log.taken, x.answers + 1 < log.sent.length
  known : ∀ x ∈ log.taken, x.answers < log.sent.length
  unseeded : log.taken = [] → t.samples = 0 ∧ t.smoothed = 0

namespace Filtered

variable {t : LinkTiming} {log : TimingLog}

theorem smoothed_le (h : Filtered t log) : t.smoothed.toNat ≤ 6000 := by
  by_cases hnone : log.taken = []
  · rw [(h.unseeded hnone).2]
    exact Nat.zero_le 6000
  · refine ((h.between hnone).bounds 1 fun y hy => ?_).2
    obtain ⟨x, hx, rfl⟩ := List.mem_map.mp hy
    exact h.sample x hx

theorem start : Filtered ⟨0, 0, 0, false, 2⟩ {} where
  sample _ hx := absurd hx List.not_mem_nil
  stamp _ hx := absurd hx List.not_mem_nil
  once := .nil
  fits _ hx := absurd hx List.not_mem_nil
  between h := absurd rfl h
  ours h := absurd rfl h
  armed h := absurd h Bool.false_ne_true
  known _ hx := absurd hx List.not_mem_nil
  unseeded _ := ⟨rfl, rfl⟩

/-- A link time that goes out is a new stamp that waits. -/
theorem sending (h : Filtered t log) (ticks : UInt32) :
    Filtered (t.sent ticks) (log.sending ticks) where
  sample := h.sample
  stamp x hx := by
    obtain ⟨tick, hat, hvalue⟩ := h.stamp x hx
    refine ⟨tick, ?_, hvalue⟩
    rw [TimingLog.sending, List.getElem?_append_left (h.known x hx)]
    exact hat
  once := h.once
  fits := h.fits
  between := h.between
  ours := h.ours
  armed _ := by
    refine ⟨List.getLast?_concat .., fun x hx => ?_⟩
    have := h.known x hx
    rw [TimingLog.sending, List.length_append, List.length_singleton]
    omega
  known x hx := by
    rw [TimingLog.sending, List.length_append]
    exact (h.known x hx).trans_le (Nat.le_add_right _ _)
  unseeded := h.unseeded

theorem wire_bounds {smoothed : UInt32} (h : smoothed.toNat ≤ 6000) :
    1 ≤ ((LinkTiming.wire smoothed).toNat : ℤ) ∧ ((LinkTiming.wire smoothed).toNat : ℤ) ≤ 600 := by
  have hdiv : ((smoothed + 5) / 10).toNat = (smoothed.toNat + 5) / 10 := by
    have hadd : (smoothed + 5).toNat = smoothed.toNat + 5 := by
      rw [UInt32.toNat_add, show (5 : UInt32).toNat = 5 from rfl]
      exact Nat.mod_eq_of_lt (by omega)
    rw [UInt32.toNat_div, hadd]
    rfl
  unfold LinkTiming.wire
  dsimp only
  split_ifs with hlow hhigh
  · exact ⟨le_rfl, by decide⟩
  · have : 4095 < ((smoothed + 5) / 10).toNat := hhigh
    omega
  · have : ¬ ((smoothed + 5) / 10).toNat < 1 := hlow
    omega

/-- The filter's arithmetic is that of a weight of 3. -/
theorem toNat_fold (hle : t.smoothed.toNat ≤ 6000) {sample : UInt32} (hsample : sample.toNat ≤ 6000)
    (hseeded : t.samples ≠ 0) : (t.fold sample).toNat = next 3 t.smoothed.toNat sample.toNat := by
  have hmul : (t.smoothed * 3).toNat = t.smoothed.toNat * 3 := by
    rw [UInt32.toNat_mul, show (3 : UInt32).toNat = 3 from rfl]
    exact Nat.mod_eq_of_lt (by omega)
  have hadd : (t.smoothed * 3 + sample).toNat = t.smoothed.toNat * 3 + sample.toNat := by
    rw [UInt32.toNat_add, hmul]
    exact Nat.mod_eq_of_lt (by omega)
  unfold LinkTiming.fold
  rw [if_neg (by simpa using hseeded), UInt32.toNat_div, hadd]
  rfl

/-- A sample that is taken is in range. -/
theorem sample_of_takes {ticks : UInt32} (h : t.takes ticks = true) :
    t.pending = true ∧ 1 ≤ (ticks - t.txTick).toNat ∧ (ticks - t.txTick).toNat ≤ 6000 := by
  simp only [LinkTiming.takes, Bool.and_eq_true, Bool.not_eq_true', Bool.or_eq_false_iff,
    beq_eq_false_iff_ne, decide_eq_false_iff_not] at h
  obtain ⟨hpending, hne, hle⟩ := h
  refine ⟨hpending, Nat.one_le_iff_ne_zero.mpr fun hzero => hne ?_, not_lt.mp hle⟩
  exact UInt32.toNat_inj.mp hzero

/-- A link time that comes in is the answer to the stamp that waits, if it is one at all. -/
theorem receiving (h : Filtered t log) (ticks : UInt32) :
    Filtered (t.received ticks) (log.receiving t ticks) := by
  by_cases htakes : t.takes ticks = true
  swap
  · rw [LinkTiming.received, TimingLog.receiving, if_neg htakes, if_neg htakes]
    exact { h with armed := fun hpending => absurd hpending Bool.false_ne_true }
  obtain ⟨hpending, hlow, hhigh⟩ := sample_of_takes htakes
  obtain ⟨hlast, hbefore⟩ := h.armed hpending
  rw [LinkTiming.received, TimingLog.receiving, if_pos htakes, if_pos htakes]
  dsimp only
  set sample := ticks - t.txTick with hsample
  have hne : log.sent ≠ [] := fun hnil => by rw [hnil] at hlast; cases hlast
  have hpos := List.length_pos_of_ne_nil hne
  have hat : log.sent[log.sent.length - 1]? = some t.txTick := by
    rw [← List.getLast?_eq_getElem?]
    exact hlast
  have hold : ∀ x ∈ log.taken, x.answers < log.sent.length - 1 := fun x hx => by
    have := hbefore x hx
    omega
  have hsmoothed := h.smoothed_le
  have hvalues : (log.taken ++ [(⟨log.sent.length - 1, ticks, sample, t.smoothed⟩ : Sample)]).map
      (fun x => x.value.toNat) = log.taken.map (fun x => x.value.toNat) ++ [sample.toNat] := by
    rw [List.map_append]
    rfl
  have hbetween :
    Between ((log.taken ++ [(⟨log.sent.length - 1, ticks, sample, t.smoothed⟩ : Sample)]).map
      fun x => x.value.toNat) (t.fold sample).toNat := by
    rw [hvalues]
    by_cases hseeded : t.samples = 0
    · rw [LinkTiming.fold, if_pos (by simpa using hseeded)]
      exact .seed _ _
    · have hsome : log.taken ≠ [] := fun hnil => hseeded (h.unseeded hnil).1
      rw [toNat_fold hsmoothed hhigh hseeded]
      exact (h.between hsome).next 3 sample.toNat
  have hrange : ∀ x ∈ log.taken ++ [(⟨log.sent.length - 1, ticks, sample, t.smoothed⟩ : Sample)],
      1 ≤ x.value.toNat ∧ x.value.toNat ≤ 6000 := by
    intro x hx
    rcases List.mem_append.mp hx with hx | hx
    · exact h.sample x hx
    · rw [List.mem_singleton.mp hx]
      exact ⟨hlow, hhigh⟩
  exact {
    sample := hrange
    stamp := fun x hx => by
      rcases List.mem_append.mp hx with hx | hx
      · exact h.stamp x hx
      · rw [List.mem_singleton.mp hx]
        exact ⟨t.txTick, hat, rfl⟩
    once := by
      rw [List.map_append, List.pairwise_append]
      refine ⟨h.once, List.pairwise_singleton .., fun a ha b hb => ?_⟩
      obtain ⟨x, hx, rfl⟩ := List.mem_map.mp ha
      rw [List.mem_singleton.mp hb]
      exact hold x hx
    fits := fun x hx => by
      rcases List.mem_append.mp hx with hx | hx
      · exact h.fits x hx
      · rw [List.mem_singleton.mp hx]
        dsimp only
        omega
    between := fun _ => hbetween
    ours := fun _ => by
      refine wire_bounds (hbetween.bounds 1 fun y hy => ?_).2
      obtain ⟨x, hx, rfl⟩ := List.mem_map.mp hy
      exact hrange x hx
    armed := fun hwaits => absurd hwaits Bool.false_ne_true
    known := fun x hx => by
      rcases List.mem_append.mp hx with hx | hx
      · exact h.known x hx
      · rw [List.mem_singleton.mp hx]
        exact Nat.sub_lt hpos Nat.one_pos
    unseeded := fun hnil => absurd hnil (by simp) }

-- the tick counter wraps between the two
example : LinkTiming.received ⟨0, 0xFFFFFFF0, 0, true, 2⟩ 0x10 = ⟨32, 0xFFFFFFF0, 1, false, 3⟩ := by
  decide

end Filtered

/-! ## The filters of a node -/

namespace Node

variable {n m : Node} {s : Slot}

/-- `flex_send_link_time` is not held back. -/
def ltDue (n : Node) (s : Slot) : Bool :=
  !decide ((n.sessions s).lastLtTx ≠ 0 ∧ n.now - (n.sessions s).lastLtTx <
    ltInterval (n.sessions s))

theorem timing_flexSendLinkTime (n : Node) (s : Slot) :
    (∀ i ≠ s, (n.flexSendLinkTime s).sessions i = n.sessions i) ∧
      ((n.flexSendLinkTime s).sessions s).active = (n.sessions s).active ∧
      ((n.flexSendLinkTime s).sessions s).timing =
        if n.ltDue s then (n.sessions s).timing.sent n.ticks else (n.sessions s).timing := by
  unfold flexSendLinkTime ltDue
  dsimp only
  by_cases hheld : (n.sessions s).lastLtTx ≠ 0 ∧
      n.now - (n.sessions s).lastLtTx < ltInterval (n.sessions s)
  · rw [if_pos hheld, decide_eq_true hheld, Bool.not_true, if_neg Bool.false_ne_true]
    exact ⟨fun _ _ => rfl, rfl, rfl⟩
  · rw [if_neg hheld, decide_eq_false hheld, Bool.not_false, if_pos rfl, setSession_sessions_self]
    exact ⟨fun i hi => setSession_sessions_of_ne _ _ hi, rfl, rfl⟩

theorem timing_flexLinkTimeSample (n : Node) (s : Slot) :
    (∀ i ≠ s, ((n.flexLinkTimeSample s).sessions i).seat = (n.sessions i).seat) ∧
      ((n.flexLinkTimeSample s).sessions s).active = (n.sessions s).active ∧
      ((n.sessions s).active = true → ((n.flexLinkTimeSample s).sessions s).timing =
        (n.sessions s).timing.received n.ticks) := by
  have htakes : (n.sessions s).timing.takes n.ticks =
      ((n.sessions s).ltTxPending && !(n.ticks - (n.sessions s).ltTxTick == 0 ||
        decide (6000 < n.ticks - (n.sessions s).ltTxTick))) := rfl
  -- the walk that follows a sample leaves the filters alone
  have hmoved : ∀ m : Node, m.SameSeats (if m.cfg.transit then m.linkTimeMoved s else m) := fun m =>
    .ite (sameSeats_linkTimeMoved m s) (.refl m)
  have hothers : ∀ (m : Node) (x : Session), m = n.setSession s x →
      ∀ i ≠ s, (m.sessions i).seat = (n.sessions i).seat := fun m x hm i hi => by
    rw [hm, setSession_sessions_of_ne n x hi]
  unfold flexLinkTimeSample LinkTiming.received
  rw [htakes]
  dsimp only
  by_cases hpending : (n.sessions s).ltTxPending = true
  swap
  · have hoff : (n.sessions s).ltTxPending = false := by simpa using hpending
    rw [hoff, Bool.not_false, if_pos rfl, Bool.false_and, if_neg Bool.false_ne_true]
    exact ⟨fun _ _ => rfl, rfl, fun _ => by simp [Session.timing, hoff]⟩
  rw [hpending, Bool.not_true, if_neg Bool.false_ne_true, Bool.true_and]
  by_cases hsample : (n.ticks - (n.sessions s).ltTxTick == 0 ||
      decide (6000 < n.ticks - (n.sessions s).ltTxTick)) = true
  · rw [if_pos hsample, hsample, Bool.not_true, if_neg Bool.false_ne_true]
    refine ⟨hothers _ _ rfl, by rw [setSession_sessions_self], fun _ => ?_⟩
    rw [setSession_sessions_self]
    rfl
  · have hin : (n.ticks - (n.sessions s).ltTxTick == 0 ||
        decide (6000 < n.ticks - (n.sessions s).ltTxTick)) = false := by simpa using hsample
    rw [if_neg hsample, hin, Bool.not_false, if_pos rfl]
    have hwritten : ∀ x : Session, x.active = (n.sessions s).active →
        let k := n.setSession s x
        let m := if k.cfg.transit then k.linkTimeMoved s else k
        (∀ i ≠ s, (m.sessions i).seat = (n.sessions i).seat) ∧
          (m.sessions s).active = (n.sessions s).active ∧
          ((n.sessions s).active = true → (m.sessions s).timing = x.timing) := by
      intro x hactive k m
      have hsame := hmoved k
      have hself : k.sessions s = x := setSession_sessions_self ..
      have hup : (m.sessions s).active = (n.sessions s).active :=
        (hsame.active s).trans (by rw [hself, hactive])
      refine ⟨fun i hi => (hsame.seat i).trans (hothers k x rfl i hi), hup, fun h => ?_⟩
      rw [(hsame.session (hup.trans h)).2.2, hself]
    exact hwritten _ rfl

end Node

/-- A node with the logs of its sessions' filters. -/
structure Metered where
  node : Node
  logs : Slot → TimingLog

namespace Metered

open Node

variable {r r' : Metered} {mv : SeatMove} {moves : List SeatMove}

/-- A node with nothing logged. -/
def start (n : Node) : Metered := ⟨n, fun _ => {}⟩

/-- The step function: a session that starts has a new log. -/
def apply (r : Metered) (mv : SeatMove) : Metered where
  node := mv.apply r.node
  logs := match mv with
    | .start s _ _ => Function.update r.logs s {}
    | .sendLinkTime s =>
      if r.node.ltDue s then Function.update r.logs s ((r.logs s).sending r.node.ticks) else r.logs
    | .linkTimeSample s => Function.update r.logs s
        ((r.logs s).receiving (r.node.sessions s).timing r.node.ticks)
    | _ => r.logs

/-- The moves are those of the node. -/
def Legal (r : Metered) (mv : SeatMove) : Prop := mv.Legal r.node

/-- The filter of every session keeps to its log. -/
def AllFiltered (r : Metered) : Prop :=
  ∀ s, (r.node.sessions s).active = true → Filtered (r.node.sessions s).timing (r.logs s)

theorem allFiltered_start {n : Node} (h : ∀ s, (n.sessions s).active = false) :
    (start n).AllFiltered := fun s hup => by
  rw [show ((start n).node.sessions s).active = false from h s] at hup
  cases hup

/-- What a session has, it had before. -/
theorem AllFiltered.of_seat (h : r.AllFiltered) {x : Session} {s : Slot} (hup : x.active = true)
    (hseat : x.seat = (r.node.sessions s).seat) : Filtered x.timing (r.logs s) := by
  rw [Session.seat_of_active hup] at hseat
  unfold Session.seat at hseat
  split_ifs at hseat with hactive
  rw [(Prod.mk.inj (Option.some.inj hseat)).2]
  exact h s hactive

theorem AllFiltered.apply (h : r.AllFiltered) (hmv : r.Legal mv) : (r.apply mv).AllFiltered := by
  intro i hup
  cases mv with
  | serve m =>
      have hsame : r.node.SameSeats m := hmv
      exact h.of_seat hup (hsame.seat i)
  | start s l port =>
      obtain ⟨-, hothers, hseat⟩ := r.node.startSession_seats s l port
      change ((r.node.startSession s l port).sessions i).active = true at hup
      change Filtered ((r.node.startSession s l port).sessions i).timing
        (Function.update r.logs s {} i)
      by_cases hi : i = s
      · subst hi
        rw [Session.seat_of_active hup] at hseat
        rw [Function.update_self, (Prod.mk.inj (Option.some.inj hseat)).2]
        exact .start
      · rw [Function.update_of_ne hi, hothers i hi]
        exact h i (hothers i hi ▸ hup)
  | stop s x =>
      have hdown : x.active = false := hmv
      change ((r.node.setSession s x).sessions i).active = true at hup
      by_cases hi : i = s
      · subst hi
        rw [setSession_sessions_self, hdown] at hup
        cases hup
      · exact h.of_seat hup (congrArg Session.seat (setSession_sessions_of_ne r.node x hi))
  | relink s l =>
      change Filtered ((r.node.setSession s _).sessions i).timing (r.logs i)
      change ((r.node.setSession s _).sessions i).active = true at hup
      by_cases hi : i = s
      · subst hi
        rw [setSession_sessions_self] at hup ⊢
        exact h i hup
      · rw [setSession_sessions_of_ne r.node _ hi] at hup ⊢
        exact h i hup
  | sendLinkTime s =>
      obtain ⟨hothers, hactive, htiming⟩ := r.node.timing_flexSendLinkTime s
      change ((r.node.flexSendLinkTime s).sessions i).active = true at hup
      change Filtered ((r.node.flexSendLinkTime s).sessions i).timing
        ((if r.node.ltDue s then Function.update r.logs s ((r.logs s).sending r.node.ticks)
          else r.logs) i)
      by_cases hi : i = s
      · subst hi
        rw [htiming]
        have hold := h i (hactive ▸ hup)
        split_ifs
        · rw [Function.update_self]
          exact hold.sending r.node.ticks
        · exact hold
      · rw [hothers i hi] at hup ⊢
        split_ifs
        · rw [Function.update_of_ne hi]
          exact h i hup
        · exact h i hup
  | linkTimeSample s =>
      obtain ⟨hothers, hactive, htiming⟩ := r.node.timing_flexLinkTimeSample s
      change ((r.node.flexLinkTimeSample s).sessions i).active = true at hup
      change Filtered ((r.node.flexLinkTimeSample s).sessions i).timing
        (Function.update r.logs s ((r.logs s).receiving (r.node.sessions s).timing r.node.ticks) i)
      by_cases hi : i = s
      · subst hi
        have hup' : (r.node.sessions i).active = true := hactive ▸ hup
        rw [Function.update_self, htiming hup']
        exact (h i hup').receiving r.node.ticks
      · rw [Function.update_of_ne hi]
        exact h.of_seat hup (hothers i hi)

theorem allFiltered_run (hrun : GuardedRun apply Legal r moves r') (h : r.AllFiltered) :
    r'.AllFiltered :=
  hrun.invariant (fun _ _ hr hmv => hr.apply hmv) h

/-- The logs follow any run of moves of the node. -/
theorem run_of_moves {n m : Node} (hmoves : GuardedRun SeatMove.apply SeatMove.Legal n moves m) :
    ∃ r', GuardedRun apply Legal (start n) moves r' ∧ r'.node = m := by
  induction hmoves with
  | start => exact ⟨start n, .start, rfl⟩
  | step mv _ hmv ih =>
      obtain ⟨r', hrun, rfl⟩ := ih
      exact ⟨r'.apply mv, hrun.step mv hmv, rfl⟩

end Metered

/-- Every run of a node is one in which link times go out and come in, sessions start, end and move,
and nothing else touches the filters; and in every such run, whatever the tick counter reads at each
step, the filter of each session keeps to what was logged since the session started. -/
theorem Node.after_filtered (cfg : Config) (axipPorts : List AxipPort) (portLinks : List PortLink)
    (links : LinkId → Link) (now : ℤ) :
    (∀ events, ∃ moves r,
      GuardedRun Metered.apply Metered.Legal
        (Metered.start (Node.boot cfg axipPorts portLinks links now)) moves r ∧
      r.node = (Node.boot cfg axipPorts portLinks links now).after events) ∧
    ∀ moves r,
      GuardedRun Metered.apply Metered.Legal
        (Metered.start (Node.boot cfg axipPorts portLinks links now)) moves r →
      ∀ s, (r.node.sessions s).active = true → Filtered (r.node.sessions s).timing (r.logs s) := by
  constructor
  · intro events
    obtain ⟨moves, hmoves⟩ :=
      Node.after_seatMoves (Node.boot cfg axipPorts portLinks links now) events
    obtain ⟨r, hrun, hnode⟩ := Metered.run_of_moves hmoves
    exact ⟨moves, r, hrun, hnode⟩
  · intro moves r hrun
    exact Metered.allFiltered_run hrun (Metered.allFiltered_start fun _ => rfl)

end FlexNet
