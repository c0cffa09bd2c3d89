import FlexNet.Links.Seats
import FlexNet.Lib.FirstFree

/-!
# Every session is found by its link

`flex_find_session` looks at the first `FlexNetSessionCount` slots only.  The count goes up by one
with each session that starts and never comes down, while sessions take the first free slot and
leave theirs in any order; still no session is ever beyond it (`Node.after_found`).
-/

namespace FlexNet

open Runs

namespace Node

variable {n : Node} {s : Slot} {l : LinkId}

/-- The slot has a session. -/
def InUse (n : Node) (s : Slot) : Prop := (n.sessions s).active = true

/-- The sessions that are up are below the count. -/
def Counted (n : Node) : Prop := FirstFree.Below n.InUse n.sessionCount

theorem Counted.start (h : n.Counted) (port : ℕ)
    (hfree : (slots.find? fun i => !(n.sessions i).active) = some s) :
    (n.startSession s l port).Counted := by
  obtain ⟨hcount, hothers, -⟩ := n.startSession_seats s l port
  obtain ⟨-, hfirst⟩ := FirstFree.find?_finRange hfree
  refine FirstFree.Below.take h (fun j hj => by simpa [InUse] using hfirst j hj) (fun j hj => ?_) ?_
  · by_cases hjs : j = s
    · exact .inr hjs
    · unfold InUse at hj ⊢
      rw [hothers j hjs] at hj
      exact .inl hj
  · rw [hcount]
    split <;> omega

/-- A slot that is written keeps the others in use, and is in use when its session is up. -/
theorem Counted.setSession (h : n.Counted) {x : Session}
    (hx : x.active = true → (n.sessions s).active = true) : (n.setSession s x).Counted := by
  refine FirstFree.Below.mono h (fun i hi => ?_) le_rfl
  unfold InUse at hi ⊢
  by_cases his : i = s
  · subst his
    rw [setSession_sessions_self] at hi
    exact hx hi
  · rwa [setSession_sessions_of_ne n x his] at hi

theorem Counted.same {m : Node} (h : n.Counted) (hcount : m.sessionCount = n.sessionCount)
    (hactive : ∀ i, (m.sessions i).active = (n.sessions i).active) : m.Counted :=
  FirstFree.Below.mono h (fun i hi => (hactive i).symm.trans hi) hcount.ge

theorem counted_flexSendLinkTime (h : n.Counted) (s : Slot) : (n.flexSendLinkTime s).Counted := by
  unfold flexSendLinkTime
  dsimp only
  split_ifs
  · exact h
  · exact Counted.setSession (n := n.flexSendFrame s pidCE _) h id

theorem counted_flexLinkTimeSample (h : n.Counted) (s : Slot) :
    (n.flexLinkTimeSample s).Counted := by
  have hmoved : ∀ m : Node, m.Counted → (if m.cfg.transit then m.linkTimeMoved s else m).Counted :=
    fun m hm => by
      have hsame : m.SameSeats (if m.cfg.transit then m.linkTimeMoved s else m) :=
        .ite (sameSeats_linkTimeMoved m s) (.refl m)
      exact hm.same hsame.count hsame.active
  unfold flexLinkTimeSample
  dsimp only
  by_cases hpending : (!(n.sessions s).ltTxPending) = true
  · rw [if_pos hpending]
    exact h
  rw [if_neg hpending]
  by_cases hsample : (n.ticks - (n.sessions s).ltTxTick == 0 ||
      decide (6000 < n.ticks - (n.sessions s).ltTxTick)) = true
  · rw [if_pos hsample]
    exact h.setSession id
  · rw [if_neg hsample]
    exact hmoved _ (h.setSession id)

theorem Counted.move (h : n.Counted) (mv : SeatMove) (hmv : mv.Legal n) : (mv.apply n).Counted := by
  cases mv with
  | serve m =>
      have hsame : n.SameSeats m := hmv
      exact h.same hsame.count hsame.active
  | start s l port => exact h.start port hmv
  | stop s x =>
      have hdown : x.active = false := hmv
      exact h.setSession fun hx => absurd hx (by simp [hdown])
  | relink s l => exact h.setSession id
  | sendLinkTime s => exact counted_flexSendLinkTime h s
  | linkTimeSample s => exact counted_flexLinkTimeSample h s

theorem SeatMoves.counted {m : Node} (hmoves : n.SeatMoves m) (h : n.Counted) : m.Counted := by
  obtain ⟨ms, hms⟩ := hmoves
  exact hms.invariant (fun _ mv hn hmv => Counted.move hn mv hmv) h

/-- A session that is below the count is found by its link. -/
theorem Counted.found (h : n.Counted) (hup : (n.sessions s).active = true)
    (hlink : (n.sessions s).link = some l) :
    ∃ i, n.flexFindSession l = some i ∧ (n.sessions i).active = true ∧
      (n.sessions i).link = some l := by
  cases hfind : n.flexFindSession l with
  | none =>
      have hnot := List.find?_eq_none.mp hfind s (mem_slots s)
      have hlt : s.val < n.sessionCount := h s hup
      simp [hlt, hup, hlink] at hnot
  | some i =>
      have hi := List.find?_some hfind
      simp only [Bool.and_eq_true, beq_iff_eq] at hi
      exact ⟨i, rfl, hi.1.2, hi.2⟩

theorem counted_boot (cfg : Config) (axipPorts : List AxipPort) (portLinks : List PortLink)
    (links : LinkId → Link) (now : ℤ) : (boot cfg axipPorts portLinks links now).Counted :=
  fun _ hi => absurd hi Bool.false_ne_true

/-- In every state the node reaches, whatever was started, closed, reaped and moved on the way,
every session that is up is below the count, and its link finds a session of that link. -/
theorem after_found (cfg : Config) (axipPorts : List AxipPort) (portLinks : List PortLink)
    (links : LinkId → Link) (now : ℤ) (events : List Event) :
    ∀ s, (((boot cfg axipPorts portLinks links now).after events).sessions s).active = true →
      s.val < ((boot cfg axipPorts portLinks links now).after events).sessionCount ∧
      ∀ l, (((boot cfg axipPorts portLinks links now).after events).sessions s).link = some l →
        ∃ i, ((boot cfg axipPorts portLinks links now).after events).flexFindSession l = some i ∧
          (((boot cfg axipPorts portLinks links now).after events).sessions i).active = true ∧
          (((boot cfg axipPorts portLinks links now).after events).sessions i).link = some l := by
  intro s hup
  have hcounted : ((boot cfg axipPorts portLinks links now).after events).Counted :=
    (after_seatMoves _ events).counted (counted_boot cfg axipPorts portLinks links now)
  exact ⟨hcounted s hup, fun l hlink => hcounted.found hup hlink⟩

end Node

namespace Bench

/-- `A` leaves, and `C` takes its slot. -/
def slotReused : List Event :=
  [.initSession 0 1, .initSession 1 1, .closeSession 0, .row 2 (row (addr 0x43)), .initSession 2 1]

/-- The session of `C` is found, three sessions having started in two slots. -/
theorem after_found_reused :
    slotA.val < ((Node.boot (config true) [] [] links 1000).after slotReused).sessionCount ∧
      ∃ i,
        ((Node.boot (config true) [] [] links 1000).after slotReused).flexFindSession 2 = some i ∧
        (((Node.boot (config true) [] [] links 1000).after slotReused).sessions i).active = true ∧
        (((Node.boot (config true) [] [] links 1000).after slotReused).sessions i).link = some 2 :=
  have hfound :=
    Node.after_found (config true) [] [] links 1000 slotReused slotA (by decide +kernel)
  ⟨hfound.1, hfound.2 2 (by decide +kernel)⟩

end Bench

end FlexNet
