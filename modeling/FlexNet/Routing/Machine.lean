import FlexNet.Routing.Service
import FlexNet.Advert.Machine

/-!
# The routes of a node as a state machine

Every entry point of the node changes the routes by a sequence of a few moves, between which it
serves its sessions.  `Move` lists them, `Move.apply` is the step function, and `Move.Legal` says
when an event takes a move: which session it is about, and where a merged record came from.
`event_moves` shows that every event of the node is a run of legal moves, so what every legal move
preserves holds in every state the node reaches.
-/

namespace FlexNet

open Runs

namespace Node

/-! ## Moves -/

/-- A move of the routes. -/
inductive Move
  /-- nothing the routes depend on changes -/
  | serve (m : Node)
  /-- a row of the link table is written -/
  | row (l : LinkId) (x : Link)
  /-- a record is merged -/
  | merge (s : Slot) (r : Record)
  /-- a session is pointed at a row, and takes the callsign of the row -/
  | relink (s : Slot) (l : LinkId)
  /-- the reaper moves a session to another row -/
  | migrate (s : Slot) (l : LinkId)
  /-- a session starts in a free slot -/
  | start (s : Slot) (l : LinkId) (port : ℕ)
  /-- a session ends, and its rows choose another next hop -/
  | stop (s : Slot) (x : Session)
  /-- the options of a session's link change -/
  | opts (s : Slot) (o : LinkOpts)
  /-- the link time to a session's station changes -/
  | sample (s : Slot) (value : ℤ)
  /-- a row's next hop is healed -/
  | heal (i : ℕ)
  /-- a line of the path cache is read -/
  | cache (k : Key) (path : List Callsign) (updated : ℤ)

/-- A session is pointed at a row. -/
def relink (n : Node) (s : Slot) (l : LinkId) : Node :=
  n.setSession s { n.sessions s with link := some l, peerCallsign := (n.links l).linkCall }

/-- The options of a session's link, with what the destination table holds via the link. -/
def setLinkOpts (n : Node) (s : Slot) (o : LinkOpts) : Node :=
  let shift :=
    (if o.penalty then linkPenalty else 0) - (if (n.linkOpts s).penalty then linkPenalty else 0)
  let m := { n with linkOpts := Function.update n.linkOpts s o }
  if shift = 0 then m else { m with dests := m.dests.map (shiftDest s shift) }

/-- The step function. -/
def Move.apply (n : Node) : Move → Node
  | .serve m => m
  | .row l x => n.setLink l x
  | .merge s r => n.flexDtableMerge r s
  | .relink s l => n.relink s l
  | .migrate s l => n.setSession s { n.sessions s with link := some l }
  | .start s l port => n.startSession s l port
  | .stop s x => (n.setSession s x).flexDestReelectVia s
  | .opts s o => n.setLinkOpts s o
  | .sample s value => n.setSession s { n.sessions s with ourLinkTime := value }
  | .heal i => n.healDest i
  | .cache k path updated => n.loadPathRow k path updated

end Node

/-! ## Which moves an event takes -/

/-- The frame an event receives, with its link row. -/
def Event.frame : Event → Option (LinkId × CStr)
  | .processCE l data => some (l, data)
  | .ceReceived l _ data => some (l, data)
  | _ => none

/-- The row an event is about. -/
def Event.about : Event → Option LinkId
  | .initSession l _ => some l
  | .tryAdoptSession l _ => some l
  | .sabm l _ => some l
  | .processCE l _ => some l
  | .ceReceived l _ _ => some l
  | _ => none

namespace Node

/-- A session is up on a row. -/
def OnRow (n : Node) (s : Slot) (l : LinkId) : Prop :=
  (n.sessions s).active = true ∧ (n.sessions s).link = some l

/-- The row a declared link's turn of the keeper opens, with the declaration. -/
def Opens (n : Node) (i : ℕ) (l : LinkId) (pl : PortLink) : Prop :=
  n.portLinks[i]? = some pl ∧ pl.usable = true ∧ pl.wasUp = false ∧ pl.nextTry ≤ n.now ∧
    n.findLink pl.axcall n.cfg.myCall pl.port = .inr (some l)

/-- A record that an event merges at a session: it was in the frame received on the session's
row, or it is the station's own entry. -/
def Merges (n : Node) (e : Event) (s : Slot) (r : Record) : Prop :=
  ∃ l data, e.frame = some (l, data) ∧ n.OnRow s l ∧
    (r ∈ frameRecords n.cfg data ∨ r = ⟨n.neighbourKey s, 1, false⟩)

/-- A row the event looks at: it names somebody, or the event is about it. -/
def Sees (n : Node) (e : Event) (l : LinkId) : Prop :=
  (n.links l).linkCall.isEmpty = false ∨ e.about = some l

/-- A session may be pointed at a row: it is on the row already, or no session is and its own row
has the same octets, or its callsign reads the same. -/
def Relinks (n : Node) (e : Event) (s : Slot) (l : LinkId) : Prop :=
  n.Sees e l ∧ (n.OnRow s l ∨ ((∀ i, ¬ n.OnRow i l) ∧ ∃ port, n.sameCallSession l port s = true) ∨
    ∃ port, n.adoptsTo l port s = true)

/-- A session may be started on a row: no session is on the row, or on one with the same
octets. -/
def Starts (n : Node) (s : Slot) (l : LinkId) (port : ℕ) : Prop :=
  (n.sessions s).active = false ∧ (∀ i, ¬ n.OnRow i l) ∧ ∀ i, n.sameCallSession l port i = false

/-- The moves of an event.  `W` is what is known of the rows the keeper opens. -/
def Move.Legal (W : Node → LinkId → AxCall → Prop) (e : Event) (n : Node) : Move → Prop
  | .serve m => n.SameRoutes m
  | .row l x => e = .row l x ∨ ((n.links l).linkCall.isEmpty = true ∧ W n l x.linkCall)
  | .merge s r => n.Merges e s r
  | .relink s l => n.Relinks e s l
  | .migrate s l => (n.sessions s).active = true ∧ n.migrationTarget s l = true
  | .start s l port => n.Starts s l port
  | .stop s x => (n.sessions s).active = true ∧ x.active = false
  | .opts s _ => (n.sessions s).active = true
  | .sample _ value => 1 ≤ value ∧ value ≤ 4095
  | .heal _ => True
  | .cache .. => True

/-- A run of the moves of an event. -/
def Moves (W : Node → LinkId → AxCall → Prop) (e : Event) (n m : Node) : Prop :=
  ∃ ms, GuardedRun Move.apply (Move.Legal W e) n ms m

variable {W : Node → LinkId → AxCall → Prop} {e : Event} {n m o : Node} {s : Slot} {l : LinkId}

theorem Moves.refl (n : Node) : n.Moves W e n := ⟨[], .start⟩

theorem Moves.trans (h₁ : n.Moves W e m) (h₂ : m.Moves W e o) : n.Moves W e o := by
  obtain ⟨ms, hms⟩ := h₁
  obtain ⟨ms', hms'⟩ := h₂
  exact ⟨ms ++ ms', hms.append hms'⟩

theorem Moves.one (mv : Move) (h : mv.Legal W e n) : n.Moves W e (mv.apply n) :=
  ⟨[mv], GuardedRun.start.step mv h⟩

theorem Moves.ite {c : Prop} [Decidable c] (h₁ : n.Moves W e m) (h₂ : n.Moves W e o) :
    n.Moves W e (if c then m else o) := by
  split_ifs
  exacts [h₁, h₂]

theorem Moves.foldl {α : Type*} {f : Node → α → Node} (hf : ∀ (n : Node) a, n.Moves W e (f n a))
    (as : List α) (n : Node) : n.Moves W e (as.foldl f n) := by
  induction as generalizing n with
  | nil => exact .refl n
  | cons a as ih => exact (hf n a).trans (ih _)

theorem SameRoutes.moves (h : n.SameRoutes m) : n.Moves W e m := .one (.serve m) h

/-- The invariant rule: what every legal move preserves, a run of moves preserves. -/
theorem Moves.invariant {I : Node → Prop}
    (hstep : ∀ n (mv : Move), I n → mv.Legal W e n → I (mv.apply n)) (h : n.Moves W e m)
    (hn : I n) :
    I m := by
  obtain ⟨ms, hms⟩ := h
  exact hms.invariant hstep hn

end Node

end FlexNet
