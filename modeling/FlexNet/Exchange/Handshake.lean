import FlexNet.Exchange.Inits

/-!
# The INIT handshake of two nodes

A node sends an INIT when it starts a session, or starts it over, and when the peer of an
established session sends one although the node's own is older than `FLEXNET_REINIT_GUARD`.  `Act`
splits the events of a node into what it does in one go, so that every INIT it queues belongs to one
session.  A `Talk` is two nodes and the INITs under way between them, each with the time it was sent
and the one it answers.  `Talk.Settled` is the invariant: what one side sent, and what the other
answers, is never older than the stamp of the session it comes back to.
-/

namespace FlexNet

open Runs

/-! ## The acts of a node -/

/-- What a node does in one go. -/
inductive Act
  /-- an event without parts -/
  | event (e : Event)
  /-- a frame is handled by the session of its row -/
  | hear (l : LinkId) (data : CStr)
  | scanPortLinks
  | keepPortLink (i : ℕ)
  | linkOptsPoll
  | reapTurn (s : Slot)
  | scanProactive
  | serveSession (s : Slot)

/-- The event has no parts. -/
def Event.Whole : Event → Prop
  | .sabm .. | .processCE .. | .ceReceived .. | .timer => False
  | _ => True

/-- An act with an event has one without parts. -/
def Act.Whole : Act → Prop
  | .event e => e.Whole
  | _ => True

namespace Node

/-- `FlexNet_ProcessCE` on a row that has a session. -/
def rowHears (n : Node) (l : LinkId) (data : CStr) : Node :=
  match n.flexFindSession l with
  | none => n
  | some s => n.handleFrame s data

/-- One act. -/
def act (n : Node) : Act → Node
  | .event e => n.event e
  | .hear l data => n.rowHears l data
  | .scanPortLinks => { n with portLinkScanned := n.now }
  | .keepPortLink i => n.keepPortLink i
  | .linkOptsPoll => n.flexLinkOptsPoll
  | .reapTurn s => n.reapTurn s
  | .scanProactive => { n with lastProactiveInitScan := n.now }
  | .serveSession s => n.serveSession s

variable {n m o : Node} {e : Event} {l : LinkId} {data : CStr}

/-! ### Every event is a run of acts -/

/-- The acts of an event: no parts, and no frame but the one received. -/
def ActOf (e : Event) (a : Act) : Prop :=
  a.Whole ∧ ∀ l data, a = .hear l data → e.frame = some (l, data)

/-- A run of the acts of an event. -/
def Acts (e : Event) (n m : Node) : Prop :=
  ∃ as, GuardedRun act (fun _ a => ActOf e a) n as m

theorem Acts.refl (n : Node) : n.Acts e n := ⟨[], .start⟩

theorem Acts.trans (h : n.Acts e m) (h' : m.Acts e o) : n.Acts e o := by
  obtain ⟨as, has⟩ := h
  obtain ⟨as', has'⟩ := h'
  exact ⟨as ++ as', has.append has'⟩

theorem Acts.one (n : Node) {a : Act} (h : ActOf e a) : n.Acts e (n.act a) :=
  ⟨[a], GuardedRun.start.step a h⟩

theorem Acts.ite {c : Prop} [Decidable c] (h : n.Acts e m) (h' : n.Acts e o) :
    n.Acts e (if c then m else o) := by
  split_ifs
  exacts [h, h']

theorem Acts.foldl {α : Type*} {f : Node → α → Node} (h : ∀ (n : Node) a, n.Acts e (f n a))
    (as : List α) (n : Node) : n.Acts e (as.foldl f n) := by
  induction as generalizing n with
  | nil => exact .refl n
  | cons a as ih => exact (h n a).trans (ih _)

theorem acts_initSession (n : Node) (l : LinkId) (port : ℕ) :
    n.Acts e (n.flexNetInitSession l port) :=
  .one n (a := .event (.initSession l port)) ⟨trivial, nofun⟩

theorem acts_sabmAccepted (n : Node) (l : LinkId) (port : ℕ) :
    n.Acts e (n.sabmAccepted l port) := by
  have hflag : n.Acts e (n.flagLink l true) :=
    .one n (a := .event (.row l { n.links l with flexNetLink := true })) ⟨trivial, nofun⟩
  have hadopt : ∀ m : Node, m.Acts e (m.flexNetTryAdoptSession l port).1 := fun m =>
    .one m (a := .event (.tryAdoptSession l port)) ⟨trivial, nofun⟩
  unfold sabmAccepted
  refine .ite (.refl n) (hflag.trans ((hadopt _).trans (.ite (.refl _) ?_)))
  exact acts_initSession _ l port

theorem acts_processCE (n : Node) (h : e.frame = some (l, data)) :
    n.Acts e (n.flexNetProcessCE l data) := by
  have hhear : ∀ m : Node, m.Acts e (m.rowHears l data) := fun m =>
    .one m (a := .hear l data) ⟨trivial, fun l' data' heq => by cases heq; exact h⟩
  unfold flexNetProcessCE
  refine .ite (.refl n) ?_
  cases hfound : n.flexFindSession l with
  | some s =>
      have hn := hhear n
      rw [rowHears, hfound] at hn
      exact hn
  | none =>
      have hm := hhear (n.flexNetInitSession l ((n.links l).port.getD 0))
      have hstart : n.Acts e (n.flexNetInitSession l ((n.links l).port.getD 0)) :=
        acts_initSession n l _
      dsimp only
      generalize n.flexNetInitSession l ((n.links l).port.getD 0) = m at hm hstart ⊢
      unfold rowHears at hm
      cases hagain : m.flexFindSession l with
      | none => exact hstart
      | some s =>
          rw [hagain] at hm
          exact hstart.trans hm

theorem acts_timer (n : Node) : n.Acts e n.flexNetTimer := by
  have hkeep : n.Acts e n.flexPortLinksKeep := by
    refine .ite (.refl n)
      (.ite (.refl n) (.trans (.one n (a := .scanPortLinks) ⟨trivial, nofun⟩) ?_))
    exact .foldl (fun m i => .one m (a := .keepPortLink i) ⟨trivial, nofun⟩) _ _
  have hpoll : ∀ m : Node, m.Acts e m.flexLinkOptsPoll := fun m =>
    .one m (a := .linkOptsPoll) ⟨trivial, nofun⟩
  have hreap : ∀ m : Node, m.Acts e m.reapSessions := fun m =>
    .foldl (fun m s => .one m (a := .reapTurn s) ⟨trivial, nofun⟩) slots m
  have hproactive : ∀ m : Node, m.Acts e m.proactiveInit := fun m => by
    refine .ite (.refl m) (.trans (.one m (a := .scanProactive) ⟨trivial, nofun⟩) ?_)
    exact .foldl (fun m li => .ite (acts_initSession m li _) (.refl m)) _ _
  have hserve : ∀ m : Node, m.Acts e (slots.foldl serveSession m) :=
    .foldl (fun m s => .one m (a := .serveSession s) ⟨trivial, nofun⟩) slots
  exact hkeep.trans ((hpoll _).trans ((hreap _).trans ((hproactive _).trans (hserve _))))

/-- Every event is a run of acts, and the frames handled in it are the one received. -/
theorem event_acts (n : Node) (e : Event) : n.Acts e (n.event e) := by
  have hwhole : e.Whole → n.Acts e (n.event e) := fun h => .one n (a := .event e) ⟨h, nofun⟩
  cases e with
  | sabm l port => exact acts_sabmAccepted n l port
  | processCE l data => exact acts_processCE n rfl
  | ceReceived l port data =>
      have hstart : n.Acts (.ceReceived l port data) (if !(n.links l).flexNetLink &&
          n.flexNetIsPeerFlexNetMapped (n.links l).linkCall port then n.flexNetInitSession l port
          else n) :=
        .ite (acts_initSession n l port) (.refl n)
      exact hstart.trans (.ite (acts_processCE _ rfl) (.refl _))
  | timer => exact acts_timer n
  | clock | row | mapTable | initSession | closeSession | notePeerL2Restart | tryAdoptSession |
    heal | pathCache | pathFrame | l3Frame => exact hwhole trivial

/-! ### Acts and their INITs -/

/-- A row tells who its sessions are with. -/
def OwnsRow (n : Node) (l : LinkId) : Prop :=
  ∀ i, n.OnRow i l → n.peerName i = n.rowName l ∧ (n.links l).port = some (n.sessions i).port

end Node

/-- The rows the act takes, or hears from, tell who the sessions are with. -/
def Act.Tells (n : Node) : Act → Prop
  | .event (.initSession l port) => n.RowsTell l port
  | .keepPortLink i => n.LinkTells i
  | .hear l _ => n.OwnsRow l
  | _ => True

/-- Time passes. -/
def Act.IsClock : Act → Prop
  | .event (.clock _ _) => True
  | _ => False

namespace Node

variable {n m o : Node} {l : LinkId} {data : CStr}

theorem stamps_rowHears (n : Node) (l : LinkId) (data : CStr) : n.Stamps (n.rowHears l data) := by
  unfold rowHears
  split
  · exact .refl n
  · exact stamps_handleFrame n _ data

/-- An act leaves a session alone or stamps it, and gives no station a second one. -/
theorem stamps_act (n : Node) {a : Act} (hwhole : a.Whole) (hclock : ¬ a.IsClock)
    (htells : a.Tells n) : n.Stamps (n.act a) := by
  cases a with
  | hear l data => exact n.stamps_rowHears l data
  | scanPortLinks => exact stamps_of_eq rfl rfl rfl
  | keepPortLink i => exact stamps_keepPortLink n i htells
  | linkOptsPoll => exact (calm_flexLinkOptsPoll n).stamps
  | reapTurn s => exact (calm_reapTurn n s).stamps
  | scanProactive => exact stamps_of_eq rfl rfl rfl
  | serveSession s => exact (calm_serveSession n s).stamps
  | event e =>
      cases e with
      | clock seconds ticks => exact absurd trivial hclock
      | initSession l port => exact stamps_flexNetInitSession n l port htells
      | closeSession l => exact (n.calm_flexNetCloseSession l).stamps
      | notePeerL2Restart call port => exact (n.calm_flexNetNotePeerL2Restart call port).stamps
      | tryAdoptSession l port => exact (n.calm_flexNetTryAdoptSession l port).stamps
      | row | mapTable | heal => exact stamps_of_eq rfl rfl rfl
      | pathCache rows =>
          exact (Calm.foldl (fun n row => calm_loadPathRow n row.1 row.2.1 row.2.2) rows n).stamps
      | pathFrame s reply body =>
          refine (n.calm_sendPath s ?_).stamps
          cases reply <;> rfl
      | l3Frame s data => exact (n.calm_sendPath s rfl).stamps
      | sabm | processCE | ceReceived | timer => exact hwhole.elim

end Node

/-- The octets of an INIT. -/
def WireEvent.init? : WireEvent → Option CStr
  | .frame pid data => if pid == pidCE && data.head? == some 0x30 then some data else none
  | .cleared => none

theorem WireEvent.init?_of_isInit {w : WireEvent} (h : w.isInit = false) : w.init? = none := by
  cases w with
  | cleared => rfl
  | frame pid data =>
      exact if_neg (by simpa [isInit] using h)

namespace Node

variable {n m o : Node} {l : LinkId} {data : CStr} {i s : Slot}

/-- The INITs queued on a slot between two states. -/
def initsOn (n m : Node) (i : Slot) : List CStr :=
  ((m.peers i).wire.drop (n.peers i).wire.length).filterMap WireEvent.init?

theorem initsOn_of_mute (h : (n.peers i).Mute (m.peers i)) : n.initsOn m i = [] := by
  obtain ⟨gained, hwire, hmute⟩ := h
  unfold initsOn
  rw [hwire, List.drop_left, List.filterMap_eq_nil_iff]
  exact fun w hw => WireEvent.init?_of_isInit (hmute w hw)

theorem initsOn_of_calm (h : n.Calm m) (i : Slot) : n.initsOn m i = [] := initsOn_of_mute (h.mute i)

theorem initsOn_trans (h : (n.peers i).wire <+: (m.peers i).wire)
    (h' : (m.peers i).wire <+: (o.peers i).wire) :
    n.initsOn o i = n.initsOn m i ++ m.initsOn o i := by
  obtain ⟨first, hfirst⟩ := h
  obtain ⟨rest, hrest⟩ := h'
  unfold initsOn
  rw [← hrest, ← hfirst, List.append_assoc, List.drop_left, List.drop_left, ← List.append_assoc,
    List.drop_left, List.filterMap_append]

/-- One INIT at a time. -/
theorem length_initsOn_sendInit (n : Node) (s i : Slot) :
    (n.initsOn (n.flexSendInit s) i).length ≤ if i = s then 1 else 0 := by
  by_cases hi : i = s
  · subst hi
    have hpeer : (n.flexSendInit i).peers i =
        n.toEnv.flexSendFrame i pidCE (flexBuildInit n.cfg.initMax) (n.peers i) :=
      setPeer_peers_self n i _
    rw [if_pos rfl, initsOn, hpeer]
    unfold Env.flexSendFrame
    dsimp only
    split_ifs
    · rw [List.drop_left]
      exact (List.length_filterMap_le _ _).trans le_rfl
    · simp
  · have hpeer : (n.flexSendInit s).peers i = n.peers i := setPeer_peers_of_ne n _ hi
    rw [initsOn, hpeer]
    simp

theorem Stamps.isPrefix (h : n.Stamps m) (i : Slot) : (n.peers i).wire <+: (m.peers i).wire := by
  rcases h.slot i with ⟨hmute, -⟩ | ⟨hwire, -⟩
  exacts [Peer.Mute.isPrefix hmute, hwire]

/-- A session that does not answer an INIT with one hears every frame calmly. -/
theorem calm_handleFrame_unanswered (n : Node) (s : Slot) (data : CStr)
    (h : n.answersInit s = false) : n.Calm (n.handleFrame s data) := by
  by_cases hinit : flexParseCeFrame n.cfg.lt3byte data = some .init
  · have hhandled : n.handleFrame s data = (n.heardInit s data).seedIfUnsent s := by
      unfold handleFrame
      rw [hinit]
      dsimp only
      rw [handleInit_eq, h]
      rfl
    rw [hhandled]
    exact (n.calm_heardInit s data).trans (calm_seedIfUnsent _ s)
  · exact n.calm_handleFrame s data hinit

/-- One INIT answers a frame at most, on the slot that heard it. -/
theorem length_initsOn_handleFrame (n : Node) (s i : Slot) (data : CStr) :
    (n.initsOn (n.handleFrame s data) i).length ≤ if i = s then 1 else 0 := by
  by_cases hinit : flexParseCeFrame n.cfg.lt3byte data = some .init ∧ n.answersInit s = true
  · have hhandled :
        n.handleFrame s data = ((n.heardInit s data).answerReinit s).seedIfUnsent s := by
      unfold handleFrame
      rw [hinit.1]
      dsimp only
      rw [handleInit_eq, if_pos hinit.2]
    rw [hhandled]
    generalize hm : n.heardInit s data = m
    have hheard : n.Calm m := hm ▸ n.calm_heardInit s data
    have hseed := calm_seedIfUnsent (m.answerReinit s) s
    have hsent := m.stamps_flexSendInit s
    have hrest := m.calm_answerReinit s
    have hgained : n.initsOn ((m.answerReinit s).seedIfUnsent s) i =
        m.initsOn (m.flexSendInit s) i := by
      rw [initsOn_trans (hheard.stamps.isPrefix i)
          ((hsent.trans (hrest.stamps.trans hseed.stamps)).isPrefix i),
        initsOn_trans (hsent.isPrefix i) ((hrest.stamps.trans hseed.stamps).isPrefix i),
        initsOn_of_calm hheard, initsOn_of_calm (hrest.trans hseed), List.nil_append,
        List.append_nil]
    rw [hgained]
    exact m.length_initsOn_sendInit s i
  · have hcalm : n.Calm (n.handleFrame s data) := by
      by_cases hparse : flexParseCeFrame n.cfg.lt3byte data = some .init
      · exact n.calm_handleFrame_unanswered s data (by simpa [hparse] using hinit)
      · exact n.calm_handleFrame s data hparse
    rw [initsOn_of_calm hcalm]
    exact Nat.zero_le _

end Node

/-! ## Two nodes -/

/-- A station as a node tells it: the text of its callsign, and the port it is on. -/
structure Station where
  name : CStr
  port : ℕ

namespace Node

variable {n m : Node} {p : Station} {i s : Slot} {l : LinkId}

/-- A session is up with the station. -/
def IsWith (n : Node) (p : Station) (i : Slot) : Prop :=
  (n.sessions i).active = true ∧ (n.sessions i).port = p.port ∧ n.peerName i = p.name

instance (n : Node) (p : Station) (i : Slot) : Decidable (n.IsWith p i) :=
  inferInstanceAs (Decidable (_ ∧ _ ∧ _))

/-- A row has the callsign of the station, on its port. -/
def IsRowOf (n : Node) (l : LinkId) (p : Station) : Prop :=
  n.rowName l = p.name ∧ (n.links l).port = some p.port

/-- The INITs queued for a station between two states. -/
def initsTo (n m : Node) (p : Station) : List CStr :=
  slots.flatMap fun i => if m.IsWith p i then n.initsOn m i else []

theorem OwnsRow.isWith (hown : n.OwnsRow l) (hrow : n.IsRowOf l p) (hon : n.OnRow s l) :
    n.IsWith p s := by
  obtain ⟨hname, hport⟩ := hown s hon
  refine ⟨hon.1, ?_, hname.trans hrow.1⟩
  exact (Option.some.inj (hport.symm.trans hrow.2))

theorem initsTo_of_calm (h : n.Calm m) : n.initsTo m p = [] := by
  unfold initsTo
  rw [List.flatMap_eq_nil_iff]
  intro i _
  rw [initsOn_of_calm h, ite_self]

/-- A frame is answered with one INIT at most. -/
theorem length_initsTo_rowHears (n : Node) (l : LinkId) (data : CStr) (p : Station) :
    (n.initsTo (n.rowHears l data) p).length ≤ 1 := by
  unfold rowHears
  cases n.flexFindSession l with
  | none =>
      dsimp only
      rw [initsTo_of_calm (.refl n)]
      exact Nat.zero_le 1
  | some s =>
      have hone : ∀ s : Slot, (slots.map fun i => if i = s then 1 else 0).sum = 1 := by decide
      dsimp only
      unfold initsTo
      rw [List.length_flatMap, ← hone s]
      refine List.sum_le_sum fun i _ => ?_
      have hslot := n.length_initsOn_handleFrame s i data
      split_ifs at hslot ⊢ <;> first | exact hslot | exact Nat.zero_le _

end Node

/-- An INIT under way: its octets, when its sender sent it, and when its receiver sent the one it
answers, each by its own clock. -/
structure InitFrame where
  octets : CStr
  sent : ℤ
  answers : Option ℤ

/-- Two nodes, the INITs under way to each, and how many the two have started with and answered
with. -/
structure Talk where
  node : Bool → Node
  toward : Bool → List InitFrame
  started : ℕ
  answered : ℕ

namespace Talk

variable {peer : Bool → Station} {tells : Prop} {t u : Talk} {y : Bool} {l : LinkId}

/-- A side acts, and the INITs it queues for its peer are under way. -/
def acted (t : Talk) (peer : Bool → Station) (y : Bool) (m : Node) (answers : Option ℤ) : Talk :=
  let inits := (t.node y).initsTo m (peer y)
  { node := Function.update t.node y m
    toward := Function.update t.toward (!y)
      (t.toward (!y) ++ inits.map fun octets => ⟨octets, m.now, answers⟩)
    started := t.started + if answers.isNone then inits.length else 0
    answered := t.answered + if answers.isSome then inits.length else 0 }

/-- An INIT is no longer under way. -/
def taken (t : Talk) (y : Bool) (rest : List InitFrame) : Talk :=
  { t with toward := Function.update t.toward y rest }

/-- A side acts on its own. -/
def does (t : Talk) (peer : Bool → Station) (y : Bool) (a : Act) : Talk :=
  t.acted peer y ((t.node y).act a) none

/-- A side hears an INIT on a row; what it queues then answers it. -/
def hears (t : Talk) (peer : Bool → Station) (y : Bool) (l : LinkId) (x : InitFrame)
    (rest : List InitFrame) : Talk :=
  (t.taken y rest).acted peer y ((t.node y).act (.hear l x.octets)) (some x.sent)

/-- An act hears an INIT from a station. -/
def HearsInit (n : Node) (p : Station) (a : Act) : Prop :=
  ∃ l data, a = .hear l data ∧ flexParseCeFrame n.cfg.lt3byte data = some .init ∧ n.IsRowOf l p

/-- The steps.  `tells` says whether the rows tell who the sessions are with. -/
inductive Step (peer : Bool → Station) (tells : Prop) : Talk → Talk → Prop
  /-- a side acts, and hears no INIT from the other -/
  | act (t : Talk) (y : Bool) (a : Act) (hwhole : a.Whole)
      (hinit : ¬ HearsInit (t.node y) (peer y) a) (htells : tells → a.Tells (t.node y)) :
      Step peer tells t (t.does peer y a)
  /-- an INIT arrives on a row of its sender, an answer within the guard -/
  | arrive (t : Talk) (y : Bool) (l : LinkId) (before : List InitFrame) (x : InitFrame)
      (rest : List InitFrame) (hway : t.toward y = before ++ x :: rest)
      (hrow : (t.node y).IsRowOf l (peer y))
      (htrip : ∀ sent ∈ x.answers, (t.node y).now - sent < reinitGuard)
      (htells : tells → (t.node y).OwnsRow l) :
      Step peer tells t (t.hears peer y l x (before ++ rest))
  /-- an INIT is lost -/
  | lose (t : Talk) (y : Bool) (before : List InitFrame) (x : InitFrame) (rest : List InitFrame)
      (hway : t.toward y = before ++ x :: rest) : Step peer tells t (t.taken y (before ++ rest))
  /-- a side restarts -/
  | restart (t : Talk) (y : Bool) (m : Node) (hdown : ∀ i, (m.sessions i).active = false)
      (hnow : (t.node y).now ≤ m.now) :
      Step peer tells t { t with node := Function.update t.node y m }

/-- What two nodes come to that start without sessions. -/
inductive Reached (peer : Bool → Station) (tells : Prop) : Talk → Prop
  | boot (t : Talk) (hnow : ∀ y, 0 < (t.node y).now)
      (hdown : ∀ y i, ((t.node y).sessions i).active = false) (hway : ∀ y, t.toward y = [])
      (hstarted : t.started = 0) (hanswered : t.answered = 0) : Reached peer tells t
  | step {t u : Talk} (ht : Reached peer tells t) (h : Step peer tells t u) : Reached peer tells u

end Talk

/-! ## The invariant -/

namespace Node

variable {n m : Node} {p : Station} {i : Slot} {t : ℤ}

/-- No session with the station has sent its last INIT before `t`. -/
def StampedSince (n : Node) (p : Station) (t : ℤ) : Prop :=
  0 < t ∧ t ≤ n.now ∧ ∀ i, n.IsWith p i → t ≤ (n.sessions i).lastInitTx

/-- Time passes, or an act leaves sessions alone or stamps them. -/
structure Turns (n m : Node) : Prop where
  now : n.now ≤ m.now
  slot : ∀ i, (n.initsOn m i = [] ∧ Holds (n.sessions i) (m.sessions i)) ∨
    ((m.sessions i).active = true → (m.sessions i).lastInitTx = m.now)
  one : n.OnePeer → m.OnePeer

theorem Stamps.turns (h : n.Stamps m) : n.Turns m where
  now := h.now.ge
  slot i := by
    rcases h.slot i with ⟨hmute, hholds⟩ | ⟨-, hstamp⟩
    · exact .inl ⟨initsOn_of_mute hmute, hholds⟩
    · exact .inr fun hup => (hstamp hup).trans h.now.symm
  one := h.one

theorem turns_act (n : Node) {a : Act} (hwhole : a.Whole) (htells : a.Tells n) :
    n.Turns (n.act a) := by
  by_cases hclock : a.IsClock
  · obtain ⟨seconds, ticks, rfl⟩ : ∃ seconds ticks, a = .event (.clock seconds ticks) := by
      cases a with
      | event e =>
          cases e with
          | clock seconds ticks => exact ⟨seconds, ticks, rfl⟩
          | _ => exact hclock.elim
      | _ => exact hclock.elim
    refine ⟨?_, fun i => .inl ⟨initsOn_of_mute (.of_eq rfl), .refl _⟩, id⟩
    change n.now ≤ n.now + seconds
    omega
  · exact (n.stamps_act hwhole hclock htells).turns

/-- A stamp is never in the future. -/
def StampsPast (n : Node) : Prop :=
  ∀ i, (n.sessions i).active = true → (n.sessions i).lastInitTx ≤ n.now

theorem Turns.stampsPast (h : n.Turns m) (hn : n.StampsPast) : m.StampsPast := fun i hup => by
  rcases h.slot i with ⟨-, hholds⟩ | hstamp
  · have hpast := hn i (hholds.1 hup).1
    rw [hholds.2 hup]
    exact hpast.trans h.now
  · exact (hstamp hup).le

theorem Holds.isWith (h : Holds (n.sessions i) (m.sessions i)) (hi : m.IsWith p i) :
    n.IsWith p i := by
  obtain ⟨hup, hport, hname⟩ := h.1 hi.1
  exact ⟨hup, hport ▸ hi.2.1, hname.symm.trans hi.2.2⟩

theorem Turns.stampedSince (h : n.Turns m) (hn : n.StampedSince p t) : m.StampedSince p t := by
  obtain ⟨hpos, hnow, hsince⟩ := hn
  refine ⟨hpos, hnow.trans h.now, fun i hi => ?_⟩
  rcases h.slot i with ⟨-, hholds⟩ | hstamp
  · rw [hholds.2 hi.1]
    exact hsince i (Holds.isWith hholds hi)
  · rw [hstamp hi.1]
    exact hnow.trans h.now

/-- Where an INIT was queued for the station, its one session is stamped with the present time. -/
theorem Turns.stampedSince_now (h : n.Turns m) (hone : m.OnePeer) (hpos : 0 < m.now)
    (hsent : n.initsTo m p ≠ []) : m.StampedSince p m.now := by
  obtain ⟨i, hi⟩ : ∃ i, m.IsWith p i ∧ n.initsOn m i ≠ [] := by
    by_contra hnone
    refine hsent (List.flatMap_eq_nil_iff.mpr fun i _ => ?_)
    by_cases hwith : m.IsWith p i
    · rw [if_pos hwith]
      by_contra hne
      exact hnone ⟨i, hwith, hne⟩
    · rw [if_neg hwith]
  obtain ⟨hwith, hne⟩ := hi
  refine ⟨hpos, le_rfl, fun j hj => ?_⟩
  obtain rfl : j = i := hone j i hj.1 hwith.1 (hj.2.1.trans hwith.2.1.symm)
    (hj.2.2.trans hwith.2.2.symm)
  rcases h.slot j with ⟨hmute, -⟩ | hstamp
  · exact absurd hmute hne
  · exact (hstamp hj.1).ge

end Node

namespace Talk

variable {peer : Bool → Station} {tells : Prop} {t u : Talk} {y : Bool}

/-- The INITs under way that answer none. -/
def fresh (t : Talk) : ℕ :=
  (t.toward false).countP (·.answers.isNone) + (t.toward true).countP (·.answers.isNone)

/-- The invariant: for each INIT under way, the sessions of the side that sent it, and of the side
it answers, have sent none before it. -/
structure Settled (peer : Bool → Station) (t : Talk) : Prop where
  now : ∀ y, 0 < (t.node y).now
  past : ∀ y, (t.node y).StampsPast
  one : ∀ y, (t.node y).OnePeer
  sent : ∀ y, ∀ x ∈ t.toward (!y), (t.node y).StampedSince (peer y) x.sent
  asked : ∀ y, ∀ x ∈ t.toward y, ∀ a ∈ x.answers, (t.node y).StampedSince (peer y) a
  count : t.answered + t.fresh ≤ t.started

theorem fresh_taken {before rest : List InitFrame} {x : InitFrame}
    (h : t.toward y = before ++ x :: rest) :
    (t.taken y (before ++ rest)).fresh + (if x.answers.isNone then 1 else 0) = t.fresh := by
  unfold fresh taken
  cases y <;> simp [h, List.countP_cons] <;> omega

theorem fresh_acted (t : Talk) (y : Bool) (m : Node) (answers : Option ℤ) :
    (t.acted peer y m answers).fresh =
      t.fresh + if answers.isNone then ((t.node y).initsTo m (peer y)).length else 0 := by
  have hcount : ∀ inits : List CStr,
      (inits.map fun octets => (⟨octets, m.now, answers⟩ : InitFrame)).countP (·.answers.isNone) =
        if answers.isNone then inits.length else 0 := fun inits => by
    cases answers <;> simp [List.countP_map, Function.comp_def]
  unfold fresh acted
  dsimp only
  cases y <;> simp only [Bool.not_false, Bool.not_true, Function.update_self, ne_eq, reduceCtorEq,
    not_false_eq_true, Function.update_of_ne, List.countP_append, hcount] <;> omega

/-- Taking an INIT off the way settles nothing less. -/
theorem Settled.taken (h : t.Settled peer) {before rest : List InitFrame} {x : InitFrame}
    (hway : t.toward y = before ++ x :: rest) : (t.taken y (before ++ rest)).Settled peer := by
  have hsub : ∀ z, (t.taken y (before ++ rest)).toward z ⊆ t.toward z := fun z => by
    unfold Talk.taken
    dsimp only
    by_cases hz : z = y
    · subst hz
      rw [Function.update_self, hway]
      exact ((List.sublist_cons_self x rest).append_left before).subset
    · rw [Function.update_of_ne hz]
      exact List.Subset.refl _
  refine ⟨h.now, h.past, h.one, fun z w hw => h.sent z w (hsub _ hw),
    fun z w hw => h.asked z w (hsub _ hw), ?_⟩
  have hfresh := fresh_taken hway
  have hcount := h.count
  change t.answered + (t.taken y (before ++ rest)).fresh ≤ t.started
  omega

/-- A side takes a turn; what it queues answers an INIT that the other side remembers. -/
theorem Settled.acted (h : t.Settled peer) {m : Node} {answers : Option ℤ}
    (hturns : (t.node y).Turns m)
    (hasked : ∀ a ∈ answers, (t.node !y).StampedSince (peer !y) a)
    (hcount : t.answered + t.fresh +
      (if answers.isSome then ((t.node y).initsTo m (peer y)).length else 0) ≤ t.started) :
    (t.acted peer y m answers).Settled peer := by
  have hone : m.OnePeer := hturns.one (h.one y)
  have hpos : 0 < m.now := (h.now y).trans_le hturns.now
  have hnode : ∀ z, (t.acted peer y m answers).node z = if z = y then m else t.node z := fun z => by
    by_cases hz : z = y
    · subst hz
      rw [if_pos rfl]
      exact Function.update_self ..
    · rw [if_neg hz]
      exact Function.update_of_ne hz ..
  have hkept : ∀ z a, (t.node z).StampedSince (peer z) a →
      ((t.acted peer y m answers).node z).StampedSince (peer z) a := fun z a ha => by
    rw [hnode]
    split_ifs with hz
    · exact hz ▸ hturns.stampedSince (hz ▸ ha)
    · exact ha
  have hway : ∀ z x, x ∈ (t.acted peer y m answers).toward z → x ∈ t.toward z ∨
      (z = !y) ∧ x.sent = m.now ∧ x.answers = answers ∧
        (t.node y).initsTo m (peer y) ≠ [] := fun z x hx => by
    unfold Talk.acted at hx
    dsimp only at hx
    by_cases hz : z = !y
    · subst hz
      rw [Function.update_self, List.mem_append, List.mem_map] at hx
      refine hx.imp_right ?_
      rintro ⟨octets, hoctets, rfl⟩
      exact ⟨rfl, rfl, rfl, List.ne_nil_of_mem hoctets⟩
    · rw [Function.update_of_ne hz] at hx
      exact .inl hx
  refine ⟨fun z => ?_, fun z => ?_, fun z => ?_, fun z x hx => ?_, fun z x hx a ha => ?_, ?_⟩
  · rw [hnode]
    split_ifs
    exacts [hpos, h.now z]
  · rw [hnode]
    split_ifs with hz
    · exact hturns.stampsPast (h.past y)
    · exact h.past z
  · rw [hnode]
    split_ifs
    exacts [hone, h.one z]
  · rcases hway _ x hx with hx | ⟨hz, hsent, -, hne⟩
    · exact hkept z _ (h.sent z x hx)
    · obtain rfl : z = y := by simpa using hz
      rw [hnode, if_pos rfl, hsent]
      exact hturns.stampedSince_now hone hpos hne
  · rcases hway _ x hx with hx | ⟨rfl, -, hanswers, -⟩
    · exact hkept z a (h.asked z x hx a ha)
    · exact hkept _ a (hasked a (hanswers ▸ ha))
  · rw [fresh_acted]
    unfold Talk.acted
    dsimp only
    have hor : (if answers.isNone then ((t.node y).initsTo m (peer y)).length else 0) +
        (if answers.isSome then ((t.node y).initsTo m (peer y)).length else 0) =
          ((t.node y).initsTo m (peer y)).length := by
      cases answers <;> simp
    omega

/-- An answer that comes back within the guard finds a session that has sent an INIT since. -/
theorem Settled.unanswered (h : t.Settled peer) {x : InitFrame} {sent : ℤ} {l : LinkId} {s : Slot}
    (hx : x ∈ t.toward y) (hanswers : x.answers = some sent)
    (htrip : (t.node y).now - sent < reinitGuard) (hrow : (t.node y).IsRowOf l (peer y))
    (hown : (t.node y).OwnsRow l) (hfound : (t.node y).flexFindSession l = some s) :
    (t.node y).answersInit s = false := by
  have hwith := hown.isWith hrow (Node.onRow_of_flexFindSession hfound)
  obtain ⟨hpos, -, hsince⟩ := h.asked y x hx sent hanswers
  have hstamp := hsince s hwith
  have hpast := h.past y s hwith.1
  unfold reinitGuard at htrip
  simp only [Node.answersInit, flexReinitAnswer, Bool.and_eq_false_iff, decide_eq_false_iff_not,
    not_or, not_le, not_lt]
  refine .inr ⟨?_, hpast, ?_⟩
  · omega
  · unfold reinitGuard
    omega

/-- The step lemma. -/
theorem Step.settled (hstep : Step peer True t u) (h : t.Settled peer) : u.Settled peer := by
  cases hstep with
  | act y a hwhole hinit htells =>
      refine h.acted ((t.node y).turns_act hwhole (htells trivial)) (fun a ha => by cases ha) ?_
      simpa using h.count
  | arrive y l before x rest hway hrow htrip htells =>
      have hx : x ∈ t.toward y := by rw [hway]; simp
      have hturns : (t.node y).Turns ((t.node y).act (.hear l x.octets)) :=
        (t.node y).turns_act trivial (htells trivial)
      refine (h.taken hway).acted hturns (fun a ha => ?_) ?_
      · cases ha
        have hsent := h.sent (!y) x (by rwa [Bool.not_not])
        exact hsent
      · have hfresh := fresh_taken hway
        have hcount := h.count
        have hone := (t.node y).length_initsTo_rowHears l x.octets (peer y)
        have hnone : x.answers.isNone = false →
            (t.node y).initsTo ((t.node y).rowHears l x.octets) (peer y) = [] := fun hsome => by
          obtain ⟨sent, hsent⟩ : ∃ sent, x.answers = some sent := by
            simpa [Option.isNone_eq_false_iff, Option.isSome_iff_exists] using hsome
          refine Node.initsTo_of_calm ?_
          unfold Node.rowHears
          split
          · exact .refl _
          · rename_i s hfound
            exact (t.node y).calm_handleFrame_unanswered s _ (h.unanswered hx hsent
              (htrip sent hsent) hrow (htells trivial) hfound)
        change t.answered + (t.taken y (before ++ rest)).fresh +
          (if (some x.sent).isSome then
            ((t.node y).initsTo ((t.node y).rowHears l x.octets) (peer y)).length else 0) ≤
            t.started
        rw [Option.isSome_some, if_pos rfl]
        cases hanswers : x.answers.isNone with
        | true =>
            rw [hanswers, if_pos rfl] at hfresh
            omega
        | false =>
            rw [hnone hanswers, List.length_nil]
            omega
  | lose y before x rest hway => exact h.taken hway
  | restart y m hdown hnow =>
      have hnode : ∀ z, Function.update t.node y m z = m ∧ z = y ∨
          Function.update t.node y m z = t.node z := fun z => by
        by_cases hz : z = y
        · subst hz
          exact .inl ⟨Function.update_self .., rfl⟩
        · exact .inr (Function.update_of_ne hz ..)
      have hnever : ∀ i, (m.sessions i).active ≠ true := fun i => by simp [hdown i]
      have hkept : ∀ z a, (t.node z).StampedSince (peer z) a →
          (Function.update t.node y m z).StampedSince (peer z) a := fun z a ha => by
        rcases hnode z with ⟨heq, rfl⟩ | heq <;> rw [heq]
        · exact ⟨ha.1, ha.2.1.trans hnow, fun i hi => absurd hi.1 (hnever i)⟩
        · exact ha
      refine ⟨fun z => ?_, fun z => ?_, fun z => ?_, fun z x hx => hkept z _ (h.sent z x hx),
        fun z x hx a ha => hkept z a (h.asked z x hx a ha), h.count⟩
      · rcases hnode z with ⟨heq, rfl⟩ | heq <;> dsimp only <;> rw [heq]
        exacts [(h.now z).trans_le hnow, h.now z]
      · rcases hnode z with ⟨heq, rfl⟩ | heq <;> dsimp only <;> rw [heq]
        exacts [fun i hi => absurd hi (hnever i), h.past z]
      · rcases hnode z with ⟨heq, rfl⟩ | heq <;> dsimp only <;> rw [heq]
        exacts [fun i _ hi => absurd hi (hnever i), h.one z]

/-- The run lemma. -/
theorem Reached.settled (h : Reached peer True t) : t.Settled peer := by
  induction h with
  | boot t hnow hdown hway hstarted hanswered =>
      have hnever : ∀ y i, ((t.node y).sessions i).active ≠ true := fun y i => by simp [hdown y i]
      refine ⟨hnow, fun y i hi => absurd hi (hnever y i), fun y i _ hi => absurd hi (hnever y i),
        fun y x hx => ?_, fun y x hx => ?_, ?_⟩
      · rw [hway] at hx
        cases hx
      · rw [hway] at hx
        cases hx
      · simp [fresh, hway, hanswered]
  | step _ hstep ih => exact hstep.settled ih

end Talk

end FlexNet
