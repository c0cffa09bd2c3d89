import FlexNet.Advert.Emission
import FlexNet.Node.Sessions
import FlexNet.Wire.Frames
import FlexNet.Lib.Runs

/-!
# The advertiser of one peer as a state machine

Everything the node does to one peer is a sequence of a few elementary acts on its advertised
table and its transmit queue, between which the tables the rule reads may change in any way.
`View` is one peer together with those tables, `PeerAct` the acts, and `View.apply` the step
function.  `drain_run`, `walk_run` and `ownRoutes_run` show that the loops of the source are
runs of it; `Node.after_peerRun` has the same for every run of the whole node, so an invariant
of the machine is an invariant of the code.

A change of the tables may take a destination's last source away; the source then re-runs the
rule for that destination.  `View.due` lists the destinations for which this is outstanding.
-/

namespace FlexNet

open Runs

/-- One peer, the tables the decision rule reads, and the destinations whose check is due. -/
structure View where
  env : Env
  peer : Peer
  due : List Key := []

/-- An elementary act on a peer. -/
inductive PeerAct
  /-- the tables the rule reads have moved, and with them the clock; sources may be gone for
  the destinations of `due` only -/
  | tables (e : Env) (due : List Key)
  /-- the stations the sessions talk to, or the flags of their own entries, have changed -/
  | rename (e : Env)
  /-- `flex_advertise_check` -/
  | check (k : Key) (force : Bool)
  /-- the bucket is refilled -/
  | refill
  /-- one turn of the frame loop -/
  | emit
  /-- the end of a drain, which may close a `'3+'` answer -/
  | close (frames : ℕ)
  /-- a `'3-'` is owed to the peer -/
  | owe
  /-- the advertised table is zeroed -/
  | clear
  /-- the quiesce latch is lifted -/
  | release
  /-- any other frame is handed to `flex_send_frame` -/
  | send (pid : UInt8) (data : CStr)

namespace View

/-- A peer that has been told nothing yet. -/
def start (e : Env) : View := ⟨e, {}, []⟩

variable (p : Slot) (v : View)

/-- The family of the peer. -/
def isPcf : Bool := (v.env.sessions p).flexPeerIsPcf

/-- The step function. -/
def apply : PeerAct → View
  | .tables e due => { v with env := e, due := v.due ++ due }
  | .rename e => { v with env := e }
  | .check k force =>
    { v with peer := v.env.flexAdvertiseCheck p k force v.peer, due := v.due.filter (· ≠ k) }
  | .refill =>
    { v with peer := { v.peer with adv := v.peer.adv.refill (v.isPcf p) v.env.now } }
  | .emit => { v with peer := (v.env.emitFrame p (v.isPcf p) v.peer).1 }
  | .close frames => { v with peer := v.env.drainEob p (v.isPcf p) frames v.peer }
  | .owe => { v with peer := { v.peer with adv := { v.peer.adv with eobPending := true } } }
  | .clear => { v with peer := { v.peer with adv := {}, wire := v.peer.wire ++ [.cleared] } }
  | .release => { v with peer := { v.peer with pcfQuiesced := false, quiescedSince := 0 } }
  | .send pid data => { v with peer := v.env.flexSendFrame p pid data v.peer }

end View

/-! ## Which moves of the tables there are -/

/-- No destination outside `due` lost its last source. -/
def Env.KeepsSources (e e' : Env) (p : Slot) (due : List Key) : Prop :=
  ∀ k, k ∉ due → k.call.isEmpty = false → e.Offers p k → e'.Offers p k

/-- The tables differ in the stations the sessions talk to and the neighbour flags at most. -/
structure Env.Renamed (e e' : Env) : Prop where
  cfg : e'.cfg = e.cfg
  now : e'.now = e.now
  active : ∀ s, (e'.sessions s).active = (e.sessions s).active
  port : ∀ s, (e'.sessions s).port = (e.sessions s).port
  ourLinkTime : ∀ s, (e'.sessions s).ourLinkTime = (e.sessions s).ourLinkTime
  linkOpts : e'.linkOpts = e.linkOpts
  learned : ∀ s k, ((e'.learned s).find k).map LearnedRoute.rttAtNeighbour =
    ((e.learned s).find k).map LearnedRoute.rttAtNeighbour

/-- A session that is up has a link row. -/
def Env.Linked (e : Env) (p : Slot) : Prop :=
  (e.sessions p).active = true → (e.sessions p).link.isSome = true

instance (e : Env) (p : Slot) : Decidable (e.Linked p) := inferInstanceAs (Decidable (_ → _))

/-- The records of a CE frame, as its receiver reads them. -/
def frameRecords (cfg : Config) (data : CStr) : List Record :=
  if flexParseCeFrame cfg.lt3byte data = some .compact then flexParseCompactRecords data 64 else []

/-- The destinations the node's own frame announces. -/
def Config.ownKeys (cfg : Config) : List Key :=
  (cfg.ownFrame.elim [] (frameRecords cfg)).map fun r => r.key

/-- The acts the node takes: the configuration and the direction of time are fixed, a source
that goes away makes a check due unless the peer holds nothing, no frame of the advertised table
leaves while a check is due, and other frames announce nothing but the node itself. -/
def View.Legal (p : Slot) (v : View) : PeerAct → Prop
  | .tables e due => e.cfg = v.env.cfg ∧ v.env.now ≤ e.now ∧ e.Linked p ∧
    (e.cfg.transit = true → (e.sessions p).active = true → v.peer.adv.advs = [] ∨
      ((v.env.sessions p).active = true ∧ v.env.KeepsSources e p due))
  | .rename e => v.env.Renamed e ∧ e.Linked p
  | .emit => v.due = []
  | .send pid data => pid = pidCE → ∀ r ∈ frameRecords v.env.cfg data, r.key ∈ v.env.cfg.ownKeys
  | _ => True

/-- A run of the machine whose acts are legal. -/
abbrev PeerRun (p : Slot) : View → List PeerAct → View → Prop :=
  GuardedRun (View.apply p) (View.Legal p)

/-! ## Which acts a session allows -/

/-- The peer has our routes, and the session is established: `seedIfUnsent` has nothing to do and
the handshake does not start over. -/
def Session.answered (s : Session) : Bool :=
  s.sentRoutes && s.flexIsEstablished

/-- What was answered stays answered when one of the flags comes on. -/
theorem Session.answered_mono {x y : Session} (hsent : x.sentRoutes = true → y.sentRoutes = true)
    (hest : x.flexIsEstablished = true → y.flexIsEstablished = true) (h : x.answered = true) :
    y.answered = true := by
  rw [Session.answered, Bool.and_eq_true] at h ⊢
  exact ⟨hsent h.1, hest h.2⟩

namespace View

variable (R : Prop) (p : Slot) (v : View)

/-- The peer is quiesced, or the `'3-'` of an answer to it is outstanding. -/
def Owed : Prop :=
  v.peer.pcfQuiesced = true ∨ (v.env.cfg.transit = true ∧ v.peer.adv.eobPending = true)

instance : Decidable v.Owed := inferInstanceAs (Decidable (_ ∨ _))

/-- The tables may move to `e` while something is owed: the session does not come up, and what was
answered stays so. -/
def Stays (e : Env) : Prop :=
  (e.sessions p).active = true → v.Owed → (v.env.sessions p).active = true ∧
    ((v.env.sessions p).answered = true → (e.sessions p).answered = true)

instance (e : Env) : Decidable (v.Stays p e) :=
  inferInstanceAs (Decidable (_ → _ → _ ∧ (_ → _)))

/-- The gates of the source: records leave while `recordsAllowed`, the own frame and its `'3-'` go
to a peer that has not had them or whose answer is closed, and an answer is opened on an established
session; while a session is up its latch is lifted, its table cleared and an answer opened only
where `R`. -/
def Gated : PeerAct → Prop
  | .tables e _ => v.Stays p e
  | .rename e => v.Stays p e
  | .emit => v.env.cfg.recordsAllowed v.peer = true ∧ (v.env.sessions p).active = true
  | .close _ => v.env.cfg.transit = true
  | .owe => R ∧ v.env.cfg.transit = true ∧ (v.env.sessions p).answered = true
  | .clear => R ∨ (v.env.sessions p).active = false
  | .release => R ∨ (v.env.sessions p).active = false
  | .send pid data => pid = pidCE →
    (frameRecords v.env.cfg data ≠ [] → (v.env.sessions p).active = true ∧
      ((v.env.sessions p).sentRoutes = false ∨ v.env.cfg.recordsAllowed v.peer = true)) ∧
    (data = releaseToken → (v.env.sessions p).sentRoutes = false ∨
      v.env.cfg.transit = false ∨ v.peer.adv.eobPending = false)
  | _ => True

theorem Gated.mono {R R' : Prop} {p : Slot} {v : View} {a : PeerAct} (hR : R → R')
    (h : v.Gated R p a) : v.Gated R' p a := by
  cases a with
  | release => exact h.imp_left hR
  | clear => exact h.imp_left hR
  | owe => exact ⟨hR h.1, h.2⟩
  | _ => exact h

/-- A legal act that passes the gates, where `g`. -/
def Allowed (g R : Prop) (p : Slot) (v : View) (a : PeerAct) : Prop :=
  v.Legal p a ∧ (g → v.Gated R p a)

end View

/-- A run of the machine through the gates. -/
abbrev GatedRun (g R : Prop) (p : Slot) : View → List PeerAct → View → Prop :=
  GuardedRun (View.apply p) (View.Allowed g R p)

/-- Such a run under tables that do not move. -/
abbrev StillRun (g R : Prop) (p : Slot) : View → List PeerAct → View → Prop :=
  GuardedRun (View.apply p) fun v a => v.Allowed g R p a ∧ (v.apply p a).env = v.env

variable {g R : Prop}

theorem GatedRun.peerRun {p : Slot} {v w : View} {as : List PeerAct} (h : GatedRun g R p v as w) :
    PeerRun p v as w :=
  h.mono fun _ _ hok => hok.1

/-! ## Loops of the source are runs -/

/-- An allowed first act, then a run. -/
theorem GatedRun.cons {p : Slot} {v w : View} {a : PeerAct} {as : List PeerAct}
    (ha : v.Allowed g R p a) (h : GatedRun g R p (v.apply p a) as w) :
    GatedRun g R p v (a :: as) w := by
  simpa using (GuardedRun.start.step a ha).append h

/-- A first act that leaves the tables, then a run that does. -/
theorem StillRun.cons {p : Slot} {v w : View} {a : PeerAct} {as : List PeerAct}
    (ha : v.Allowed g R p a) (henv : (v.apply p a).env = v.env)
    (h : StillRun g R p (v.apply p a) as w) : StillRun g R p v (a :: as) w := by
  simpa using (GuardedRun.start.step a ⟨ha, henv⟩).append h

/-- A run of one act. -/
theorem GatedRun.one {p : Slot} {v w : View} {a : PeerAct} (ha : v.Allowed g R p a)
    (hw : v.apply p a = w) : GatedRun g R p v [a] w :=
  hw ▸ .cons ha .start

namespace Env

variable (e : Env) (p : Slot) (x : Peer)

/-- A turn of the frame loop leaves the latch alone. -/
theorem emitFrame_pcfQuiesced (isPcf : Bool) :
    (e.emitFrame p isPcf x).1.pcfQuiesced = x.pcfQuiesced := by
  unfold emitFrame
  dsimp only
  split_ifs <;> rfl

/-- The frame loop is a run of `emit`. -/
theorem drainFrames_run (turns : ℕ) (hallow : e.cfg.recordsAllowed x = true)
    (hup : (e.sessions p).active = true) :
    ∃ as, StillRun g R p ⟨e, x, []⟩ as
      ⟨e, (e.drainFrames p (e.sessions p).flexPeerIsPcf turns x).1, []⟩ := by
  induction turns generalizing x with
  | zero => exact ⟨[], .start⟩
  | succ turns ih =>
      have hlatch := e.emitFrame_pcfQuiesced p x (e.sessions p).flexPeerIsPcf
      have hallow' :
          e.cfg.recordsAllowed (e.emitFrame p (e.sessions p).flexPeerIsPcf x).1 = true := by
        rw [Config.recordsAllowed, hlatch]
        exact hallow
      obtain ⟨as, has⟩ := ih (e.emitFrame p (e.sessions p).flexPeerIsPcf x).1 hallow'
      unfold drainFrames
      rcases hemit : e.emitFrame p (e.sessions p).flexPeerIsPcf x with ⟨y, sent⟩
      have hstep : (⟨e, y, []⟩ : View) = View.apply p ⟨e, x, []⟩ .emit := by
        simp [View.apply, View.isPcf, hemit]
      have hok : View.Allowed g R p ⟨e, x, []⟩ .emit := ⟨rfl, fun _ => ⟨hallow, hup⟩⟩
      cases sent with
      | false => exact ⟨[PeerAct.emit], hstep ▸ GuardedRun.start.step PeerAct.emit ⟨hok, rfl⟩⟩
      | true =>
          rw [hemit] at has
          exact ⟨.emit :: as, .cons hok rfl (hstep ▸ has)⟩

/-- A drain is a run of `refill`, `emit` and `close`. -/
theorem drain_still : ∃ as, StillRun g R p ⟨e, x, []⟩ as ⟨e, e.flexAdvertiseDrain p x, []⟩ := by
  unfold flexAdvertiseDrain
  split_ifs with hgate
  · exact ⟨[], .start⟩
  · exact ⟨[], .start⟩
  · simp only [Bool.not_eq_true', Bool.not_eq_false, Bool.and_eq_true] at hgate
    obtain ⟨⟨htransit, hup⟩, -⟩ := hgate
    dsimp only
    set y : Peer := { x with adv := x.adv.refill (e.sessions p).flexPeerIsPcf e.now } with hy
    have hframes : ∃ as, StillRun g R p ⟨e, y, []⟩ as
        ⟨e, (e.drainFrames p (e.sessions p).flexPeerIsPcf
          (if e.cfg.recordsAllowed y = true then y.adv.tokens.floor.toNat else 0) y).1, []⟩ := by
      split_ifs with hallow
      · exact drainFrames_run e p y _ hallow hup
      · exact ⟨[], .start⟩
    obtain ⟨as, has⟩ := hframes
    generalize e.drainFrames p _ _ _ = r at has ⊢
    obtain ⟨z, frames⟩ := r
    exact ⟨_, StillRun.cons (a := PeerAct.refill) ⟨trivial, fun _ => trivial⟩ rfl
      (has.step (PeerAct.close frames) ⟨⟨trivial, fun _ => htransit⟩, rfl⟩)⟩

theorem drain_run : ∃ as, GatedRun g R p ⟨e, x, []⟩ as ⟨e, e.flexAdvertiseDrain p x, []⟩ := by
  obtain ⟨as, has⟩ := drain_still (g := g) (R := R) e p x
  exact ⟨as, has.mono fun _ _ h => h.1⟩

theorem emitFrame_congr {e e' : Env} (hcfg : e'.cfg = e.cfg) (hnow : e'.now = e.now) (p : Slot)
    (isPcf : Bool) (x : Peer) : e'.emitFrame p isPcf x = e.emitFrame p isPcf x := by
  unfold emitFrame flexSendFrame
  rw [hcfg, hnow]

theorem drainFrames_congr {e e' : Env} (hcfg : e'.cfg = e.cfg) (hnow : e'.now = e.now) (p : Slot)
    (isPcf : Bool) (turns : ℕ) (x : Peer) :
    e'.drainFrames p isPcf turns x = e.drainFrames p isPcf turns x := by
  induction turns generalizing x with
  | zero => rfl
  | succ turns ih =>
      unfold drainFrames
      rw [emitFrame_congr hcfg hnow]
      rcases e.emitFrame p isPcf x with ⟨y, _ | _⟩
      · rfl
      · simp only [ih]

/-- A drain reads little of the session. -/
theorem flexAdvertiseDrain_congr {e e' : Env} {p : Slot} (hcfg : e'.cfg = e.cfg)
    (hnow : e'.now = e.now) (hactive : (e'.sessions p).active = (e.sessions p).active)
    (hlink : (e'.sessions p).link = (e.sessions p).link)
    (hpcf : (e'.sessions p).flexPeerIsPcf = (e.sessions p).flexPeerIsPcf) (x : Peer) :
    e'.flexAdvertiseDrain p x = e.flexAdvertiseDrain p x := by
  unfold flexAdvertiseDrain drainEob flexSendFrame
  simp only [hcfg, hnow, hactive, hlink, hpcf, drainFrames_congr hcfg hnow]

/-- A loop of checks is a run, and settles what was due for the destinations it visits. -/
theorem checks_run (keys due : List Key) (force : Bool) :
    ∃ as, GatedRun g R p ⟨e, x, due⟩ as
      ⟨e, keys.foldl (fun x k => e.flexAdvertiseCheck p k force x) x,
        due.filter (· ∉ keys)⟩ := by
  induction keys generalizing x due with
  | nil => exact ⟨[], by simpa using GuardedRun.start⟩
  | cons k keys ih =>
      obtain ⟨as, has⟩ := ih (e.flexAdvertiseCheck p k force x) (due.filter (· ≠ k))
      refine ⟨.check k force :: as, .cons ⟨trivial, fun _ => trivial⟩ ?_⟩
      have hdue : due.filter (· ∉ k :: keys) = (due.filter (· ≠ k)).filter (· ∉ keys) := by
        rw [List.filter_filter]
        refine List.filter_congr fun k' _ => ?_
        simp only [List.mem_cons, not_or, Bool.decide_and, ne_eq, Bool.and_comm]
      rw [hdue]
      exact has

/-- A walk for the peer is a run. -/
theorem walk_run (directOnly force : Bool) :
    ∃ as, GatedRun g R p ⟨e, x, []⟩ as
      ⟨e, (e.flexAdvertiseWalkForPeer p directOnly force x).1, []⟩ := by
  rw [flexAdvertiseWalkForPeer_fst]
  exact checks_run e p x (e.walkKeys p directOnly) [] force

/-- A frame handed to `flexSendFrame` is a run of one act. -/
theorem send_run {pid : UInt8} {data : CStr} (h : View.Allowed g R p ⟨e, x, []⟩ (.send pid data)) :
    ∃ as, GatedRun g R p ⟨e, x, []⟩ as ⟨e, e.flexSendFrame p pid data x, []⟩ :=
  ⟨_, .cons (a := PeerAct.send pid data) h .start⟩

/-- A frame without records may go to a peer at any time. -/
theorem frameRecords_of_ne {cfg : Config} {data : CStr} (h : data.head? ≠ some 0x33) :
    frameRecords cfg data = [] := by
  unfold frameRecords
  split_ifs
  · unfold flexParseCompactRecords
    split
    · simp at h
    · rfl
  · rfl

theorem frameRecords_releaseToken {cfg : Config} : frameRecords cfg releaseToken = [] := by
  have htype : ∀ lt3byte, flexParseCeFrame lt3byte releaseToken = some .statusNeg := by decide
  simp [frameRecords, htype]

/-- A list of records only lengthens the body of a frame. -/
theorem length_le_of_foldlM {buflen : ℕ} {keys : List Key} {body frame : CStr}
    (h : keys.foldlM (fun body k =>
      (flexBuildRouteRec (buflen - body.length - 1) k 1).map (body ++ ·)) body = some frame) :
    body.length ≤ frame.length := by
  induction keys generalizing body with
  | nil => simp_all
  | cons k keys ih =>
      rw [List.foldlM_cons, Option.bind_eq_bind, Option.bind_eq_some_iff] at h
      obtain ⟨next, hnext, h⟩ := h
      obtain ⟨record, -, rfl⟩ := Option.map_eq_some_iff.mp hnext
      have := ih h
      rw [List.length_append] at this
      omega

/-- The own frame has a record, and the end-of-batch has none. -/
theorem ownFrame_ne_releaseToken {cfg : Config} {frame : CStr} (h : cfg.ownFrame = some frame) :
    frame ≠ releaseToken := by
  unfold Config.ownFrame flexBuildOwnFrame at h
  dsimp only at h
  split_ifs at h
  obtain ⟨body, hbody, rfl⟩ := Option.map_eq_some_iff.mp h
  rw [List.foldlM_cons, Option.bind_eq_bind, Option.bind_eq_some_iff] at hbody
  obtain ⟨next, hnext, hbody⟩ := hbody
  obtain ⟨record, hrecord, rfl⟩ := Option.map_eq_some_iff.mp hnext
  have hlen := length_le_of_foldlM hbody
  unfold flexBuildRouteRec at hrecord
  split_ifs at hrecord
  cases hrecord
  intro htoken
  have htwo := congrArg List.length htoken
  simp only [recordOctets, List.length_append, List.length_cons, List.length_nil, releaseToken]
    at hlen htwo
  omega

/-- The own frame and its end-of-batch are a run, once their gates are open. -/
theorem ownRoutes_run (deferEob : Bool)
    (hown : g → (e.sessions p).active = true ∧
      ((e.sessions p).sentRoutes = false ∨ e.cfg.recordsAllowed x = true))
    (heob : g → deferEob = false → (e.sessions p).sentRoutes = false ∨
      e.cfg.transit = false ∨ x.adv.eobPending = false) :
    ∃ as, GatedRun g R p ⟨e, x, []⟩ as ⟨e, e.flexSendOwnRoutes p deferEob x, []⟩ := by
  have hrelease : ∀ y : Peer, y.adv = x.adv → deferEob = false →
      ∃ as, GatedRun g R p ⟨e, y, []⟩ as ⟨e, e.flexSendFrame p pidCE releaseToken y, []⟩ := by
    intro y hadv hnow
    refine send_run e p y ⟨fun _ r hr => ?_, fun hg _ => ⟨fun h => ?_, fun _ => ?_⟩⟩
    · simp [frameRecords_releaseToken] at hr
    · exact absurd frameRecords_releaseToken h
    · rw [hadv]
      exact heob hg hnow
  -- the caller may defer the end-of-batch
  have hrest : ∀ y : Peer, y.adv = x.adv →
      (∃ as, GatedRun g R p ⟨e, x, []⟩ as ⟨e, y, []⟩) → ∃ as, GatedRun g R p ⟨e, x, []⟩ as
        ⟨e, if deferEob then y else e.flexSendFrame p pidCE releaseToken y, []⟩ := by
    rintro y hadv ⟨as, has⟩
    cases deferEob with
    | true => exact ⟨as, has⟩
    | false =>
        obtain ⟨bs, hbs⟩ := hrelease y hadv rfl
        exact ⟨as ++ bs, has.append hbs⟩
  unfold flexSendOwnRoutes
  cases hframe : e.cfg.ownFrame with
  | none => exact hrest x rfl ⟨[], .start⟩
  | some frame =>
      refine hrest _ rfl (send_run e p x ⟨fun _ r hr => ?_, fun hg _ => ⟨fun _ => hown hg, ?_⟩⟩)
      · rw [Config.ownKeys, hframe, Option.elim_some]
        exact List.mem_map.mpr ⟨r, hr, rfl⟩
      · exact fun htoken => absurd htoken (ownFrame_ne_releaseToken hframe)

end Env

end FlexNet
