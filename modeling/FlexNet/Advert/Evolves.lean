import FlexNet.Advert.Machine
import FlexNet.Node.Events

/-!
# The node drives the machine of every peer

`Node.Evolves n m` says that the node moved from `n` to `m` by steps that are, for every peer at
once, runs of that peer's machine, and `Node.Advances` that these runs pass the machine's gates as
well.  This module has the rules of both: moves of the tables that leave every source where it is
(`Env.Alike`), changes of names, changes of one peer, and the triggers that follow a move that takes
sources away.
-/

namespace FlexNet

open Runs

/-! ## Moves of the tables -/

namespace Env

variable {e e' : Env} {p : Slot}

/-- What a session that is up offers is the same on both sides. -/
structure SameSource (e e' : Env) (s : Slot) : Prop where
  port : (e'.sessions s).port = (e.sessions s).port
  link : (e'.sessions s).link.isSome = (e.sessions s).link.isSome
  peerCall : e'.sessPeerCall s = e.sessPeerCall s
  linkOpts : e'.linkOpts s = e.linkOpts s
  learned : ∀ k, ((e'.learned s).find k).map (fun lr => (lr.rttAtNeighbour, lr.isDirectNeighbour)) =
    ((e.learned s).find k).map fun lr => (lr.rttAtNeighbour, lr.isDirectNeighbour)

/-- The tables moved, and every session offers what it offered. -/
structure Alike (e e' : Env) : Prop where
  cfg : e'.cfg = e.cfg
  now : e.now ≤ e'.now
  active : ∀ s, (e'.sessions s).active = (e.sessions s).active
  source : ∀ s, (e.sessions s).active = true → e.SameSource e' s

/-- A session with the same source names the same neighbours. -/
theorem SameSource.destIsSessionPeer {s : Slot} (h : e.SameSource e' s)
    (hup : (e'.sessions s).active = (e.sessions s).active) (k : Key) :
    e'.destIsSessionPeer s k = e.destIsSessionPeer s k := by
  simp only [Env.destIsSessionPeer, hup, h.link, h.peerCall]

theorem SameSource.offer {s : Slot} (h : e.SameSource e' s)
    (hup : (e'.sessions s).active = (e.sessions s).active) {k : Key}
    (hoffer : (e.offer s k).isSome = true) : (e'.offer s k).isSome = true := by
  have hrtt := congrArg (Option.map Prod.fst) (h.learned k)
  have hdirect := congrArg (Option.map Prod.snd) (h.learned k)
  simp only [Option.map_map] at hrtt hdirect
  have hnbr : e'.isNeighbour s k = e.isNeighbour s k := by
    unfold isNeighbour
    rw [h.destIsSessionPeer hup]
    congr 1
    cases ha : (e'.learned s).find k <;> cases hb : (e.learned s).find k <;>
      simp_all [Function.comp_def]
  rw [offer_isSome_iff] at hoffer ⊢
  rw [hnbr, h.linkOpts]
  refine ⟨?_, hoffer.2⟩
  obtain ⟨rtt, hfind, hpos⟩ := hoffer.1
  exact ⟨rtt, by rw [← hfind]; exact hrtt, hpos⟩

/-- Sources are kept when the sessions that were up, less some whose destinations are due, offer
what they offered, and the peer is no new destination. -/
theorem keepsSources_of {due : List Key} (hcfg : e'.cfg = e.cfg)
    (hport : (e'.sessions p).port = (e.sessions p).port)
    (hself : ∀ k, e'.destIsSessionPeer p k = e.destIsSessionPeer p k)
    (hsrc : ∀ s, s ≠ p → (e.sessions s).active = true →
      ((e'.sessions s).active = true ∧ (e'.sessions s).port = (e.sessions s).port ∧
        ∀ k, k ∉ due → k.call.isEmpty = false → (e.offer s k).isSome = true →
          (e'.offer s k).isSome = true) ∨
      ∀ k, k.call.isEmpty = false → (e.offer s k).isSome = true → k ∈ due) :
    e.KeepsSources e' p due := by
  rintro k hk hcall ⟨hnot, s, hmay, hoffer⟩
  refine ⟨by rw [hself, hnot], s, ?_⟩
  simp only [maySource, Bool.and_eq_true, decide_eq_true_eq] at hmay ⊢
  rcases hsrc s hmay.1.1 hmay.1.2 with ⟨hup, hsport, hkeep⟩ | hdue
  · refine ⟨⟨⟨hmay.1.1, hup⟩, ?_⟩, hkeep k hk hcall hoffer⟩
    rw [hcfg, hsport, hport]
    exact hmay.2
  · exact absurd (hdue k hcall hoffer) hk

theorem Alike.keepsSources (h : e.Alike e') (hup : (e.sessions p).active = true) :
    e.KeepsSources e' p [] :=
  keepsSources_of h.cfg (h.source p hup).port ((h.source p hup).destIsSessionPeer (h.active p))
    fun s _ hs => .inl ⟨(h.active s).trans hs, (h.source s hs).port,
      fun _ _ _ => (h.source s hs).offer (h.active s)⟩

theorem Alike.linked (h : e.Alike e') (hl : e.Linked p) : e'.Linked p := fun hup => by
  rw [h.active] at hup
  rw [(h.source p hup).link]
  exact hl hup

end Env

/-! ## Evolution -/

namespace Node

/-- One peer as its machine sees it, with no check due. -/
def view (n : Node) (p : Slot) : View := ⟨n.toEnv, n.peers p, []⟩

/-- Every session that is up has a link row. -/
def Linked (n : Node) : Prop := ∀ p, n.toEnv.Linked p

/-- The node moved by steps of every peer's machine. -/
def Evolves (n m : Node) : Prop :=
  n.Linked → m.Linked ∧ ∀ p, ∃ acts, PeerRun p (n.view p) acts (m.view p)

/-- The node moved by steps of every peer's machine that pass its gates, where `g`; the latch of
peer `p` is lifted while its session is up only where `R p`. -/
def Advances (g : Prop) (R : Slot → Prop) (n m : Node) : Prop :=
  n.Linked → m.Linked ∧ ∀ p, ∃ acts, GatedRun g (R p) p (n.view p) acts (m.view p)

variable {g : Prop} {R : Slot → Prop} {n m o : Node} {p s : Slot} {k : Key}

theorem Advances.evolves (h : n.Advances g R m) : n.Evolves m := fun hn => by
  obtain ⟨hm, hrun⟩ := h hn
  refine ⟨hm, fun p => ?_⟩
  obtain ⟨acts, hacts⟩ := hrun p
  exact ⟨acts, hacts.peerRun⟩

theorem Evolves.refl (n : Node) : n.Evolves n := fun h => ⟨h, fun _ => ⟨[], .start⟩⟩

theorem Evolves.trans (h₁ : n.Evolves m) (h₂ : m.Evolves o) : n.Evolves o := fun hn => by
  obtain ⟨hm, hrun₁⟩ := h₁ hn
  obtain ⟨ho, hrun₂⟩ := h₂ hm
  refine ⟨ho, fun p => ?_⟩
  obtain ⟨as, has⟩ := hrun₁ p
  obtain ⟨bs, hbs⟩ := hrun₂ p
  exact ⟨as ++ bs, has.append hbs⟩

/-- Loops evolve when their turns do. -/
theorem Evolves.foldl {α : Type*} {body : Node → α → Node}
    (h : ∀ (n : Node) a, n.Evolves (body n a))
    (l : List α) (n : Node) : n.Evolves (l.foldl body n) := by
  induction l generalizing n with
  | nil => exact .refl n
  | cons a l ih => exact (h n a).trans (ih _)

theorem Advances.refl (n : Node) : n.Advances g R n := fun h => ⟨h, fun _ => ⟨[], .start⟩⟩

theorem Advances.trans (h₁ : n.Advances g R m) (h₂ : m.Advances g R o) : n.Advances g R o :=
  fun hn => by
    obtain ⟨hm, hrun₁⟩ := h₁ hn
    obtain ⟨ho, hrun₂⟩ := h₂ hm
    refine ⟨ho, fun p => ?_⟩
    obtain ⟨as, has⟩ := hrun₁ p
    obtain ⟨bs, hbs⟩ := hrun₂ p
    exact ⟨as ++ bs, has.append hbs⟩

/-- Loops advance when their turns do. -/
theorem Advances.foldl {α : Type*} {body : Node → α → Node}
    (h : ∀ (n : Node) a, n.Advances g R (body n a))
    (l : List α) (n : Node) : n.Advances g R (l.foldl body n) := by
  induction l generalizing n with
  | nil => exact .refl n
  | cons a l ih => exact (h n a).trans (ih _)

/-- A branch advances when both sides do. -/
theorem Advances.ite {c : Prop} [Decidable c] (h₁ : n.Advances g R m) (h₂ : n.Advances g R o) :
    n.Advances g R (if c then m else o) := by
  split_ifs
  exacts [h₁, h₂]

/-- A branch advances when each side does under its condition. -/
theorem Advances.dite {c : Prop} [Decidable c] (h₁ : c → n.Advances g R m)
    (h₂ : ¬ c → n.Advances g R o) : n.Advances g R (if c then m else o) := by
  split_ifs with h
  exacts [h₁ h, h₂ h]

/-- Nothing a peer's machine sees has changed. -/
theorem Advances.of_eq (henv : m.toEnv = n.toEnv) (hpeers : m.peers = n.peers) :
    n.Advances g R m := fun hn => by
  refine ⟨fun p => henv ▸ hn p, fun p => ⟨[], ?_⟩⟩
  rw [show m.view p = n.view p by rw [view, view, henv, hpeers]]
  exact .start

/-- The session of a peer stays what it was. -/
theorem stays_of_eq (h : m.sessions p = n.sessions p) :
    (n.view p).Stays p m.toEnv := fun hup _ => by
  rw [h] at hup ⊢
  exact ⟨hup, id⟩

/-- The tables move and every session offers what it offered. -/
theorem Advances.alike (henv : n.toEnv.Alike m.toEnv) (hpeers : m.peers = n.peers)
    (hstay : ∀ p, g → (n.view p).Stays p m.toEnv) : n.Advances g R m := fun hn => by
  refine ⟨fun p => henv.linked (hn p), fun p =>
    ⟨_, .one (a := .tables m.toEnv []) ⟨?_, hstay p⟩ ?_⟩⟩
  · refine ⟨henv.cfg, henv.now, henv.linked (hn p), fun _ hup => .inr ?_⟩
    rw [henv.active] at hup
    exact ⟨hup, henv.keepsSources hup⟩
  · simp [view, View.apply, hpeers]

/-- Names change. -/
theorem Advances.rename (henv : n.toEnv.Renamed m.toEnv) (hlinked : n.Linked → m.Linked)
    (hpeers : m.peers = n.peers) (hstay : ∀ p, g → (n.view p).Stays p m.toEnv) :
    n.Advances g R m := fun hn =>
  ⟨hlinked hn, fun p => ⟨_, .one (a := .rename m.toEnv) ⟨⟨henv, hlinked hn p⟩, hstay p⟩
    (by simp [view, View.apply, hpeers])⟩⟩

/-- One peer changes by a run of its machine. -/
theorem Advances.setPeer {x : Peer}
    (h : ∃ acts, GatedRun g (R p) p (n.view p) acts ⟨n.toEnv, x, []⟩) :
    n.Advances g R (n.setPeer p x) :=
  fun hn => by
    refine ⟨hn, fun q => ?_⟩
    by_cases hq : q = p
    · subst hq
      simpa [view] using h
    · refine ⟨[], ?_⟩
      rw [show (n.setPeer p x).view q = n.view q by
        rw [view, view, setPeer_peers_of_ne n x hq, setPeer_toEnv]]
      exact .start

/-! ## What the node does to one peer -/

theorem advances_drain (n : Node) (p : Slot) : n.Advances g R (n.flexAdvertiseDrain p) :=
  .setPeer (Env.drain_run n.toEnv p (n.peers p))

theorem advances_send (n : Node) (p : Slot) {pid : UInt8} {data : CStr}
    (h : (n.view p).Allowed g (R p) p (.send pid data)) :
    n.Advances g R (n.flexSendFrame p pid data) :=
  .setPeer (Env.send_run n.toEnv p (n.peers p) h)

/-- A frame without records that is no end-of-batch may be sent at any time. -/
theorem advances_send_of_nil (n : Node) (p : Slot) {pid : UInt8} {data : CStr}
    (hrec : pid = pidCE → frameRecords n.cfg data = [])
    (htoken : pid = pidCE → data ≠ releaseToken) :
    n.Advances g R (n.flexSendFrame p pid data) := by
  refine advances_send n p ⟨fun hpid r hr => ?_, fun _ hpid =>
    ⟨fun hne => absurd (hrec hpid) hne, fun h => absurd h (htoken hpid)⟩⟩
  rw [show (n.view p).env.cfg = n.cfg from rfl, hrec hpid] at hr
  cases hr

/-- A frame that is no record frame may be sent at any time. -/
theorem advances_send_of_ne (n : Node) (p : Slot) {pid : UInt8} {data : CStr}
    (h : data.head? ≠ some 0x33) : n.Advances g R (n.flexSendFrame p pid data) :=
  advances_send_of_nil n p (fun _ => Env.frameRecords_of_ne h) fun _ htoken =>
    h (by rw [htoken]; rfl)

theorem advances_ownRoutes (n : Node) (p : Slot) (deferEob : Bool)
    (hown : g → (n.sessions p).active = true ∧
      ((n.sessions p).sentRoutes = false ∨ n.cfg.recordsAllowed (n.peers p) = true))
    (heob : g → deferEob = false → (n.sessions p).sentRoutes = false ∨
      n.cfg.transit = false ∨ (n.peers p).adv.eobPending = false) :
    n.Advances g R (n.flexSendOwnRoutes p deferEob) :=
  .setPeer (Env.ownRoutes_run n.toEnv p (n.peers p) deferEob hown heob)

theorem advances_walk (n : Node) (p : Slot) (directOnly force : Bool) :
    n.Advances g R (n.flexAdvertiseWalkForPeer p directOnly force).1 :=
  .setPeer (Env.walk_run n.toEnv p (n.peers p) directOnly force)

theorem advances_clear (n : Node) (p : Slot) (h : g → R p ∨ (n.sessions p).active = false) :
    n.Advances g R (n.clearAdvertised p) :=
  .setPeer ⟨_, .one (a := .clear) ⟨trivial, h⟩ rfl⟩

/-- The quiesce latch of a peer is lifted. -/
theorem advances_release (n : Node) (p : Slot) (h : g → R p ∨ (n.sessions p).active = false) :
    n.Advances g R (n.setPeer p { n.peers p with pcfQuiesced := false, quiescedSince := 0 }) :=
  .setPeer ⟨_, .one (a := .release) ⟨trivial, h⟩ rfl⟩

theorem advances_owe (n : Node) (p : Slot)
    (h : g → R p ∧ n.cfg.transit = true ∧ (n.sessions p).answered = true) :
    n.Advances g R
      (n.setPeer p { n.peers p with adv := { (n.peers p).adv with eobPending := true } }) :=
  .setPeer ⟨_, .one (a := .owe) ⟨trivial, h⟩ rfl⟩

/-- A learned table changes, and the session that is up still offers what it offered. -/
theorem advances_setLearned (n : Node) {s : Slot} {st : LearnedState}
    (h : (n.sessions s).active = true → ∀ k,
      (st.find k).map (fun lr => (lr.rttAtNeighbour, lr.isDirectNeighbour)) =
        ((n.learned s).find k).map fun lr => (lr.rttAtNeighbour, lr.isDirectNeighbour)) :
    n.Advances g R (n.setLearned s st) := by
  refine .alike ⟨rfl, le_rfl, fun _ => rfl, fun p hp => ⟨rfl, rfl, rfl, rfl, fun k => ?_⟩⟩ rfl
    fun _ _ => stays_of_eq rfl
  by_cases hps : p = s
  · subst hps
    simpa [setLearned] using h hp k
  · simp [setLearned, Function.update_of_ne hps]

theorem setSession_sessions (n : Node) (s : Slot) (x : Session) (p : Slot) :
    (n.setSession s x).sessions p = if p = s then x else n.sessions p := by
  by_cases hps : p = s <;> simp [setSession, hps]

/-- A session changes, does not come up, and an answer of it that is owed stays answered. -/
theorem stays_setSession {x : Session} (hactive : x.active = (n.sessions s).active)
    (hans : (n.view s).Owed → (n.sessions s).answered = true → x.answered = true) (p : Slot) :
    (n.view p).Stays p (n.setSession s x).toEnv := by
  by_cases hps : p = s
  · subst hps
    intro hup howed
    rw [setSession_sessions_self] at hup ⊢
    exact ⟨hactive.symm.trans hup, hans howed⟩
  · exact stays_of_eq (by rw [setSession_sessions, if_neg hps])

/-- A session that keeps its port and its row offers what it offered. -/
theorem alike_setSession {x : Session} (hkept : x.active = (n.sessions s).active ∧
    x.port = (n.sessions s).port ∧ x.link = (n.sessions s).link) :
    n.toEnv.Alike (n.setSession s x).toEnv := by
  obtain ⟨hactive, hport, hlink⟩ := hkept
  refine ⟨rfl, le_rfl, fun p => ?_, fun p hp => ?_⟩
  · rw [setSession_sessions]
    split_ifs with hps
    · exact hps ▸ hactive
    · rfl
  · have hsess : ((n.setSession s x).sessions p).port = (n.sessions p).port ∧
        ((n.setSession s x).sessions p).link = (n.sessions p).link := by
      rw [setSession_sessions]
      split_ifs with hps
      · subst hps
        exact ⟨hport, hlink⟩
      · exact ⟨rfl, rfl⟩
    refine ⟨hsess.1, by rw [hsess.2], ?_, rfl, fun _ => rfl⟩
    simp only [Env.sessPeerCall, hsess.2]
    rfl

/-- A session changes, and keeps its port and its row. -/
theorem advances_setSession (n : Node) {s : Slot} {x : Session}
    (hkept : x.active = (n.sessions s).active ∧ x.port = (n.sessions s).port ∧
      x.link = (n.sessions s).link)
    (hans : (n.view s).Owed → (n.sessions s).answered = true → x.answered = true) :
    n.Advances g R (n.setSession s x) :=
  .alike (alike_setSession hkept) rfl fun p _ => stays_setSession hkept.1 hans p

/-- A session changes in a field no rule reads. -/
theorem advances_touchSession (n : Node) {s : Slot} {x : Session}
    (hkept : x.active = (n.sessions s).active ∧ x.port = (n.sessions s).port ∧
      x.link = (n.sessions s).link ∧ x.answered = (n.sessions s).answered) :
    n.Advances g R (n.setSession s x) :=
  advances_setSession n ⟨hkept.1, hkept.2.1, hkept.2.2.1⟩ fun _ h => hkept.2.2.2.trans h

/-- A session that is down changes and stays down. -/
theorem advances_setSession_down (n : Node) {s : Slot} {x : Session}
    (hdown : (n.sessions s).active = false) (hx : x.active = false) :
    n.Advances g R (n.setSession s x) := by
  refine .alike ⟨rfl, le_rfl, fun p => ?_, fun p hp => ?_⟩ rfl fun p _ => ?_
  · rw [setSession_sessions]
    split_ifs with hps
    · rw [hps, hx, hdown]
    · rfl
  · have hps : p ≠ s := fun hps => by
      rw [hps, hdown] at hp
      cases hp
    constructor <;> simp [Env.sessPeerCall, setSession, Function.update_of_ne hps]
  · by_cases hps : p = s
    · subst hps
      intro hup
      rw [setSession_sessions_self, hx] at hup
      cases hup
    · exact stays_of_eq (by rw [setSession_sessions, if_neg hps])

/-- A session that is up is moved to another row. -/
theorem advances_relink (n : Node) {s : Slot} {x : Session}
    (hactive : x.active = (n.sessions s).active) (hport : x.port = (n.sessions s).port)
    (hlinkTime : x.ourLinkTime = (n.sessions s).ourLinkTime) (hlink : x.link.isSome = true)
    (hans : x.answered = (n.sessions s).answered) : n.Advances g R (n.setSession s x) := by
  refine .rename ⟨rfl, rfl, fun p => ?_, fun p => ?_, fun p => ?_, rfl, fun _ _ => rfl⟩
    (fun hn p hup => ?_) rfl fun p _ => stays_setSession hactive (fun _ h => hans.trans h) p
  · rw [setSession_sessions]
    split_ifs with h
    exacts [h ▸ hactive, rfl]
  · rw [setSession_sessions]
    split_ifs with h
    exacts [h ▸ hport, rfl]
  · rw [setSession_sessions]
    split_ifs with h
    exacts [h ▸ hlinkTime, rfl]
  · rw [setSession_sessions] at hup ⊢
    split_ifs at hup ⊢
    exacts [hlink, hn p hup]

/-- A row changes, and no station with it. -/
theorem advances_setLink_of_call (n : Node) {l : LinkId} {x : Link}
    (h : x.linkCall = (n.links l).linkCall) : n.Advances g R (n.setLink l x) := by
  refine .alike ⟨rfl, le_rfl, fun _ => rfl, fun p _ => ⟨rfl, rfl, ?_, rfl, fun _ => rfl⟩⟩ rfl
    fun _ _ => stays_of_eq rfl
  unfold Env.sessPeerCall
  simp only [setLink]
  split
  · rfl
  · rename_i l' _
    by_cases hl : l' = l
    · subst hl
      rw [Function.update_self, h]
    · rw [Function.update_of_ne hl]

/-- A row changes. -/
theorem advances_setLink (n : Node) (l : LinkId) (x : Link) : n.Advances g R (n.setLink l x) :=
  .rename ⟨rfl, rfl, fun _ => rfl, fun _ => rfl, fun _ => rfl, rfl, fun _ _ => rfl⟩
    (fun hn => hn) rfl fun _ _ => stays_of_eq rfl

/-! ## Triggers -/

/-- Checks of one peer, as a change of that peer. -/
theorem foldl_check (keys : List Key) (force : Bool) (n : Node) (p : Slot) :
    keys.foldl (fun n k => n.flexAdvertiseCheck p k force) n =
      n.setPeer p (keys.foldl (fun x k => n.toEnv.flexAdvertiseCheck p k force x) (n.peers p)) := by
  induction keys generalizing n with
  | nil => simp
  | cons k keys ih =>
      rw [List.foldl_cons, ih, List.foldl_cons]
      simp [flexAdvertiseCheck, Node.setPeer]

/-- The trigger loop, peer by peer. -/
theorem triggerPeersAll_peers (n : Node) (s : Slot) (keys : List Key) :
    (n.triggerPeersAll s keys).toEnv = n.toEnv ∧ ∀ p, (n.triggerPeersAll s keys).peers p =
      if p = s ∨ (n.sessions p).active = false then n.peers p
      else n.toEnv.flexAdvertiseDrain p
        (keys.foldl (fun x k => n.toEnv.flexAdvertiseCheck p k false x) (n.peers p)) := by
  set body : Node → Slot → Node := fun n pi =>
    if pi = s ∨ (n.sessions pi).active = false then n
    else
      (keys.foldl (fun n k => n.flexAdvertiseCheck pi k false) n).flexAdvertiseDrain pi with hbody
  have henv : ∀ m p, m.toEnv = n.toEnv → (body m p).toEnv = n.toEnv := fun m p hm => by
    simp only [hbody, foldl_check]
    split_ifs
    · exact hm
    · simpa [flexAdvertiseDrain] using hm
  refine ⟨Sweep.foldl_keeps (P := fun m : Node => m.toEnv = n.toEnv) henv slots rfl, fun p => ?_⟩
  have hview := Sweep.foldl_view (v := fun m : Node => m.peers) (f := body)
    (g := fun p x => if p = s ∨ (n.sessions p).active = false then x
      else n.toEnv.flexAdvertiseDrain p
        (keys.foldl (fun x k => n.toEnv.flexAdvertiseCheck p k false x) x))
    (P := fun m : Node => m.toEnv = n.toEnv) henv
    (fun m p hm => by
      simp only [hbody, foldl_check, hm]
      split_ifs
      · rfl
      · simp [flexAdvertiseDrain, hm])
    (fun m p q hm hq => by
      simp only [hbody, foldl_check]
      split_ifs
      · rfl
      · simp [flexAdvertiseDrain, Function.update_of_ne hq])
    nodup_slots (s := n) rfl p
  simpa [triggerPeersAll, hbody] using hview

/-- A trigger with nothing moved. -/
theorem advances_triggerPeersAll (n : Node) (s : Slot) (keys : List Key) :
    n.Advances g R (n.triggerPeersAll s keys) := fun hn => by
  obtain ⟨henv, hpeers⟩ := triggerPeersAll_peers n s keys
  refine ⟨fun p => henv ▸ hn p, fun p => ?_⟩
  rw [view, view, henv, hpeers]
  split_ifs
  · exact ⟨[], .start⟩
  · obtain ⟨as, has⟩ := Env.checks_run n.toEnv p (n.peers p) keys [] false
    obtain ⟨bs, hbs⟩ := Env.drain_run n.toEnv p
      (keys.foldl (fun x k => n.toEnv.flexAdvertiseCheck p k false x) (n.peers p))
    exact ⟨as ++ bs, has.append hbs⟩

/-- The checks of the poison walk, peer by peer. -/
theorem poisonChecks_peers (n : Node) (s : Slot) (keys : List Key) :
    let m := keys.foldl (fun n k => slots.foldl (fun n pi =>
      if pi = s ∨ (n.sessions pi).active = false then n
      else n.flexAdvertiseCheck pi k false) n) n
    m.toEnv = n.toEnv ∧ ∀ p, m.peers p =
      if p = s ∨ (n.sessions p).active = false then n.peers p
      else keys.foldl (fun x k => n.toEnv.flexAdvertiseCheck p k false x) (n.peers p) := by
  dsimp only
  induction keys generalizing n with
  | nil => exact ⟨rfl, fun p => by simp⟩
  | cons k keys ih =>
      set body : Node → Slot → Node := fun n pi =>
        if pi = s ∨ (n.sessions pi).active = false then n
        else n.flexAdvertiseCheck pi k false with hbody
      have henv : ∀ m p, m.toEnv = n.toEnv → (body m p).toEnv = n.toEnv := fun m p hm => by
        simp only [hbody]
        split_ifs
        · exact hm
        · simpa [flexAdvertiseCheck] using hm
      have hturn : (slots.foldl body n).toEnv = n.toEnv :=
        Sweep.foldl_keeps (P := fun m : Node => m.toEnv = n.toEnv) henv slots rfl
      obtain ⟨hrest, hpeers⟩ := ih (slots.foldl body n)
      refine ⟨hrest.trans hturn, fun p => ?_⟩
      have hview := Sweep.foldl_view (v := fun m : Node => m.peers) (f := body)
        (g := fun p x => if p = s ∨ (n.sessions p).active = false then x
          else n.toEnv.flexAdvertiseCheck p k false x)
        (P := fun m : Node => m.toEnv = n.toEnv) henv
        (fun m p hm => by
          simp only [hbody, hm]
          split_ifs
          · rfl
          · simp [flexAdvertiseCheck, hm])
        (fun m p q hm hq => by
          simp only [hbody]
          split_ifs
          · rfl
          · simp [flexAdvertiseCheck, Function.update_of_ne hq])
        nodup_slots (s := n) rfl p
      rw [if_pos (mem_slots p)] at hview
      rw [List.foldl_cons, hpeers, hturn, hview]
      split_ifs <;> rfl

end Node

/-! ## Moves that take sources away -/

namespace Env

variable {e e' : Env} {s p : Slot} {k : Key}

/-- The tables moved, and every session but `s` offers what it offered. -/
structure AlikeExcept (e e' : Env) (s : Slot) : Prop where
  cfg : e'.cfg = e.cfg
  now : e'.now = e.now
  active : ∀ p, p ≠ s → (e'.sessions p).active = (e.sessions p).active
  source : ∀ p, p ≠ s → (e.sessions p).active = true → e.SameSource e' p

/-- A walk over a learned table visits everything the session offers. -/
theorem mem_keys_of_offer (hk : k.call.isEmpty = false) (hoffer : (e.offer s k).isSome = true) :
    k ∈ (e.learned s).keys := by
  obtain ⟨rtt, hfind, -⟩ := (offer_isSome_iff.mp hoffer).1
  obtain ⟨lr, hlr, -⟩ := Option.map_eq_some_iff.mp hfind
  rw [LearnedState.keys, List.mem_filter]
  exact ⟨List.mem_map.mpr
    ⟨lr, KeyedTable.mem_of_lookup hlr, KeyedTable.lookup_key hlr⟩, by simp [hk]⟩

/-- What session `s` offered it still offers, but for the destinations of `due`. -/
def KeepsOffers (e e' : Env) (s : Slot) (due : List Key) : Prop :=
  (e.sessions s).active = true →
    ((e'.sessions s).active = true ∧ (e'.sessions s).port = (e.sessions s).port ∧
      ∀ k, k ∉ due → k.call.isEmpty = false → (e.offer s k).isSome = true →
        (e'.offer s k).isSome = true) ∨
    ∀ k, k.call.isEmpty = false → (e.offer s k).isSome = true → k ∈ due

/-- The other peers lose no source but for the destinations of `due`. -/
theorem AlikeExcept.keepsSources {due : List Key} (h : e.AlikeExcept e' s)
    (hdue : e.KeepsOffers e' s due) (hp : p ≠ s) (hup : (e.sessions p).active = true) :
    e.KeepsSources e' p due :=
  keepsSources_of h.cfg (h.source p hp hup).port
    ((h.source p hp hup).destIsSessionPeer (h.active p hp)) fun si _ hsi => by
      by_cases hs : si = s
      · exact hs ▸ hdue (hs ▸ hsi)
      · exact .inl ⟨(h.active si hs).trans hsi, (h.source si hs hsi).port,
          fun _ _ _ => (h.source si hs hsi).offer (h.active si hs)⟩

/-- Session `s` itself loses no source while it is named as it was. -/
theorem AlikeExcept.keepsSources_self (h : e.AlikeExcept e' s)
    (hport : (e'.sessions s).port = (e.sessions s).port)
    (hself : ∀ k, e'.destIsSessionPeer s k = e.destIsSessionPeer s k) :
    e.KeepsSources e' s [] :=
  keepsSources_of h.cfg hport hself fun si hsi hup =>
    .inl ⟨(h.active si hsi).trans hup, (h.source si hsi hup).port,
      fun _ _ _ => (h.source si hsi hup).offer (h.active si hsi)⟩

theorem AlikeExcept.linked (h : e.AlikeExcept e' s) (hp : p ≠ s) (hl : e.Linked p) :
    e'.Linked p := fun hup => by
  rw [h.active p hp] at hup
  rw [(h.source p hp hup).link]
  exact hl hup

end Env

namespace Node

variable {g : Prop} {R : Slot → Prop} {n m o : Node} {p s : Slot} {k : Key} {keys : List Key}

/-- Session `s` may move as the tables allow: it is down, it holds nothing, or it keeps its own
name and port. -/
def MayMove (n m : Node) (s : Slot) : Prop :=
  (m.sessions s).active = true → (n.peers s).adv.advs = [] ∨
    ((n.sessions s).active = true ∧ (m.sessions s).port = (n.sessions s).port ∧
      ∀ k, m.destIsSessionPeer s k = n.destIsSessionPeer s k)

/-- The tables move at session `s`, and the run of every other peer begins with its checks due. -/
theorem tables_run (henv : n.toEnv.AlikeExcept m.toEnv s) (hlinked : m.toEnv.Linked s)
    (hmay : n.MayMove m s) (hdue : m.cfg.transit = true → n.toEnv.KeepsOffers m.toEnv s keys)
    (hstay : ∀ p, g → (n.view p).Stays p m.toEnv) (hn : n.Linked) (p : Slot) :
    GatedRun g (R p) p (n.view p)
      [.tables m.toEnv (if p = s ∨ (m.sessions p).active = false then [] else keys)]
      ⟨m.toEnv, n.peers p, if p = s ∨ (m.sessions p).active = false then [] else keys⟩ := by
  refine .one ⟨⟨henv.cfg, henv.now.ge, ?_, fun htransit hup => ?_⟩, hstay p⟩
    (by simp [view, View.apply])
  · by_cases hp : p = s
    · exact hp ▸ hlinked
    · exact henv.linked hp (hn p)
  · by_cases hp : p = s
    · subst hp
      rw [if_pos (.inl rfl)]
      rcases hmay hup with hempty | ⟨hup', hport, hself⟩
      · exact .inl hempty
      · exact .inr ⟨hup', henv.keepsSources_self hport hself⟩
    · have hup' : (n.sessions p).active = true := (henv.active p hp).symm.trans hup
      rw [if_neg (by simp [hp, hup])]
      exact .inr ⟨hup', henv.keepsSources (hdue htransit) hp hup'⟩

/-- The tables move at session `s`, which loses no offer. -/
theorem Advances.tables (henv : n.toEnv.AlikeExcept m.toEnv s) (hlinked : m.toEnv.Linked s)
    (hmay : n.MayMove m s) (hdue : m.cfg.transit = true → n.toEnv.KeepsOffers m.toEnv s [])
    (hpeers : m.peers = n.peers) (hstay : ∀ p, g → (n.view p).Stays p m.toEnv) :
    n.Advances g R m := fun hn => by
  refine ⟨fun p => ?_, fun p => ?_⟩
  · by_cases hp : p = s
    · exact hp ▸ hlinked
    · exact henv.linked hp (hn p)
  · have hrun := tables_run (R := R) henv hlinked hmay hdue hstay hn p
    rw [ite_self] at hrun
    exact ⟨_, by simpa [view, hpeers] using hrun⟩

/-- The tables move at a session that is down and stays so. -/
theorem Advances.down (henv : n.toEnv.AlikeExcept m.toEnv s) (hdown : (n.sessions s).active = false)
    (hdown' : (m.sessions s).active = false) (hpeers : m.peers = n.peers)
    (hstay : ∀ p, g → (n.view p).Stays p m.toEnv) : n.Advances g R m :=
  .tables henv (fun hup => by rw [hdown'] at hup; cases hup)
    (fun hup => by rw [hdown'] at hup; cases hup)
    (fun _ hup => by rw [hdown] at hup; cases hup) hpeers hstay

/-- A session that was down and whose peer holds nothing comes up. -/
theorem advances_activate (n : Node) {s : Slot} {x : Session}
    (hdown : (n.sessions s).active = false)
    (hempty : (n.peers s).adv = {}) (hreleased : (n.peers s).pcfQuiesced = false)
    (hlink : x.link.isSome = true) : n.Advances g R (n.setSession s x) := by
  refine .tables (s := s) ⟨rfl, rfl, fun p hp => ?_, fun p hp _ => ?_⟩ (fun _ => ?_)
    (fun _ => .inl (by rw [hempty])) (fun _ hup => ?_) rfl fun p _ => ?_
  · simp [setSession, Function.update_of_ne hp]
  · constructor <;> simp [setSession, Env.sessPeerCall, Function.update_of_ne hp]
  · simpa [setSession] using hlink
  · rw [hdown] at hup
    cases hup
  · by_cases hp : p = s
    · subst hp
      intro _ howed
      simp [View.Owed, view, hempty, hreleased] at howed
    · exact stays_of_eq (by rw [setSession_sessions, if_neg hp])

/-- The tables move at session `s`, and the trigger loop visits what it does not offer any
more. -/
theorem Advances.triggered (henv : n.toEnv.AlikeExcept m.toEnv s) (hlinked : m.toEnv.Linked s)
    (hmay : n.MayMove m s) (hdue : m.cfg.transit = true → n.toEnv.KeepsOffers m.toEnv s keys)
    (hpeers : m.peers = n.peers) (hstay : ∀ p, g → (n.view p).Stays p m.toEnv) :
    n.Advances g R (m.triggerPeersAll s keys) := fun hn => by
  obtain ⟨henv', hpeers'⟩ := triggerPeersAll_peers m s keys
  refine ⟨fun p => ?_, fun p => ?_⟩
  · rw [henv']
    by_cases hp : p = s
    · exact hp ▸ hlinked
    · exact henv.linked hp (hn p)
  · have hrun := tables_run (R := R) henv hlinked hmay hdue hstay hn p
    rw [view, view, henv', hpeers', hpeers]
    split_ifs at hrun ⊢ with hp
    · exact ⟨_, hrun⟩
    · obtain ⟨as, has⟩ := Env.checks_run m.toEnv p (n.peers p) keys keys false
      obtain ⟨bs, hbs⟩ := Env.drain_run m.toEnv p
        (keys.foldl (fun x k => m.toEnv.flexAdvertiseCheck p k false x) (n.peers p))
      have hnone : keys.filter (· ∉ keys) = [] := by simp
      rw [hnone] at has
      exact ⟨_, (hrun.append has).append hbs⟩

/-- Session `s` goes down, and the poison walk visits everything it taught. -/
theorem Advances.poisoned (henv : n.toEnv.AlikeExcept m.toEnv s)
    (hdown : (m.sessions s).active = false) (hlearned : m.learned s = n.learned s)
    (hpeers : m.peers = n.peers) (hstay : ∀ p, g → (n.view p).Stays p m.toEnv) :
    n.Advances g R (m.flexAdvertisePoisonSession s) := by
  have hlinked : m.toEnv.Linked s := fun hup => by rw [hdown] at hup; cases hup
  have hmay : n.MayMove m s := fun hup => by rw [hdown] at hup; cases hup
  have hdue :
      n.toEnv.KeepsOffers m.toEnv s (m.learned s).keys := fun _ => .inr fun k hk hoffer => by
    rw [hlearned]
    exact Env.mem_keys_of_offer hk hoffer
  unfold flexAdvertisePoisonSession
  split_ifs with htransit
  · exact .tables henv hlinked hmay (fun h => by simp [h] at htransit) hpeers hstay
  · obtain ⟨henv', hpeers'⟩ := poisonChecks_peers m s (m.learned s).keys
    dsimp only at henv' hpeers' ⊢
    generalize (m.learned s).keys.foldl _ m = m' at henv' hpeers' ⊢
    have hchecked : n.Advances g R m' := fun hn => by
      refine ⟨fun p => ?_, fun p => ?_⟩
      · rw [henv']
        by_cases hp : p = s
        · exact hp ▸ hlinked
        · exact henv.linked hp (hn p)
      · have hrun := tables_run (R := R) henv hlinked hmay (fun _ => hdue) hstay hn p
        rw [view, view, henv', hpeers', hpeers]
        split_ifs at hrun ⊢ with hp
        · exact ⟨_, hrun⟩
        · obtain ⟨as, has⟩ := Env.checks_run m.toEnv p (n.peers p) (m.learned s).keys
            (m.learned s).keys false
          have hnone : (m.learned s).keys.filter (· ∉ (m.learned s).keys) = [] := by simp
          rw [hnone] at has
          exact ⟨_, hrun.append has⟩
    have hdrained : m'.Advances g R (slots.foldl (fun n pi =>
        if (n.sessions pi).active = false then n else n.flexAdvertiseDrain pi) m') :=
      .foldl (fun n pi => by split_ifs; exacts [.refl n, advances_drain n pi]) slots m'
    have hsame : (slots.foldl (fun n pi =>
        if (n.sessions pi).active = false then n else n.flexAdvertiseDrain pi) m').toEnv =
          m.toEnv :=
      Sweep.foldl_keeps (P := fun o : Node => o.toEnv = m.toEnv)
        (fun o pi ho => by split_ifs <;> exact ho) slots henv'
    refine hchecked.trans (hdrained.trans (.trans (advances_setLearned _ ?_)
      (advances_clear _ s fun _ => .inr ?_)))
    · exact fun _ _ => rfl
    · exact (congrArg (fun e : Env => (e.sessions s).active) hsame).trans hdown

end Node

end FlexNet
