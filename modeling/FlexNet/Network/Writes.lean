import FlexNet.Exchange.Restarted
import FlexNet.Exchange.Understood
import FlexNet.Links.Timers

/-!
# The node as one machine

Every function of the node is a sequence of few kinds of writes to the tables its costs depend on:
the link rows, what the sessions declared, the learned tables, and what each peer is told.  `Write`
lists them with what is known where they are made, and `event_writes` shows that every event of the
node is a sequence of writes.  Unlike the moves of the routes and the acts of one peer, the writes
keep the learned tables and the peers together, so an invariant may relate what the node heard to
what it tells.
-/

namespace FlexNet

/-- The cost a learned table holds for a destination. -/
def LearnedState.cost (st : LearnedState) (k : Key) : Option ℤ :=
  (st.find k).map LearnedRoute.rttAtNeighbour

namespace Node

/-! ## Writes -/

/-- Nothing that costs depend on has changed. -/
structure SameCosts (n m : Node) : Prop where
  cfg : m.cfg = n.cfg
  linkCall : ∀ l, (m.links l).linkCall = (n.links l).linkCall
  declared : m.portLinks.map PortLink.axcall = n.portLinks.map PortLink.axcall
  active : ∀ s, (m.sessions s).active = (n.sessions s).active
  peerMaxSsid : ∀ s, (m.sessions s).peerMaxSsid = (n.sessions s).peerMaxSsid
  routes : ∀ s, (m.learned s).routes = (n.learned s).routes
  peers : ∀ p, (m.peers p).adv.advs = (n.peers p).adv.advs ∧ (m.peers p).wire = (n.peers p).wire

/-- What is known of an event: the records of its frame, at the session it is for, and the sessions
it takes down. -/
structure Scope where
  event : Event
  heard : Slot → List Record
  closes : Slot → Prop

/-- The record is heard at a session: it was in the frame received, or it is the station's own
entry. -/
def Hears (n : Node) (c : Scope) (s : Slot) (r : Record) : Prop :=
  r ∈ c.heard s ∨ r = ⟨n.neighbourKey s, 1, false⟩

/-- Some learned table has the route's destination at its cost. -/
def InTable (n : Node) (lr : LearnedRoute) : Prop :=
  ∃ i, ∃ lr' ∈ (n.learned i).routes, lr'.key = lr.key ∧ lr'.rttAtNeighbour = lr.rttAtNeighbour

/-- One write of an event. -/
inductive Write (c : Scope) : Node → Node → Prop
  /-- something else -/
  | other {n m : Node} (h : n.SameCosts m) : Write c n m
  /-- a session is written with the highest SSID its peer declared, and stays up if it is -/
  | declare (n : Node) (s : Slot) (x : Session) (h : 0 ≤ x.peerMaxSsid ∧ x.peerMaxSsid ≤ 15)
    (hup : (n.sessions s).active = true → x.active = true) : Write c n (n.setSession s x)
  /-- a session is taken down -/
  | down (n : Node) (s : Slot) (x : Session)
    (h : x.peerMaxSsid = (n.sessions s).peerMaxSsid ∨ 0 ≤ x.peerMaxSsid ∧ x.peerMaxSsid ≤ 15)
    (hcloses : c.closes s) : Write c n (n.setSession s x)
  /-- a row of the link table is written: by BPQ, or by the keeper -/
  | row (n : Node) (l : LinkId) (x : Link)
    (h : c.event = .row l x ∨ ∃ pl ∈ n.portLinks, x.linkCall = pl.axcall) :
    Write c n (n.setLink l x)
  /-- a record is heard -/
  | hear (n : Node) (s : Slot) (st : LearnedState) (r : Record) (h : n.Hears c s r)
    (hcall : r.key.call.isEmpty = false)
    (hroutes : ∀ lr ∈ st.routes, n.InTable lr ∨ (lr.key = r.key ∧ lr.rttAtNeighbour = r.rtt))
    (hcosts : ∀ k ≠ r.key, st.cost k = (n.learned s).cost k) : Write c n (n.setLearned s st)
  /-- the learned table of a session that is down changes hands -/
  | hand (n : Node) (s : Slot) (st : LearnedState) (h : ∀ lr ∈ st.routes, n.InTable lr)
    (hdown : (n.sessions s).active = false) : Write c n (n.setLearned s st)
  /-- a learned table is written, at the costs it has -/
  | keep (n : Node) (s : Slot) (st : LearnedState) (h : ∀ lr ∈ st.routes, n.InTable lr)
    (hcosts : ∀ k, st.cost k = (n.learned s).cost k) : Write c n (n.setLearned s st)
  /-- the decision rule is run for a peer -/
  | check (n : Node) (p : Slot) (k : Key) (force : Bool) :
    Write c n (n.flexAdvertiseCheck p k force)
  /-- a peer's queue is drained -/
  | drain (n : Node) (p : Slot) : Write c n (n.flexAdvertiseDrain p)
  /-- the own frame is sent -/
  | own (n : Node) (p : Slot) (deferEob : Bool) : Write c n (n.flexSendOwnRoutes p deferEob)
  /-- a frame that carries no records is sent -/
  | send (n : Node) (p : Slot) (pid : UInt8) (data : CStr)
    (h : pid = pidCE → data.head? ≠ some 0x33) : Write c n (n.flexSendFrame p pid data)
  /-- a peer's advertised table is cleared -/
  | clear (n : Node) (p : Slot) : Write c n (n.clearAdvertised p)

/-- The writes of an event, from one node to another. -/
def Writes (c : Scope) (n m : Node) : Prop := Relation.ReflTransGen (Write c) n m

variable {c : Scope} {n m o : Node} {s p : Slot} {l : LinkId}

theorem Writes.refl (n : Node) : n.Writes c n := Relation.ReflTransGen.refl

theorem Writes.one (h : n.Write c m) : n.Writes c m := Relation.ReflTransGen.single h

theorem Writes.trans (h : n.Writes c m) (h' : m.Writes c o) : n.Writes c o :=
  Relation.ReflTransGen.trans h h'

/-- What every write of an event preserves, the event preserves. -/
theorem Writes.invariant {I : Node → Prop} (hstep : ∀ n m, I n → n.Write c m → I m)
    (h : n.Writes c m) (hn : I n) : I m := by
  induction h with
  | refl => exact hn
  | tail _ hwrite ih => exact hstep _ _ ih hwrite

theorem Writes.ite {b : Prop} [Decidable b] (h : n.Writes c m) (h' : n.Writes c o) :
    n.Writes c (if b then m else o) := by
  split_ifs
  exacts [h, h']

theorem Writes.foldl_mem {α : Type*} {f : Node → α → Node} {as : List α}
    (h : ∀ (n : Node), ∀ a ∈ as, n.Writes c (f n a)) (n : Node) : n.Writes c (as.foldl f n) := by
  induction as generalizing n with
  | nil => exact .refl n
  | cons a as ih =>
      exact (h n a List.mem_cons_self).trans
        (ih (fun m b hb => h m b (List.mem_cons_of_mem a hb)) _)

theorem Writes.foldl {α : Type*} {f : Node → α → Node} (h : ∀ (n : Node) a, n.Writes c (f n a))
    (as : List α) (n : Node) : n.Writes c (as.foldl f n) :=
  .foldl_mem (fun n a _ => h n a) n

/-- The configuration is not written. -/
theorem Write.cfg (h : n.Write c m) : m.cfg = n.cfg := by
  cases h with
  | other hsame => exact hsame.cfg
  | _ => rfl

theorem Writes.cfg (h : n.Writes c m) : m.cfg = n.cfg :=
  h.invariant (I := fun m => m.cfg = n.cfg) (fun _ _ hm hwrite => hwrite.cfg.trans hm) rfl

/-! ### Writes of something else -/

theorem writes_of_eq (henv : m.toEnv = n.toEnv) (hpeers : m.peers = n.peers)
    (hlinks : m.portLinks = n.portLinks) : n.Writes c m := by
  refine .one (.other ⟨?_, ?_, ?_, ?_, ?_, ?_, ?_⟩)
  · rw [henv]
  · rw [henv]
    exact fun _ => rfl
  · rw [hlinks]
  · rw [henv]
    exact fun _ => rfl
  · rw [henv]
    exact fun _ => rfl
  · rw [henv]
    exact fun _ => rfl
  · rw [hpeers]
    exact fun _ => ⟨rfl, rfl⟩

/-- A session keeps what its peer declared, and stays up or down. -/
theorem writes_setSession (n : Node) {s : Slot} {x : Session}
    (h : x.peerMaxSsid = (n.sessions s).peerMaxSsid ∧ x.active = (n.sessions s).active) :
    n.Writes c (n.setSession s x) := by
  have hsame : ∀ i, ((n.setSession s x).sessions i).active = (n.sessions i).active ∧
      ((n.setSession s x).sessions i).peerMaxSsid = (n.sessions i).peerMaxSsid := by
    intro i
    by_cases hi : i = s
    · subst hi
      rw [setSession_sessions_self]
      exact ⟨h.2, h.1⟩
    · rw [setSession_sessions_of_ne n x hi]
      exact ⟨rfl, rfl⟩
  exact .one (.other ⟨rfl, fun _ => rfl, rfl, fun i => (hsame i).1, fun i => (hsame i).2,
    fun _ => rfl, fun _ => ⟨rfl, rfl⟩⟩)

/-- A row keeps its callsign. -/
theorem writes_setLink (n : Node) {l : LinkId} {x : Link}
    (h : x.linkCall = (n.links l).linkCall) : n.Writes c (n.setLink l x) := by
  refine .one (.other ⟨rfl, fun i => ?_, rfl, fun _ => rfl, fun _ => rfl, fun _ => rfl,
    fun _ => ⟨rfl, rfl⟩⟩)
  by_cases hi : i = l
  · subst hi
    simp [setLink, h]
  · simp [setLink, Function.update_of_ne hi]

/-- A peer's latches and stamps change. -/
theorem writes_setPeer (n : Node) {p : Slot} {x : Peer} (hadvs : x.adv.advs = (n.peers p).adv.advs)
    (hwire : x.wire = (n.peers p).wire) : n.Writes c (n.setPeer p x) := by
  refine .one (.other ⟨rfl, fun _ => rfl, rfl, fun _ => rfl, fun _ => rfl, fun _ => rfl,
    fun i => ?_⟩)
  by_cases hi : i = p
  · subst hi
    rw [setPeer_peers_self]
    exact ⟨hadvs, hwire⟩
  · rw [setPeer_peers_of_ne n x hi]
    exact ⟨rfl, rfl⟩

/-! ### Writes of the learned tables -/

theorem inTable_of_mem (n : Node) {s : Slot} {lr : LearnedRoute} (h : lr ∈ (n.learned s).routes) :
    n.InTable lr :=
  ⟨s, lr, h, rfl, rfl⟩

/-- A table keeps its routes. -/
theorem writes_keepLearned (n : Node) {s : Slot} {x : LearnedState}
    (h : x.routes = (n.learned s).routes) : n.Writes c (n.setLearned s x) := by
  refine .one (.keep n s x (fun lr hlr => n.inTable_of_mem (h ▸ hlr)) fun k => ?_)
  simp only [LearnedState.cost, LearnedState.find, h]

/-- A table that changes hands. -/
theorem writes_handLearned (n : Node) {s i : Slot} {x : LearnedState}
    (h : x.routes = (n.learned i).routes) (hdown : (n.sessions s).active = false) :
    n.Writes c (n.setLearned s x) :=
  .one (.hand n s x (fun _ hlr => n.inTable_of_mem (h ▸ hlr)) hdown)

theorem writes_clearLearned (n : Node) {s : Slot} (hdown : (n.sessions s).active = false) :
    n.Writes c (n.setLearned s {}) :=
  .one (.hand n s {} (fun _ hlr => absurd hlr List.not_mem_nil) hdown)

theorem cost_put {st : LearnedState} {lr : LearnedRoute} (k : Key) :
    (st.put lr).cost k = if k = lr.key then some lr.rttAtNeighbour else st.cost k := by
  unfold LearnedState.cost
  split_ifs with hk
  · rw [hk, LearnedState.find_put_self]
    rfl
  · rw [LearnedState.find_put_of_ne hk]

theorem cost_append_of_ne {st : LearnedState} {lr : LearnedRoute} {k : Key} (h : k ≠ lr.key) :
    ({ st with routes := st.routes ++ [lr] } : LearnedState).cost k = st.cost k := by
  simp only [LearnedState.cost, LearnedState.find]
  congr 1
  simp [KeyedTable.lookup, List.find?_append, Ne.symm h]

/-- A route is written back at the cost it had. -/
theorem writes_putLearned (n : Node) {s : Slot} {lr lr' : LearnedRoute}
    (hfind : (n.learned s).find lr.key = some lr) (hkey : lr'.key = lr.key)
    (h : lr'.rttAtNeighbour = lr.rttAtNeighbour) :
    n.Writes c (n.setLearned s ((n.learned s).put lr')) := by
  refine .one (.keep n s _ (fun x hx => ?_) fun k => ?_)
  · rcases KeyedTable.mem_store hx with rfl | hx
    · exact ⟨s, lr, KeyedTable.mem_of_lookup hfind, hkey.symm, h.symm⟩
    · exact n.inTable_of_mem hx
  · rw [cost_put, hkey]
    split_ifs with hk
    · rw [hk, LearnedState.cost, hfind, Option.map_some, h]
    · rfl

/-- A route is written back at a cost that is heard. -/
theorem writes_hearLearned (n : Node) {s : Slot} {lr : LearnedRoute} {r : Record}
    (hr : n.Hears c s r) (hcall : r.key.call.isEmpty = false) (hkey : lr.key = r.key)
    (h : lr.rttAtNeighbour = r.rtt) : n.Writes c (n.setLearned s ((n.learned s).put lr)) := by
  refine .one (.hear n s _ r hr hcall (fun x hx => ?_) fun k hk => ?_)
  · rcases KeyedTable.mem_store hx with rfl | hx
    · exact .inr ⟨hkey, h⟩
    · exact .inl (n.inTable_of_mem hx)
  · rw [cost_put, hkey, if_neg hk]

theorem writes_setPortLink (n : Node) {i : ℕ} {pl pl' : PortLink} (hpl : n.portLinks[i]? = some pl)
    (h : pl'.axcall = pl.axcall) : n.Writes c (n.setPortLink i pl') := by
  refine .one (.other ⟨rfl, fun _ => rfl, ?_, fun _ => rfl, fun _ => rfl, fun _ => rfl,
    fun _ => ⟨rfl, rfl⟩⟩)
  refine List.ext_getElem? fun j => ?_
  rw [setPortLink, List.getElem?_map, List.getElem?_map, List.getElem?_set]
  split_ifs with hij hlen
  · subst hij
    rw [hpl, Option.map_some, Option.map_some, h]
  · subst hij
    rw [hpl]
    have hlt := (List.getElem?_eq_some_iff.mp hpl).1
    omega
  · rfl

/-! ## Frames and walks -/

theorem writes_flagLink (n : Node) (l : LinkId) (b : Bool) : n.Writes c (n.flagLink l b) :=
  n.writes_setLink rfl

theorem writes_unflagOldLink (n : Node) (s : Slot) : n.Writes c (n.unflagOldLink s) := by
  unfold unflagOldLink
  split
  · exact .refl n
  · exact n.writes_flagLink _ false

theorem writes_flexSendInit (n : Node) (s : Slot) : n.Writes c (n.flexSendInit s) :=
  (Writes.one (.send n s _ _ fun _ => by simp [flexBuildInit])).trans
    (writes_setSession _ ⟨by rfl, by rfl⟩)

theorem writes_sendKeepalive (n : Node) (s : Slot) : n.Writes c (n.sendKeepalive s) :=
  .one (.send n s _ _ fun _ => by simp [flexBuildKeepalive])

theorem writes_flexSendLinkTime (n : Node) (s : Slot) : n.Writes c (n.flexSendLinkTime s) :=
  .ite (.refl n) ((Writes.one (.send n s _ _ fun _ => by simp)).trans
    (writes_setSession _ ⟨by rfl, by rfl⟩))

theorem writes_checks (n : Node) (p : Slot) (force : Bool) (keys : List Key) :
    n.Writes c (keys.foldl (fun n k => n.flexAdvertiseCheck p k force) n) :=
  .foldl (fun n k => .one (.check n p k force)) keys n

theorem writes_walk (n : Node) (p : Slot) (directOnly force : Bool) :
    n.Writes c (n.flexAdvertiseWalkForPeer p directOnly force).1 := by
  have hwalk : (n.flexAdvertiseWalkForPeer p directOnly force).1 =
      (n.walkKeys p directOnly).foldl (fun n k => n.flexAdvertiseCheck p k force) n := by
    rw [foldl_check, ← Env.flexAdvertiseWalkForPeer_fst]
    rfl
  rw [hwalk]
  exact n.writes_checks p force _

theorem writes_anchorAdvert (n : Node) (p : Slot) : n.Writes c (n.anchorAdvert p) :=
  n.writes_keepLearned (by rfl)

theorem writes_flexAdvertiseSeedPeer (n : Node) (p : Slot) :
    n.Writes c (n.flexAdvertiseSeedPeer p) :=
  .ite (.refl n) ((n.writes_walk p false false).trans
    (.trans (.ite (.one (.drain _ p)) (.refl _)) (writes_anchorAdvert _ p)))

theorem writes_flexAdvertiseNeighbours (n : Node) (p : Slot) :
    n.Writes c (n.flexAdvertiseNeighbours p) :=
  .ite (.refl n) ((n.writes_walk p true true).trans
    (.trans (.ite (.one (.drain _ p)) (.refl _)) (writes_anchorAdvert _ p)))

theorem writes_triggerPeersAll (n : Node) (s : Slot) (keys : List Key) :
    n.Writes c (n.triggerPeersAll s keys) :=
  .foldl (fun n pi => .ite (.refl n) ((n.writes_checks pi false keys).trans (.one (.drain _ pi))))
    slots n

theorem writes_flexAdvertisePoisonSession (n : Node) (s : Slot) :
    n.Writes c (n.flexAdvertisePoisonSession s) := by
  unfold flexAdvertisePoisonSession
  refine .ite (.refl n) ?_
  extract_lets n₁ n₂
  have h₁ : n.Writes c n₁ := .foldl (fun n k => .foldl
    (fun n pi => .ite (.refl n) (.one (.check n pi k false))) slots n) _ n
  have h₂ : n₁.Writes c n₂ := .foldl (fun n pi => .ite (.refl n) (.one (.drain n pi))) slots n₁
  exact h₁.trans (h₂.trans ((n₂.writes_keepLearned (by rfl)).trans (.one (.clear _ s))))

theorem writes_seedIfUnsent (n : Node) (s : Slot) : n.Writes c (n.seedIfUnsent s) :=
  .ite (.refl n) ((Writes.one (.own n s false)).trans
    ((writes_setSession _ ⟨by rfl, by rfl⟩).trans (writes_flexAdvertiseSeedPeer _ s)))

theorem writes_flexDestReelectVia (n : Node) (s : Slot) : n.Writes c (n.flexDestReelectVia s) :=
  writes_of_eq rfl rfl rfl

/-! ## Records -/

theorem toEnv_triggerPeersAll (n : Node) (s : Slot) (keys : List Key) :
    (n.triggerPeersAll s keys).toEnv = n.toEnv := (onlyPeers_triggerPeersAll n s keys).toEnv

/-- A record is heard, and the peers are told. -/
theorem writes_flexLearnedAdd (n : Node) (s : Slot) {r : Record} (h : n.Hears c s r) :
    n.Writes c (n.flexLearnedAdd s r) := by
  unfold flexLearnedAdd
  dsimp only
  by_cases hempty : r.key.call.isEmpty
  · rw [if_pos hempty]
    exact .refl n
  have hcall : r.key.call.isEmpty = false := by simpa using hempty
  rw [if_neg hempty]
  cases hfind : (n.learned s).find r.key with
  | none =>
      dsimp only
      refine .ite (.refl n) (.trans (.one (.hear n s _ r h hcall (fun lr hlr => ?_) fun k hk => ?_))
        (writes_triggerPeersAll _ s [r.key]))
      · rcases List.mem_append.mp hlr with hlr | hlr
        · exact .inl (n.inTable_of_mem hlr)
        · obtain rfl := List.mem_singleton.mp hlr
          exact .inr ⟨rfl, rfl⟩
      · exact @cost_append_of_ne _ ⟨r.key, r.rtt, n.now, false⟩ _ hk
  | some lr =>
      dsimp only
      obtain hkey : lr.key = r.key := KeyedTable.lookup_key hfind
      rw [← hkey] at hfind
      split_ifs with hmoved
      · exact n.writes_putLearned hfind rfl hmoved.symm
      · -- the cost is written before the peers are told, the time after
        set moved : LearnedRoute := { lr with rttAtNeighbour := r.rtt } with hdef
        have hcost : n.Writes c (n.setLearned s ((n.learned s).put moved)) :=
          n.writes_hearLearned h hcall hkey rfl
        have hlearned : (((n.setLearned s ((n.learned s).put moved)).triggerPeers s r.key).learned
            s).find moved.key = some moved := by
          have henv := toEnv_triggerPeersAll (n.setLearned s ((n.learned s).put moved)) s [r.key]
          rw [show (n.setLearned s ((n.learned s).put moved)).triggerPeers s r.key =
            (n.setLearned s ((n.learned s).put moved)).triggerPeersAll s [r.key] from rfl, henv]
          simp [setLearned]
        exact hcost.trans ((writes_triggerPeersAll _ s [r.key]).trans
          (writes_putLearned _ hlearned rfl rfl))

theorem writes_flexDtableMerge (n : Node) (s : Slot) {r : Record} (h : n.Hears c s r) :
    n.Writes c (n.flexDtableMerge r s) := by
  have hdests : ∀ (n : Node) (dests : List DestEntry), n.Writes c { n with dests := dests } :=
    fun n dests => writes_of_eq rfl rfl rfl
  obtain ⟨dests, hcase | ⟨dests', hcase⟩⟩ := n.flexDtableMerge_cases r s
  · rw [hcase]
    exact hdests n dests
  · rw [hcase]
    have hheard : ({ n with dests := dests } : Node).Hears c s r := h
    exact (hdests n dests).trans ((writes_flexLearnedAdd _ s hheard).trans (hdests _ dests'))

theorem writes_flagDirect (n : Node) (s : Slot) (k : Key) : n.Writes c (n.flagDirect s k) := by
  unfold flagDirect
  split
  · exact .refl n
  · rename_i lr hlr
    obtain rfl : lr.key = k := KeyedTable.lookup_key hlr
    exact n.writes_putLearned hlr rfl rfl

/-- The neighbour's own entry is heard from the neighbour. -/
theorem writes_flexAddNeighbourEntry (n : Node) (s : Slot) :
    n.Writes c (n.flexAddNeighbourEntry s) := by
  unfold flexAddNeighbourEntry
  refine .ite (.refl n) (.ite (.refl n) ?_)
  extract_lets k n₁ n₂
  have h₁ : n.Writes c n₁ := writes_of_eq rfl rfl rfl
  have h₂ : n₁.Writes c n₂ := n₁.writes_flexDtableMerge s (.inr rfl)
  exact h₁.trans (h₂.trans (.ite (n₂.writes_flagDirect s k) (.refl n₂)))

/-! ## Link time and link options -/

theorem writes_linkTimeMoved (n : Node) (s : Slot) : n.Writes c (n.linkTimeMoved s) :=
  .ite (.refl n) (.ite (n.writes_keepLearned (by rfl))
    ((n.writes_keepLearned (by rfl)).trans (writes_triggerPeersAll _ s _)))

theorem writes_flexLinkTimeSample (n : Node) (s : Slot) :
    n.Writes c (n.flexLinkTimeSample s) := by
  unfold flexLinkTimeSample
  extract_lets sess sample smoothed wire wire' m
  have hm : n.Writes c m := n.writes_setSession ⟨by rfl, by rfl⟩
  exact .ite (.refl n) (.ite (n.writes_setSession ⟨by rfl, by rfl⟩)
    (.ite (hm.trans (writes_linkTimeMoved m s)) hm))

theorem writes_flexLinkOptsChanged (n : Node) (s : Slot) (opts : LinkOpts) :
    n.Writes c (n.flexLinkOptsChanged s opts) := by
  unfold flexLinkOptsChanged
  extract_lets old n₁ shift n₂ n₃
  have h₁ : n.Writes c n₁ := .one (.other ⟨rfl, fun _ => rfl, rfl, fun _ => rfl, fun _ => rfl,
    fun _ => rfl, fun _ => ⟨rfl, rfl⟩⟩)
  have h₂ : n₁.Writes c n₂ := .ite (.refl _) (writes_of_eq rfl rfl rfl)
  have h₃ : n₂.Writes c n₃ := writes_triggerPeersAll n₂ s _
  refine (h₁.trans h₂).trans (.ite (.refl _) (h₃.trans (.ite (.refl _) ?_)))
  exact (writes_walk n₃ s false false).trans (.one (.drain _ s))

theorem writes_flexLinkOptsPoll (n : Node) : n.Writes c n.flexLinkOptsPoll := by
  have hpolled : n.Writes c { n with linkOptsPolled := n.now } := writes_of_eq rfl rfl rfl
  refine .ite (.refl n) (hpolled.trans (.foldl (fun n s => ?_) slots _))
  unfold pollLinkOpts
  dsimp only
  split
  · exact .refl n
  · exact .ite (.refl n) (.ite (.refl n) (n.writes_flexLinkOptsChanged s _))

/-! ## The session life cycle -/

theorem writes_rehandshake (n : Node) (s : Slot) : n.Writes c (n.rehandshake s) :=
  (n.writes_setSession ⟨by rfl, by rfl⟩).trans
    ((writes_flexSendInit _ s).trans (writes_sendKeepalive _ s))

theorem writes_reenterSession (n : Node) (s : Slot) (l : LinkId) :
    n.Writes c (n.reenterSession s l) := by
  unfold reenterSession
  extract_lets x m
  have hm : n.Writes c m := (n.writes_flagLink l true).trans (writes_setSession _ ⟨by rfl, by rfl⟩)
  exact .ite hm (hm.trans (writes_rehandshake m s))

/-- A table is taken from a session that is down, to one that is. -/
theorem writes_flexLearnedAdopt (n : Node) {s : Slot} (call : CStr)
    (hdown : (n.sessions s).active = false) : n.Writes c (n.flexLearnedAdopt s call) := by
  unfold flexLearnedAdopt
  refine .ite (n.writes_clearLearned hdown) ?_
  split
  · exact n.writes_clearLearned hdown
  · rename_i i hi
    split_ifs with hsame
    · exact n.writes_keepLearned (by rfl)
    · have hadoptable := List.find?_some hi
      have hidle : (n.sessions i).active = false := by
        unfold adoptable at hadoptable
        simp only [Bool.and_eq_true, Bool.or_eq_true, decide_eq_true_eq, hsame, false_or,
          Bool.not_eq_true'] at hadoptable
        exact hadoptable.1.1.1
      have htaken : n.Writes c (n.setLearned s { n.learned i with diedAt := 0 }) :=
        n.writes_handLearned (i := i) (by rfl) hdown
      exact htaken.trans (writes_clearLearned _ hidle)

/-- A session starts with nothing declared. -/
theorem writes_startSession (n : Node) {s : Slot} (l : LinkId) (port : ℕ)
    (hdown : (n.sessions s).active = false) : n.Writes c (n.startSession s l port) := by
  have hzero : (0 : ℤ) ≤ 0 ∧ (0 : ℤ) ≤ 15 := by decide
  have hidle : (n.sessions s).active = true → (({} : Session).active = true) := fun hup => by
    rw [hdown] at hup
    cases hup
  unfold startSession
  extract_lets call newCall n₁ n₂ x n₃ n₄ n₅ st n₆ n₇ n₈ n₉ sess n₁₀
  have h₁ : n.Writes c n₁ := .one (.declare n s {} hzero hidle)
  have hdown₁ : (n₁.sessions s).active = false := by
    rw [show n₁ = n.setSession s {} from rfl, setSession_sessions_self]
  have h₂ : n₁.Writes c n₂ := writes_of_eq rfl rfl rfl
  have h₃ : n₂.Writes c n₃ := n₂.writes_setPeer rfl rfl
  have h₄ : n₃.Writes c n₄ := .one (.clear n₃ s)
  have h₅ : n₄.Writes c n₅ := n₄.writes_flexLearnedAdopt newCall hdown₁
  have h₆ : n₅.Writes c n₆ := n₅.writes_keepLearned (by rfl)
  have h₇ : n₆.Writes c n₇ := .one (.other ⟨rfl, fun _ => rfl, rfl, fun _ => rfl, fun _ => rfl,
    fun _ => rfl, fun _ => ⟨rfl, rfl⟩⟩)
  have h₈ : n₇.Writes c n₈ := .one (.declare n₇ s _ hzero fun _ => rfl)
  have h₉ : n₈.Writes c n₉ :=
    (n₈.writes_flagLink l true).trans ((writes_flexSendInit _ s).trans (writes_sendKeepalive _ s))
  have h₁₀ : n₉.Writes c n₁₀ := n₉.writes_setSession ⟨by rfl, by rfl⟩
  exact h₁.trans <| h₂.trans <| h₃.trans <| h₄.trans <| h₅.trans <| h₆.trans <| h₇.trans <|
    h₈.trans <| h₉.trans <| h₁₀.trans (writes_of_eq rfl rfl rfl)

theorem writes_flexNetInitSession (n : Node) (l : LinkId) (port : ℕ) :
    n.Writes c (n.flexNetInitSession l port) := by
  unfold flexNetInitSession
  split
  · exact n.writes_reenterSession _ l
  · split
    · split
      · exact .refl n
      · exact (n.writes_flagLink _ false).trans (writes_reenterSession _ _ l)
    · split
      · exact .refl n
      · rename_i i hi
        exact n.writes_startSession l port (by simpa using List.find?_some hi)

theorem writes_flexNetCloseSession (n : Node) (l : LinkId)
    (h : ∀ s, n.flexFindSession l = some s → c.closes s) :
    n.Writes c (n.flexNetCloseSession l) := by
  unfold flexNetCloseSession
  split
  · exact .refl n
  · rename_i s hs
    exact (n.writes_keepLearned (by rfl)).trans <|
      (Writes.one (.down _ s _ (.inl (by rfl)) (h s hs))).trans <|
        (writes_flagLink _ l false).trans <| (writes_flexDestReelectVia _ s).trans <|
          writes_flexAdvertisePoisonSession _ s

/-- Sessions are taken down, and none comes up. -/
structure Closing (n m : Node) : Prop where
  active : ∀ s, (m.sessions s).active = true → (n.sessions s).active = true
  writes : ∀ c : Scope, (∀ s, (n.sessions s).active = true → (m.sessions s).active = false →
    c.closes s) → n.Writes c m

theorem Closing.refl (n : Node) : n.Closing n := ⟨fun _ h => h, fun _ _ => .refl n⟩

theorem Closing.trans (h : n.Closing m) (h' : m.Closing o) : n.Closing o where
  active := fun s hs => h.active s (h'.active s hs)
  writes := fun c hc => by
    refine (h.writes c fun s hup hdown => hc s hup ?_).trans
      (h'.writes c fun s hup hdown => hc s (h.active s hup) hdown)
    by_contra hne
    rw [h'.active s (by simpa using hne)] at hdown
    cases hdown

theorem Closing.foldl {α : Type*} {f : Node → α → Node} (h : ∀ (n : Node) a, n.Closing (f n a))
    (as : List α) (n : Node) : n.Closing (as.foldl f n) := by
  induction as generalizing n with
  | nil => exact .refl n
  | cons a as ih => exact (h n a).trans (ih _)

/-- What keeps every session up or down, and needs none to close. -/
theorem Closing.of_writes (hactive : ∀ s, (m.sessions s).active = (n.sessions s).active)
    (h : ∀ c : Scope, n.Writes c m) : n.Closing m :=
  ⟨fun s hs => by rwa [hactive] at hs, fun c _ => h c⟩

theorem closing_flexNetCloseSession (n : Node) (l : LinkId) :
    n.Closing (n.flexNetCloseSession l) := by
  cases hfind : n.flexFindSession l with
  | none =>
      rw [show n.flexNetCloseSession l = n from by unfold flexNetCloseSession; rw [hfind]]
      exact .refl n
  | some s =>
      have hup := List.find?_some hfind
      simp only [Bool.and_eq_true] at hup
      have hsessions := flexNetCloseSession_sessions hfind
      refine ⟨fun i hi => ?_, fun c hc => n.writes_flexNetCloseSession l fun i hi => ?_⟩
      · rw [hsessions] at hi
        by_cases his : i = s
        · rw [his, Function.update_self] at hi
          cases hi
        · rwa [Function.update_of_ne his] at hi
      · obtain rfl := Option.some.inj (hfind.symm.trans hi)
        exact hc s hup.1.2 (by rw [hsessions, Function.update_self])

theorem writes_flexNetNotePeerL2Restart (n : Node) (call : AxCall) (port : ℕ) :
    n.Writes c (n.flexNetNotePeerL2Restart call port) := by
  unfold flexNetNotePeerL2Restart
  split
  · exact .refl n
  · rename_i i _
    extract_lets x m
    have hm : n.Writes c m := n.writes_setPeer rfl rfl
    exact .ite (.refl n) (hm.trans
      ((m.writes_setSession ⟨by rfl, by rfl⟩).trans (.one (.clear _ i))))

theorem writes_adoptSession (n : Node) (s : Slot) (l : LinkId) :
    n.Writes c (n.adoptSession s l) := by
  unfold adoptSession
  extract_lets n₁ x n₂ n₃ y
  have h₁ : n.Writes c n₁ := .ite (.refl n) (n.writes_unflagOldLink s)
  have h₂ : n₁.Writes c n₂ :=
    (n₁.writes_setSession ⟨by rfl, by rfl⟩).trans (writes_flagLink _ l true)
  have h₃ : n₂.Writes c n₃ := writes_of_eq rfl rfl rfl
  exact h₁.trans (h₂.trans (h₃.trans (n₃.writes_setSession ⟨by rfl, by rfl⟩)))

theorem closing_closeReplaced (n : Node) (l : LinkId) (port : ℕ) (i : Slot) :
    n.Closing (n.closeReplaced l port i) := by
  unfold closeReplaced
  dsimp only
  split
  · exact .refl n
  · split_ifs
    · exact n.closing_flexNetCloseSession _
    · exact .refl n

theorem closing_flexNetTryAdoptSession (n : Node) (l : LinkId) (port : ℕ) :
    n.Closing (n.flexNetTryAdoptSession l port).1 := by
  unfold flexNetTryAdoptSession
  dsimp only
  split_ifs
  · exact .refl n
  · exact .foldl (fun n i => n.closing_closeReplaced l port i) slots n
  · exact .refl n
  · split
    · exact .refl n
    · rename_i s _
      obtain ⟨hothers, hself⟩ := n.adoptSession_session s l
      refine .of_writes (fun i => ?_) fun c => n.writes_adoptSession s l
      by_cases hi : i = s
      · rw [hi, hself]
      · rw [hothers i hi]

theorem writes_sabmAccepted (n : Node) (l : LinkId) (port : ℕ)
    (h : n.flexNetIsPeerFlexNetMapped (n.links l).linkCall port = true → ∀ s,
      (n.sessions s).active = true → (((n.flagLink l true).flexNetTryAdoptSession l
        port).1.sessions s).active = false → c.closes s) :
    n.Writes c (n.sabmAccepted l port) := by
  unfold sabmAccepted
  cases hmapped : n.flexNetIsPeerFlexNetMapped (n.links l).linkCall port with
  | false =>
      rw [if_pos (by simp)]
      exact .refl n
  | true =>
      rw [if_neg (by simp)]
      have hadopt := (n.writes_flagLink l true).trans
        (((n.flagLink l true).closing_flexNetTryAdoptSession l port).writes c (h hmapped))
      dsimp only
      generalize (n.flagLink l true).flexNetTryAdoptSession l port = adopted at hadopt ⊢
      obtain ⟨m, adopted⟩ := adopted
      exact .ite hadopt (hadopt.trans (writes_flexNetInitSession _ l port))

/-! ## Received frames -/

theorem writes_flexNotePeerEstablished (n : Node) (s : Slot) :
    n.Writes c (n.flexNotePeerEstablished s) := by
  unfold flexNotePeerEstablished
  refine .ite (.refl n) ?_
  split
  · exact .refl n
  · exact .ite (.refl n)
      ((n.writes_setSession ⟨by rfl, by rfl⟩).trans (writes_flexAddNeighbourEntry _ s))

theorem writes_answerReinit (n : Node) (s : Slot) : n.Writes c (n.answerReinit s) := by
  unfold answerReinit
  extract_lets n₁ x n₂ y n₃
  have h₁ : n.Writes c n₁ := (n.writes_flexSendInit s).trans (writes_sendKeepalive _ s)
  have h₂ : n₁.Writes c n₂ := n₁.writes_setSession ⟨by rfl, by rfl⟩
  have h₃ : n₂.Writes c n₃ := n₂.writes_setPeer rfl rfl
  exact h₁.trans (h₂.trans (h₃.trans (.one (.clear n₃ s))))

theorem writes_inferFamily (n : Node) (s : Slot) (len : ℕ) :
    n.Writes c (n.inferFamily s len) :=
  .ite (.refl n) (.ite ((n.writes_setSession ⟨by rfl, by rfl⟩).trans (writes_sendKeepalive _ s))
    (n.writes_setSession ⟨by rfl, by rfl⟩))

theorem initSsid_bounds (data : CStr) : 0 ≤ initSsid data ∧ initSsid data ≤ 15 := by
  unfold initSsid
  split <;> omega

theorem writes_handleInit (n : Node) (s : Slot) (data : CStr) :
    n.Writes c (n.handleInit s data) := by
  unfold handleInit
  extract_lets sess reinit n₁ n₂
  have h₁ : n.Writes c n₁ := .one (.declare n s
    { sess with gotPeerInit := true, peerMaxSsid := initSsid data } (initSsid_bounds data) id)
  have h₂ : n₁.Writes c n₂ :=
    (n₁.writes_flexAddNeighbourEntry s).trans (writes_inferFamily _ s _)
  exact h₁.trans (h₂.trans ((Writes.ite (n₂.writes_answerReinit s) (.refl n₂)).trans
    (writes_seedIfUnsent _ s)))

theorem writes_handleKeepalive (n : Node) (s : Slot) (data : CStr) :
    n.Writes c (n.handleKeepalive s data) := by
  unfold handleKeepalive
  extract_lets x n₁ n₂ n₃ n₄
  have h₁ : n.Writes c n₁ := n.writes_setSession ⟨by rfl, by rfl⟩
  have h₂ : n₁.Writes c n₂ := (n₁.writes_flexNotePeerEstablished s).trans
    (.ite (writes_setSession _ ⟨by rfl, by rfl⟩) (.refl _))
  have hecho : n₂.Writes c (n₂.echoKeepalive s) := by
    have hstamp : n₂.Writes c { n₂ with kaEchoAt := Function.update n₂.kaEchoAt s n₂.now } :=
      writes_of_eq rfl rfl rfl
    exact .ite (.refl n₂) (hstamp.trans (writes_sendKeepalive _ s))
  have h₃ : n₂.Writes c n₃ := hecho.trans (writes_flexSendLinkTime _ s)
  have h₄ : n₃.Writes c n₄ := .ite (n₃.writes_seedIfUnsent s) (.refl n₃)
  exact h₁.trans (h₂.trans (h₃.trans (h₄.trans (n₄.writes_setSession ⟨by rfl, by rfl⟩))))

theorem writes_handleLinkTime (n : Node) (s : Slot) (data : CStr) :
    n.Writes c (n.handleLinkTime s data) := by
  unfold handleLinkTime
  refine (n.writes_flexNotePeerEstablished s).trans
    ((writes_flexLinkTimeSample _ s).trans (.trans ?_ (writes_flexSendLinkTime _ s)))
  exact .ite (.refl _) (writes_setSession _ ⟨by rfl, by rfl⟩)

theorem writes_handleStatusPos (n : Node) (s : Slot) : n.Writes c (n.handleStatusPos s) := by
  unfold handleStatusPos
  extract_lets n₁ x n₂ n₃ n₄
  have h₁ : n.Writes c n₁ := n.writes_flexNotePeerEstablished s
  have h₂ : n₁.Writes c n₂ := .ite (n₁.writes_setPeer rfl rfl) (.refl n₁)
  have h₃ : n₂.Writes c n₃ := .one (.own n₂ s _)
  have h₄ : n₃.Writes c n₄ := by
    refine .ite ?_ (.refl n₃)
    have hwalk := n₃.writes_walk (c := c) s false true
    unfold answerStatusPos
    generalize n₃.flexAdvertiseWalkForPeer s false true = walked at hwalk ⊢
    obtain ⟨m, queued⟩ := walked
    exact hwalk.trans ((writes_setPeer m (by rfl) (by rfl)).trans (.one (.drain _ s)))
  exact h₁.trans (h₂.trans (h₃.trans (h₄.trans (n₄.writes_setSession ⟨by rfl, by rfl⟩))))

/-- A frame of records is no token. -/
theorem flexParseCeFrame_ne_token {lt3byte : Bool} {data : CStr} (h : data.head? = some 0x33) :
    flexParseCeFrame lt3byte data ≠ some .token := by
  obtain ⟨rest, rfl⟩ : ∃ rest, data = 0x33 :: rest := by
    cases data with
    | nil => cases h
    | cons b rest => exact ⟨rest, by rw [Option.some.inj h]⟩
  have hstatus : statusFrame (0x33 :: rest) ≠ some .token := by
    unfold statusFrame
    split
    · split_ifs <;> simp
    · simp
  intro htype
  unfold flexParseCeFrame at htype
  cases hcase : statusFrame (0x33 :: rest) with
  | some t =>
      rw [hcase] at htype hstatus
      dsimp only at htype
      split_ifs at htype
      · cases htype
      · cases htype
      · exact hstatus htype
  | none =>
      rw [hcase] at htype
      dsimp only at htype
      split_ifs at htype <;> simp_all

/-- The records of a frame are heard at a session, and nothing else is. -/
theorem writes_handleFrame (n : Node) {s : Slot} {data : CStr}
    (heard : ∀ r ∈ frameRecords n.cfg data, r ∈ c.heard s) : n.Writes c (n.handleFrame s data) := by
  unfold handleFrame
  split
  · exact n.writes_handleInit s data
  · exact n.writes_handleKeepalive s data
  · exact n.writes_handleLinkTime s data
  · rename_i htype
    refine .one (.send n s _ _ fun _ hhead => ?_)
    exact flexParseCeFrame_ne_token hhead htype
  · exact n.writes_handleStatusPos s
  · rename_i htype
    rw [frameRecords, if_pos htype] at heard
    exact (n.writes_flexNotePeerEstablished s).trans
      (.foldl_mem (fun n r hr => n.writes_flexDtableMerge s (.inl (heard r hr))) _)
  · exact .refl n

/-- The session a CE frame of a row is for; a row without one is given one. -/
def ceSession (n : Node) (l : LinkId) : Option Slot :=
  (n.flexFindSession l).or
    ((n.flexNetInitSession l ((n.links l).port.getD 0)).flexFindSession l)

/-- The node as the session of a CE frame finds it. -/
def ceNode (n : Node) (l : LinkId) : Node :=
  if (n.flexFindSession l).isSome then n
  else n.flexNetInitSession l ((n.links l).port.getD 0)

theorem writes_ceNode (n : Node) (l : LinkId) : n.Writes c (n.ceNode l) :=
  .ite (.refl n) (n.writes_flexNetInitSession l _)

theorem flexNetProcessCE_handles (n : Node) (l : LinkId) {data : CStr}
    (hdata : data.isEmpty = false) :
    n.flexNetProcessCE l data = match n.ceSession l with
      | some s => (n.ceNode l).handleFrame s data
      | none => n.ceNode l := by
  unfold flexNetProcessCE ceSession ceNode
  rw [if_neg (by simp [hdata])]
  cases n.flexFindSession l with
  | some s => rfl
  | none => rfl

theorem writes_flexNetProcessCE (n : Node) (l : LinkId) {data : CStr}
    (heard : ∀ s, n.ceSession l = some s → ∀ r ∈ frameRecords n.cfg data, r ∈ c.heard s) :
    n.Writes c (n.flexNetProcessCE l data) := by
  cases hdata : data.isEmpty with
  | true =>
      unfold flexNetProcessCE
      rw [if_pos hdata]
      exact .refl n
  | false =>
      rw [n.flexNetProcessCE_handles l hdata]
      have hnode : n.Writes c (n.ceNode l) := n.writes_ceNode l
      cases hsession : n.ceSession l with
      | none => exact hnode
      | some s =>
          refine hnode.trans (writes_handleFrame _ ?_)
          rw [hnode.cfg]
          exact heard s hsession

/-- A row of a mapped peer is given a session before its frame is looked at. -/
def dispatchCE (n : Node) (l : LinkId) (port : ℕ) : Node :=
  if !(n.links l).flexNetLink && n.flexNetIsPeerFlexNetMapped (n.links l).linkCall port then
    n.flexNetInitSession l port
  else n

theorem writes_dispatchCE (n : Node) (l : LinkId) (port : ℕ) :
    n.Writes c (n.dispatchCE l port) :=
  .ite (n.writes_flexNetInitSession l port) (.refl n)

theorem writes_ceReceived (n : Node) (l : LinkId) (port : ℕ) {data : CStr}
    (heard : ∀ s, ((n.dispatchCE l port).links l).flexNetLink = true →
      (n.dispatchCE l port).ceSession l = some s →
        ∀ r ∈ frameRecords n.cfg data, r ∈ c.heard s) :
    n.Writes c (n.ceReceived l port data) := by
  have hdispatch : n.Writes c (n.dispatchCE l port) := n.writes_dispatchCE l port
  refine hdispatch.trans ?_
  change (n.dispatchCE l port).Writes c (if ((n.dispatchCE l port).links l).flexNetLink = true
    then (n.dispatchCE l port).flexNetProcessCE l data else n.dispatchCE l port)
  split_ifs with hflag
  · refine writes_flexNetProcessCE _ l fun s hs => ?_
    rw [hdispatch.cfg]
    exact heard s hflag hs
  · exact .refl _

/-! ## The timer, and every event -/

theorem writes_keepPortLink (n : Node) (i : ℕ) : n.Writes c (n.keepPortLink i) := by
  unfold keepPortLink
  split
  · exact .refl n
  rename_i pl hpl
  refine .ite (.refl n) ?_
  split
  · have hup : n.Writes c (n.setPortLink i { pl with wasUp := true, backoff := 0 }) :=
      n.writes_setPortLink hpl rfl
    exact .ite (.refl n) (.ite (hup.trans (writes_flexNetInitSession _ _ _)) hup)
  · refine .ite (n.writes_setPortLink hpl rfl) (.ite (.refl n) ?_)
    split
    · exact n.writes_setPortLink hpl rfl
    · rename_i li _
      have hopen : n.Writes c (n.openLink pl li) :=
        .one (.row n li { n.links li with
          port := some pl.port, l2State := 2, linkCall := pl.axcall, ourCall := n.cfg.myCall }
          (.inr ⟨pl, List.mem_of_getElem? hpl, rfl⟩))
      exact hopen.trans (writes_setPortLink (n.openLink pl li) hpl rfl)

theorem writes_flexPortLinksKeep (n : Node) : n.Writes c n.flexPortLinksKeep := by
  have hscanned : n.Writes c { n with portLinkScanned := n.now } := writes_of_eq rfl rfl rfl
  exact .ite (.refl n) (.ite (.refl n) (hscanned.trans (.foldl writes_keepPortLink _ _)))

theorem writes_setBadSince (n : Node) (s : Slot) (t : ℤ) : n.Writes c (n.setBadSince s t) :=
  writes_of_eq rfl rfl rfl

theorem writes_migrateSession (n : Node) (s : Slot) (li : LinkId) :
    n.Writes c (n.migrateSession s li) := by
  unfold migrateSession
  extract_lets n₁ x n₂
  have h₁ : n.Writes c n₁ := n.writes_unflagOldLink s
  have h₂ : n₁.Writes c n₂ :=
    (n₁.writes_setSession ⟨by rfl, by rfl⟩).trans (writes_flagLink _ li true)
  exact h₁.trans (h₂.trans (n₂.writes_setBadSince s 0))

theorem writes_reapSession (n : Node) {s : Slot} (hcloses : c.closes s) :
    n.Writes c (n.reapSession s) := by
  unfold reapSession
  extract_lets n₁ n₂ st n₃ x n₄ n₅ n₆
  have h₁ : n.Writes c n₁ := n.writes_setBadSince s 0
  have h₂ : n₁.Writes c n₂ := n₁.writes_unflagOldLink s
  have h₃ : n₂.Writes c n₃ := n₂.writes_keepLearned (by rfl)
  have h₄ : n₃.Writes c n₄ := .one (.down n₃ s _ (.inl (by rfl)) hcloses)
  have h₅ : n₄.Writes c n₅ :=
    (n₄.writes_flexDestReelectVia s).trans (writes_flexAdvertisePoisonSession _ s)
  have h₆ : n₅.Writes c n₆ := .one (.down n₅ s {} (.inr (by decide)) hcloses)
  exact h₁.trans (h₂.trans (h₃.trans (h₄.trans (h₅.trans (h₆.trans (n₆.writes_setPeer rfl rfl))))))

theorem reapSession_sessions (n : Node) (s : Slot) :
    (n.reapSession s).sessions = Function.update n.sessions s {} := by
  unfold reapSession
  extract_lets n₁ n₂ st n₃ x n₄ n₅ n₆
  have hsessions : n₅.sessions = Function.update n.sessions s { x with active := false } := by
    change ((n₄.flexDestReelectVia s).flexAdvertisePoisonSession s).sessions = _
    rw [flexAdvertisePoisonSession_sessions]
    exact congrArg (Function.update · s { x with active := false }) (unflagOldLink_sessions n₁ s)
  change Function.update n₅.sessions s {} = _
  rw [hsessions, Function.update_idem]

theorem migrateSession_active (n : Node) (s : Slot) (li : LinkId) (i : Slot) :
    ((n.migrateSession s li).sessions i).active = (n.sessions i).active := by
  have hsessions : (n.unflagOldLink s).sessions = n.sessions := unflagOldLink_sessions n s
  change ((Function.update (n.unflagOldLink s).sessions s
    { (n.unflagOldLink s).sessions s with link := some li }) i).active = _
  rw [hsessions]
  by_cases hi : i = s
  · rw [hi, Function.update_self]
  · rw [Function.update_of_ne hi]

theorem closing_reapSession (n : Node) {s : Slot} (hup : (n.sessions s).active = true) :
    n.Closing (n.reapSession s) := by
  have hsessions := n.reapSession_sessions s
  refine ⟨fun i hi => ?_, fun c hc => n.writes_reapSession (hc s hup ?_)⟩
  · rw [hsessions] at hi
    by_cases his : i = s
    · rw [his]
      exact hup
    · rwa [Function.update_of_ne his] at hi
  · rw [hsessions, Function.update_self]

theorem closing_reapTurn (n : Node) (s : Slot) : n.Closing (n.reapTurn s) := by
  by_cases hup : (n.sessions s).active = true
  · rw [n.reapTurn_up hup]
    have hbad : n.Closing (n.setBadSince s (n.reapVerdict s).2) :=
      .of_writes (fun _ => rfl) fun c => n.writes_setBadSince s _
    dsimp only
    split
    · exact hbad
    · exact hbad.trans (.of_writes (migrateSession_active _ s _)
        fun c => writes_migrateSession _ s _)
    · exact hbad.trans (closing_reapSession _ hup)
    · exact hbad
  · rw [n.reapTurn_down (by simpa using hup)]
    exact .refl n

theorem closing_reapSessions (n : Node) : n.Closing n.reapSessions :=
  .foldl closing_reapTurn slots n

theorem writes_proactiveInit (n : Node) : n.Writes c n.proactiveInit := by
  have hscanned : n.Writes c { n with lastProactiveInitScan := n.now } := writes_of_eq rfl rfl rfl
  exact .ite (.refl n) (hscanned.trans (.foldl (fun n li =>
    .ite (n.writes_flexNetInitSession li _) (.refl n)) _ _))

theorem writes_serveSession (n : Node) (s : Slot) : n.Writes c (n.serveSession s) := by
  refine .ite (.refl n) ?_
  have hkeepalive : n.Writes c (n.serveKeepalive s) :=
    .ite (.refl n) ((n.writes_sendKeepalive s).trans
      ((writes_flexSendLinkTime _ s).trans (writes_setSession _ ⟨by rfl, by rfl⟩)))
  refine hkeepalive.trans (.trans (.ite ?_ (.refl _)) (.trans (.ite ?_ (.refl _))
    (.one (.drain _ s))))
  · exact (writes_anchorAdvert _ s).trans
      ((Writes.one (.own _ s false)).trans (writes_flexAdvertiseNeighbours _ s))
  · exact writes_seedIfUnsent _ s

/-- The node as the reaper finds it. -/
def beforeReaping (n : Node) : Node := n.flexPortLinksKeep.flexLinkOptsPoll

theorem writes_flexNetTimer (n : Node)
    (h : ∀ s, (n.beforeReaping.sessions s).active = true →
      (n.beforeReaping.reapSessions.sessions s).active = false → c.closes s) :
    n.Writes c n.flexNetTimer :=
  (n.writes_flexPortLinksKeep).trans <| (writes_flexLinkOptsPoll _).trans <|
    (n.beforeReaping.closing_reapSessions.writes c h).trans <| (writes_proactiveInit _).trans <|
      .foldl writes_serveSession slots _

/-! ### What is known of an event -/

/-- The session the CE frame of an event is for. -/
def hearer (n : Node) : Event → Option Slot
  | .processCE l _ => n.ceSession l
  | .ceReceived l port _ =>
    let m := n.dispatchCE l port
    if (m.links l).flexNetLink then m.ceSession l else none
  | _ => none

/-- An event takes a session down. -/
def TakesDown (n : Node) (s : Slot) : Event → Prop
  | .closeSession l => n.flexFindSession l = some s
  | .tryAdoptSession l port => (n.sessions s).active = true ∧
    ((n.flexNetTryAdoptSession l port).1.sessions s).active = false
  | .sabm l port => n.flexNetIsPeerFlexNetMapped (n.links l).linkCall port = true ∧
    (n.sessions s).active = true ∧
      (((n.flagLink l true).flexNetTryAdoptSession l port).1.sessions s).active = false
  | .timer => (n.beforeReaping.sessions s).active = true ∧
    (n.beforeReaping.reapSessions.sessions s).active = false
  | _ => False

/-- The records a session hears in an event. -/
def heardBy (n : Node) (s : Slot) (e : Event) : List Record :=
  if n.hearer e = some s then e.frame.elim [] fun frame => frameRecords n.cfg frame.2 else []

/-- What is known of an event at a node. -/
def scope (n : Node) (e : Event) : Scope where
  event := e
  heard s := n.heardBy s e
  closes s := n.TakesDown s e

/-- Every event of the node is a sequence of writes. -/
theorem event_writes (n : Node) (e : Event) : n.Writes (n.scope e) (n.event e) := by
  have hdests : ∀ (n' : Node) (dests : List DestEntry),
      n'.Writes (n.scope e) { n' with dests := dests } := fun n' dests => writes_of_eq rfl rfl rfl
  cases e with
  | clock t k =>
      exact .one (.other ⟨rfl, fun _ => rfl, rfl, fun _ => rfl, fun _ => rfl, fun _ => rfl,
        fun _ => ⟨rfl, rfl⟩⟩)
  | row l x => exact .one (.row n l x (.inl rfl))
  | mapTable ports => exact writes_of_eq rfl rfl rfl
  | initSession l port => exact n.writes_flexNetInitSession l port
  | closeSession l => exact n.writes_flexNetCloseSession l fun _ hs => hs
  | notePeerL2Restart call port => exact n.writes_flexNetNotePeerL2Restart call port
  | tryAdoptSession l port =>
      exact (n.closing_flexNetTryAdoptSession l port).writes _ fun _ hup hdown => ⟨hup, hdown⟩
  | sabm l port =>
      exact n.writes_sabmAccepted l port fun hmapped _ hup hdown => ⟨hmapped, hup, hdown⟩
  | processCE l data =>
      refine n.writes_flexNetProcessCE l fun s hs r hr => ?_
      have hearer : n.hearer (.processCE l data) = some s := hs
      change r ∈ n.heardBy s (.processCE l data)
      rw [heardBy, if_pos hearer]
      exact hr
  | ceReceived l port data =>
      refine n.writes_ceReceived l port fun s hflag hs r hr => ?_
      have hearer : n.hearer (.ceReceived l port data) = some s := (if_pos hflag).trans hs
      change r ∈ n.heardBy s (.ceReceived l port data)
      rw [heardBy, if_pos hearer]
      exact hr
  | timer => exact n.writes_flexNetTimer fun _ hup hdown => ⟨hup, hdown⟩
  | heal i => exact hdests n _
  | pathCache rows =>
      refine .foldl (fun n' row => ?_) rows n
      obtain ⟨k, path, updated⟩ := row
      change n'.Writes _ (n'.loadPathRow k path updated)
      unfold loadPathRow
      split
      · exact hdests n' _
      · exact .ite (hdests n' _) (.refl n')
  | pathFrame s reply body =>
      refine .ite (.one (.send n s _ _ fun _ => ?_)) (.refl n)
      cases reply <;> simp
  | l3Frame s data =>
      exact .ite (.one (.send n s _ _ fun h => absurd h (by decide))) (.refl n)

theorem event_cfg (n : Node) (e : Event) : (n.event e).cfg = n.cfg := (n.event_writes e).cfg

end Node

end FlexNet
