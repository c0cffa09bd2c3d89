import FlexNet.Node.Drain

/-!
# Walks over the learned tables

The callers of the decision rule: the trigger loop of a changed cost, the walk that answers a
`'3+'`, the seed of a new peer, the neighbour refresh, the poison walk of a session that ended,
and the node's own frame.  All of them are loops of `flexAdvertiseCheck` and
`flexAdvertiseDrain` over peers, which leave the tables the rule reads alone.
-/

namespace FlexNet

/-! ## The node's own frame -/

/-- `flex_build_own_frame`: the node record, then every bound local call, in one frame. -/
def flexBuildOwnFrame (buflen : ℕ) (base : CStr) (lo hi : ℤ) (locals : List LocalCall) :
    Option CStr :=
  let keys := (⟨.ofCStr base, lo, hi⟩ : Key) ::
    (locals.filter fun l => l.state == .bound).map fun l => ⟨.ofCStr l.base, l.ssid, l.ssid⟩
  if buflen < 3 then none
  else
    (keys.foldlM (fun body k => (flexBuildRouteRec (buflen - body.length - 1) k 1).map (body ++ ·))
      [0x33]).map (· ++ [0x0D])

/-- The node's own frame, none without a node call. -/
def Config.ownFrame (cfg : Config) : Option CStr :=
  if cfg.ownBaseCall.1.isEmpty then none
  else flexBuildOwnFrame advertFrameBytes cfg.ownBaseCall.1 cfg.ownSsidRange.1 cfg.ownSsidRange.2
    cfg.locals

/-- `flex_send_own_routes`: the own frame, then `'3-'` unless the caller defers it. -/
def Env.flexSendOwnRoutes (e : Env) (p : Slot) (deferEob : Bool) (x : Peer) : Peer :=
  let x :=
    match e.cfg.ownFrame with
    | none => x
    | some frame => e.flexSendFrame p pidCE frame x
  if deferEob then x else e.flexSendFrame p pidCE releaseToken x

/-! ## Walks for one peer -/

/-- The destinations a neighbour taught us. -/
def LearnedState.keys (st : LearnedState) : List Key :=
  (st.routes.map LearnedRoute.key).filter fun k => !k.call.isEmpty

namespace Env

variable (e : Env)

/-- The destinations `flex_advertise_walk_for_peer` visits: everything the other active
sessions taught us, or only their direct neighbours. -/
def walkKeys (p : Slot) (directOnly : Bool) : List Key :=
  slots.flatMap fun si =>
    if si = p ∨ (e.sessions si).active = false then []
    else ((e.learned si).routes.filter fun lr =>
      !lr.key.call.isEmpty && (!directOnly || lr.isDirectNeighbour)).map LearnedRoute.key

/-- The entry for a destination is queued. -/
def isQueued (x : Peer) (k : Key) : Bool :=
  (x.adv.find k).elim false AdvRoute.pending

/-- `flex_advertise_walk_for_peer`, with the number of records it newly queued. -/
def flexAdvertiseWalkForPeer (p : Slot) (directOnly force : Bool) (x : Peer) : Peer × ℕ :=
  (e.walkKeys p directOnly).foldl
    (fun (x, n) k =>
      let y := e.flexAdvertiseCheck p k force x
      (y, if isQueued y k && !isQueued x k then n + 1 else n))
    (x, 0)

/-- The peer after a walk. -/
theorem flexAdvertiseWalkForPeer_fst (p : Slot) (directOnly force : Bool) (x : Peer) :
    (e.flexAdvertiseWalkForPeer p directOnly force x).1 =
      (e.walkKeys p directOnly).foldl (fun x k => e.flexAdvertiseCheck p k force x) x := by
  unfold flexAdvertiseWalkForPeer
  generalize e.walkKeys p directOnly = keys
  generalize 0 = n
  induction keys generalizing x n with
  | nil => rfl
  | cons k keys ih => exact ih _ _

end Env

namespace Node

variable (n : Node)

/-- `flex_advertise_check` on the node. -/
def flexAdvertiseCheck (p : Slot) (k : Key) (force : Bool) : Node :=
  n.setPeer p (n.toEnv.flexAdvertiseCheck p k force (n.peers p))

/-- `flex_advertise_drain` on the node. -/
def flexAdvertiseDrain (p : Slot) : Node :=
  n.setPeer p (n.toEnv.flexAdvertiseDrain p (n.peers p))

/-- `flex_send_frame` to the peer of a session. -/
def flexSendFrame (p : Slot) (pid : UInt8) (data : CStr) : Node :=
  n.setPeer p (n.toEnv.flexSendFrame p pid data (n.peers p))

/-- `flex_send_own_routes` on the node. -/
def flexSendOwnRoutes (p : Slot) (deferEob : Bool) : Node :=
  n.setPeer p (n.toEnv.flexSendOwnRoutes p deferEob (n.peers p))

/-- The walk on the node. -/
def flexAdvertiseWalkForPeer (p : Slot) (directOnly force : Bool) : Node × ℕ :=
  let (x, queued) := n.toEnv.flexAdvertiseWalkForPeer p directOnly force (n.peers p)
  (n.setPeer p x, queued)

/-- `memset(&FlexNetAdvertised[p], 0, ..)`. -/
def clearAdvertised (p : Slot) : Node :=
  n.setPeer p { n.peers p with adv := {}, wire := (n.peers p).wire ++ [.cleared] }

/-- `FlexNetLearned[p].last_advert = now`. -/
def anchorAdvert (p : Slot) : Node :=
  n.setLearned p { n.learned p with lastAdvert := n.now }

/-- `flex_advertise_seed_peer`. -/
def flexAdvertiseSeedPeer (p : Slot) : Node :=
  if !n.cfg.transit then n
  else
    let (m, queued) := n.flexAdvertiseWalkForPeer p false false
    (if 0 < queued then m.flexAdvertiseDrain p else m).anchorAdvert p

/-- `flex_advertise_neighbours`. -/
def flexAdvertiseNeighbours (p : Slot) : Node :=
  if !n.cfg.transit then n
  else
    let (m, _) := n.flexAdvertiseWalkForPeer p true true
    (if 0 < (n.walkKeys p true).length then m.flexAdvertiseDrain p else m).anchorAdvert p

/-! ## Loops over peers -/

/-- The trigger loop: re-run the rule for one destination at every other active peer, and
drain it at once. -/
def triggerPeers (s : Slot) (k : Key) : Node :=
  slots.foldl (fun n pi =>
    if pi = s ∨ (n.sessions pi).active = false then n
    else (n.flexAdvertiseCheck pi k false).flexAdvertiseDrain pi) n

/-- The same for all destinations of a list, one drain a peer. -/
def triggerPeersAll (s : Slot) (keys : List Key) : Node :=
  slots.foldl (fun n pi =>
    if pi = s ∨ (n.sessions pi).active = false then n
    else (keys.foldl (fun n k => n.flexAdvertiseCheck pi k false) n).flexAdvertiseDrain pi) n

/-- `flex_advertise_poison_session`: withdraw what only the dead session offered, then forget
what it was told.  Its learned table is kept for adoption. -/
def flexAdvertisePoisonSession (dead : Slot) : Node :=
  if !n.cfg.transit then n
  else
    let n := (n.learned dead).keys.foldl (fun n k =>
      slots.foldl (fun n pi =>
        if pi = dead ∨ (n.sessions pi).active = false then n
        else n.flexAdvertiseCheck pi k false) n) n
    let n := slots.foldl (fun n pi =>
      if (n.sessions pi).active = false then n else n.flexAdvertiseDrain pi) n
    (n.setLearned dead { n.learned dead with diedAt := n.now }).clearAdvertised dead

/-! ## What the walks leave alone -/

/-- Nothing but peers has changed. -/
def OnlyPeers (n m : Node) : Prop :=
  m = { n with peers := m.peers }

variable {n} {m o : Node}

theorem OnlyPeers.refl (n : Node) : n.OnlyPeers n := rfl

theorem OnlyPeers.trans (h₁ : n.OnlyPeers m) (h₂ : m.OnlyPeers o) : n.OnlyPeers o := by
  unfold OnlyPeers at *
  rw [h₂, h₁]

theorem OnlyPeers.foldl {α : Type*} {f : Node → α → Node} (h : ∀ (n : Node) a, n.OnlyPeers (f n a))
    (l : List α) (n : Node) : n.OnlyPeers (l.foldl f n) := by
  induction l generalizing n with
  | nil => exact .refl n
  | cons a l ih => exact (h n a).trans (ih _)

theorem onlyPeers_setPeer (n : Node) (p : Slot) (x : Peer) : n.OnlyPeers (n.setPeer p x) := rfl

theorem OnlyPeers.toEnv (h : n.OnlyPeers m) : m.toEnv = n.toEnv := by rw [h]

theorem onlyPeers_triggerPeersAll (n : Node) (s : Slot) (keys : List Key) :
    n.OnlyPeers (n.triggerPeersAll s keys) := by
  refine .foldl (fun n pi => ?_) slots n
  split_ifs
  · exact .refl n
  · exact (OnlyPeers.foldl (fun n k => onlyPeers_setPeer n pi _) keys n).trans
      (onlyPeers_setPeer _ pi _)

theorem onlyPeers_walk (n : Node) (p : Slot) (directOnly force : Bool) :
    n.OnlyPeers (n.flexAdvertiseWalkForPeer p directOnly force).1 :=
  onlyPeers_setPeer n p _

/-- The poison walk stamps the dead session's table, and changes peers. -/
theorem onlyPeers_poisonSession (n : Node) (s : Slot) :
    (if n.cfg.transit then n.setLearned s { n.learned s with diedAt := n.now } else n).OnlyPeers
      (n.flexAdvertisePoisonSession s) := by
  unfold flexAdvertisePoisonSession
  cases htransit : n.cfg.transit with
  | false => exact .refl n
  | true =>
      rw [if_pos rfl, if_neg (by simp)]
      dsimp only
      generalize hwalked : slots.foldl _ (List.foldl _ n (n.learned s).keys) = m
      have hwalk : n.OnlyPeers m := by
        rw [← hwalked]
        refine .trans (.foldl (fun n k => .foldl (fun n pi => ?_) slots n) _ n)
          (.foldl (fun n pi => ?_) slots _)
        · split_ifs
          exacts [.refl n, onlyPeers_setPeer n pi _]
        · split_ifs
          exacts [.refl n, onlyPeers_setPeer n pi _]
      unfold OnlyPeers at hwalk ⊢
      rw [hwalk]
      rfl

end Node

end FlexNet
