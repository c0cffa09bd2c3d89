import FlexNet.Advert.Evolves
import FlexNet.Routing.Service

/-!
# Every run of the node is a run of every peer's machine

One lemma for each function of the node: it `Evolves`.  `event_evolves` collects them, and
`after_peerRun` is the result: whatever happens to the node from its start, what happens to one
peer is a legal run of that peer's machine.  An invariant of the machine is an invariant of the
node.
-/

namespace FlexNet

open Runs

namespace Node

variable {g : Prop} {R : Slot → Prop} {n m : Node} {p s : Slot} {k : Key} {keys : List Key}
  {l : LinkId}

/-! ## Records and the destination table -/

/-- A learned table changes at the destinations of `keys` only, and the trigger loop visits
them. -/
theorem advances_learnedTrigger (n : Node) (s : Slot) (st : LearnedState) (keys : List Key)
    (hold : ∀ k, k ∉ keys → st.find k = (n.learned s).find k) :
    n.Advances g R ((n.setLearned s st).triggerPeersAll s keys) := fun hn => by
  refine Advances.triggered
    ⟨rfl, rfl, fun p _ => rfl, fun p hp _ => ⟨rfl, rfl, rfl, rfl, ?_⟩⟩ (hn s)
    (fun hup => .inr ⟨hup, rfl, fun _ => rfl⟩) (fun _ hup => .inl ⟨hup, rfl, ?_⟩) rfl
    (fun _ _ => stays_of_eq rfl) hn
  · simp [setLearned, Function.update_of_ne hp]
  · intro k hk _ hoffer
    have hfind : ((n.setLearned s st).learned s).find k = (n.learned s).find k := by
      simpa [setLearned] using hold k hk
    unfold Env.offer at hoffer ⊢
    rw [hfind]
    exact hoffer

theorem advances_flexLearnedAdd (n : Node) (s : Slot) (r : Record) :
    n.Advances g R (n.flexLearnedAdd s r) := by
  unfold flexLearnedAdd
  dsimp only
  by_cases hempty : r.key.call.isEmpty
  · rw [if_pos hempty]
    exact .refl n
  rw [if_neg hempty]
  cases hfind : (n.learned s).find r.key with
  | some lr =>
      have hkey : lr.key = r.key := KeyedTable.lookup_key hfind
      -- the stamp of the hearing is no part of an offer
      have hstamp : ∀ m : Node, ∀ a : LearnedRoute, (m.learned s).find lr.key = some a →
          a.rttAtNeighbour = r.rtt → a.isDirectNeighbour = lr.isDirectNeighbour →
          m.Advances g R (m.setLearned s ((m.learned s).put
            { lr with rttAtNeighbour := r.rtt, lastHeard := m.now })) := by
        intro m a ha hrtt hdirect
        refine advances_setLearned m fun _ k => ?_
        by_cases hk : k = lr.key
        · subst hk
          have hput : ((m.learned s).put
              { lr with rttAtNeighbour := r.rtt, lastHeard := m.now }).find lr.key =
                some { lr with rttAtNeighbour := r.rtt, lastHeard := m.now } :=
            LearnedState.find_put_self
          rw [ha, hput]
          simp [hrtt, hdirect]
        · rw [LearnedState.find_put_of_ne (by simpa using hk)]
      dsimp only
      by_cases hsame : lr.rttAtNeighbour = r.rtt
      · rw [if_pos hsame]
        exact hstamp n lr (hkey ▸ hfind) hsame rfl
      · rw [if_neg hsame]
        set moved : LearnedRoute := { lr with rttAtNeighbour := r.rtt } with hmoved
        obtain ⟨henv, -⟩ :=
          triggerPeersAll_peers (n.setLearned s ((n.learned s).put moved)) s [r.key]
        have htrigger :=
          advances_learnedTrigger (g := g) (R := R) n s ((n.learned s).put moved) [r.key]
          fun k hk => LearnedState.find_put_of_ne (by simpa [hmoved, hkey] using hk)
        refine htrigger.trans (hstamp _ moved ?_ rfl rfl)
        rw [henv, show ((n.setLearned s ((n.learned s).put moved)).learned s) =
          (n.learned s).put moved from Function.update_self ..]
        exact LearnedState.find_put_self
  | none =>
      dsimp only
      split_ifs
      · exact .refl n
      · refine advances_learnedTrigger n s _ [r.key] fun k hk => ?_
        have hne : r.key ≠ k := fun h => hk (by simp [h])
        simp [LearnedState.find, KeyedTable.lookup, List.find?_append, hne]

/-- A change of the destination table is none of the machine's tables. -/
theorem advances_dests (n : Node) (dests : List DestEntry) :
    n.Advances g R { n with dests := dests } :=
  .of_eq rfl rfl

theorem advances_flexDtableMerge (n : Node) (r : Record) (s : Slot) :
    n.Advances g R (n.flexDtableMerge r s) := by
  obtain ⟨dests, h | ⟨dests', h⟩⟩ := n.flexDtableMerge_cases r s <;> rw [h]
  · exact advances_dests n dests
  · exact (advances_dests n dests).trans
      ((advances_flexLearnedAdd _ s r).trans (advances_dests _ dests'))

/-- The neighbour's own entry changes its flag only. -/
theorem advances_flagDirect (n : Node) (s : Slot) (k : Key) :
    n.Advances g R (n.flagDirect s k) := by
  unfold flagDirect
  cases hfind : (n.learned s).find k with
  | none => exact .refl n
  | some lr =>
      obtain rfl := KeyedTable.lookup_key hfind
      refine .rename ⟨rfl, rfl, fun _ => rfl, fun _ => rfl, fun _ => rfl, rfl, fun p k => ?_⟩
        (fun hn => hn) rfl fun _ _ => stays_of_eq rfl
      by_cases hp : p = s
      · subst hp
        by_cases hk : k = lr.key
        · subst hk
          have hput : ((n.learned p).put { lr with isDirectNeighbour := true }).find lr.key =
            some { lr with isDirectNeighbour := true } := LearnedState.find_put_self
          simp only [setLearned, Function.update_self, hfind, hput, Option.map_some]
        · simp only [setLearned, Function.update_self]
          rw [LearnedState.find_put_of_ne (by simpa using hk)]
      · simp [setLearned, Function.update_of_ne hp]

theorem advances_flexAddNeighbourEntry (n : Node) (s : Slot) :
    n.Advances g R (n.flexAddNeighbourEntry s) := by
  unfold flexAddNeighbourEntry
  split_ifs
  · exact .refl n
  · exact .refl n
  · have hentered : n.Advances g R { n with nbrEntered := Function.update n.nbrEntered s true } :=
      .of_eq rfl rfl
    refine hentered.trans (.trans (advances_flexDtableMerge _ ⟨n.neighbourKey s, 1, false⟩ s) ?_)
    dsimp only
    split_ifs
    · exact advances_flagDirect _ s _
    · exact .refl _

/-! ## Link options and link time -/

theorem advances_flexLinkOptsChanged (n : Node) (s : Slot) (opts : LinkOpts) :
    n.Advances g R (n.flexLinkOptsChanged s opts) := by
  unfold flexLinkOptsChanged
  dsimp only
  set m : Node := { n with linkOpts := Function.update n.linkOpts s opts } with hm
  generalize hshift : (if _ = (0 : ℤ) then m else { m with dests := _ }) = m'
  have htables : m'.toEnv = m.toEnv ∧ m'.peers = n.peers := by
    subst hshift
    split_ifs <;> exact ⟨rfl, rfl⟩
  have henv : n.toEnv.AlikeExcept m'.toEnv s := by
    rw [htables.1]
    refine ⟨rfl, rfl, fun _ _ => rfl, fun p hp _ => ⟨rfl, rfl, rfl, ?_, fun _ => rfl⟩⟩
    simp [hm, Function.update_of_ne hp]
  have hself : n.MayMove m' s := fun hup => by
    rw [htables.1] at hup ⊢
    exact .inr ⟨hup, rfl, fun _ => rfl⟩
  split_ifs with htransit hown
  · exact fun hn => Advances.tables henv (htables.1 ▸ hn s) hself
      (fun h => by simp [h] at htransit) htables.2
      (fun _ _ => stays_of_eq (by rw [htables.1])) hn
  all_goals
    have htrigger : n.Advances g R (m'.triggerPeersAll s (m'.learned s).keys) := fun hn => by
      refine Advances.triggered henv (htables.1 ▸ hn s) hself
        (fun _ _ => .inr fun k hk hoffer => ?_)
        htables.2 (fun _ _ => stays_of_eq (by rw [htables.1])) hn
      rw [show m'.learned = n.learned by rw [htables.1]]
      exact Env.mem_keys_of_offer hk hoffer
  · exact htrigger
  · exact htrigger.trans ((advances_walk _ s false false).trans (advances_drain _ s))

theorem advances_flexLinkOptsPoll (n : Node) : n.Advances g R n.flexLinkOptsPoll := by
  unfold flexLinkOptsPoll
  split_ifs
  · exact .refl n
  · refine Advances.trans (m := { n with linkOptsPolled := n.now }) (.of_eq rfl rfl)
      (.foldl (fun n s => ?_) slots _)
    unfold pollLinkOpts
    dsimp only
    split
    · exact .refl n
    · split_ifs
      · exact .refl n
      · exact .refl n
      · exact advances_flexLinkOptsChanged n s _

theorem advances_flexSendLinkTime (n : Node) (s : Slot) :
    n.Advances g R (n.flexSendLinkTime s) := by
  unfold flexSendLinkTime
  dsimp only
  split_ifs
  · exact .refl n
  · exact (advances_send_of_ne n s (by simp)).trans
      (advances_touchSession _ ⟨rfl, rfl, rfl, rfl⟩)

theorem advances_linkTimeMoved (n : Node) (s : Slot) : n.Advances g R (n.linkTimeMoved s) := by
  unfold linkTimeMoved
  dsimp only
  have hanchor : n.Advances g R (n.setLearned s
      { n.learned s with ltAnchor := (n.sessions s).ourLinkTime }) :=
    advances_setLearned n fun _ _ => rfl
  split_ifs
  · exact .refl n
  · exact hanchor
  · exact hanchor.trans (advances_triggerPeersAll _ s _)

theorem advances_flexLinkTimeSample (n : Node) (s : Slot) :
    n.Advances g R (n.flexLinkTimeSample s) := by
  unfold flexLinkTimeSample
  refine .ite (.refl n) (.ite (advances_touchSession n ⟨rfl, rfl, rfl, rfl⟩) (.ite ?_ ?_))
  · refine .trans (advances_touchSession n ?_) (advances_linkTimeMoved _ s)
    exact ⟨rfl, rfl, rfl, rfl⟩
  · exact advances_touchSession n ⟨rfl, rfl, rfl, rfl⟩

/-! ## Sessions -/

theorem advances_flexSendInit (n : Node) (s : Slot) : n.Advances g R (n.flexSendInit s) := by
  refine .trans (advances_send_of_ne n s (by simp [flexBuildInit])) (advances_touchSession _ ?_)
  exact ⟨rfl, rfl, rfl, rfl⟩

theorem advances_sendKeepalive (n : Node) (s : Slot) : n.Advances g R (n.sendKeepalive s) :=
  advances_send_of_ne n s (by simp [flexBuildKeepalive])

theorem advances_flagLink (n : Node) (l : LinkId) (b : Bool) : n.Advances g R (n.flagLink l b) :=
  advances_setLink_of_call n rfl

theorem advances_unflagOldLink (n : Node) (s : Slot) : n.Advances g R (n.unflagOldLink s) := by
  unfold unflagOldLink
  split
  · exact .refl n
  · exact advances_flagLink n _ false

/-- The handshake of a session that is not established starts over; nothing was answered on it. -/
theorem advances_rehandshake (n : Node) (s : Slot)
    (hest : ¬ (n.sessions s).flexIsEstablished = true) : n.Advances g R (n.rehandshake s) := by
  refine .trans (advances_setSession n ?_ fun _ hans => ?_)
    ((advances_flexSendInit _ s).trans (advances_sendKeepalive _ s))
  · exact ⟨rfl, rfl, rfl⟩
  · rw [Session.answered, Bool.and_eq_true] at hans
    exact absurd hans.2 hest

theorem advances_reenterSession (n : Node) (s : Slot) (l : LinkId) :
    n.Advances g R (n.reenterSession s l) := by
  unfold reenterSession
  extract_lets sess m
  have hm : n.Advances g R m := by
    refine .trans (advances_flagLink n l true) (advances_relink _ ?_ ?_ ?_ ?_ ?_) <;> rfl
  exact hm.trans (.dite (fun _ => .refl m) fun hest => advances_rehandshake m s hest)

theorem flexLearnedAdopt_peers (n : Node) (s : Slot) (call : CStr) :
    (n.flexLearnedAdopt s call).peers = n.peers ∧
      (n.flexLearnedAdopt s call).sessions = n.sessions := by
  unfold flexLearnedAdopt
  split_ifs
  · exact ⟨rfl, rfl⟩
  · split
    · exact ⟨rfl, rfl⟩
    · split_ifs <;> exact ⟨rfl, rfl⟩

/-- The table a new session adopts is that of a session that is down. -/
theorem advances_flexLearnedAdopt (n : Node) {s : Slot} (hdown : (n.sessions s).active = false)
    (call : CStr) : n.Advances g R (n.flexLearnedAdopt s call) := by
  have hset : ∀ st, n.Advances g R (n.setLearned s st) := fun st =>
    advances_setLearned n fun hup => by rw [hdown] at hup; cases hup
  unfold flexLearnedAdopt
  refine .ite (hset _) ?_
  cases hfind : slots.find? (n.adoptable s call) with
  | none => exact hset _
  | some si =>
      have hsi := List.find?_some hfind
      simp only [adoptable, Bool.and_eq_true, Bool.or_eq_true, decide_eq_true_eq,
        Bool.not_eq_true'] at hsi
      refine .ite (hset _) ((hset _).trans (advances_setLearned _ fun hup => ?_))
      rcases hsi.1.1.1 with rfl | hdown'
      · rw [show ((n.setLearned si _).sessions si) = n.sessions si from rfl, hdown] at hup
        cases hup
      · rw [show ((n.setLearned s _).sessions si) = n.sessions si from rfl, hdown'] at hup
        cases hup

theorem advances_startSession (n : Node) {s : Slot} (hdown : (n.sessions s).active = false)
    (l : LinkId) (port : ℕ) : n.Advances g R (n.startSession s l port) := by
  unfold startSession
  extract_lets call newCall n₁ n₂ x n₃ n₄ n₅ st n₆ n₇ n₈ n₉ sess n₁₀
  have h₁ : n.Advances g R n₁ := advances_setSession_down n hdown rfl
  have h₂ : n₁.Advances g R n₂ := .of_eq rfl rfl
  have hdown₄ : (n₄.sessions s).active = false :=
    congrArg Session.active (show n₄.sessions s = {} from Function.update_self ..)
  have h₃ : n₂.Advances g R n₃ := advances_release n₂ s fun _ => .inr hdown₄
  have h₄ : n₃.Advances g R n₄ := advances_clear n₃ s fun _ => .inr hdown₄
  have h₅ : n₄.Advances g R n₅ := advances_flexLearnedAdopt n₄ hdown₄ newCall
  obtain ⟨hpeers, hsessions⟩ := flexLearnedAdopt_peers n₄ s newCall
  have hdown₅ : (n₅.sessions s).active = false := by
    rw [show n₅.sessions = n₄.sessions from hsessions, hdown₄]
  have h₆ : n₅.Advances g R n₆ :=
    advances_setLearned n₅ fun hup => by rw [hdown₅] at hup; cases hup
  have h₇ : n₆.Advances g R n₇ := by
    refine .down (s := s) ⟨rfl, rfl, fun _ _ => rfl, fun p hp _ => ?_⟩ hdown₅ hdown₅ rfl
      fun _ _ => stays_of_eq rfl
    exact ⟨rfl, rfl, rfl, Function.update_of_ne hp .., fun _ => rfl⟩
  have h₈ : n₇.Advances g R n₈ := by
    have hfresh : (n₇.peers s).adv = {} ∧ (n₇.peers s).pcfQuiesced = false := by
      rw [show n₇.peers = n₄.peers from hpeers]
      simp [n₄, n₃, x, clearAdvertised]
    exact advances_activate n₇ hdown₅ hfresh.1 hfresh.2 rfl
  have h₉ : n₈.Advances g R n₉ := (advances_flagLink n₈ l true).trans
    ((advances_flexSendInit _ s).trans (advances_sendKeepalive _ s))
  have h₁₀ : n₉.Advances g R n₁₀ := advances_touchSession n₉ ⟨rfl, rfl, rfl, rfl⟩
  exact h₁.trans <| h₂.trans <| h₃.trans <| h₄.trans <| h₅.trans <| h₆.trans <| h₇.trans <|
    h₈.trans <| h₉.trans <| h₁₀.trans <| .of_eq rfl rfl

theorem advances_flexNetInitSession (n : Node) (l : LinkId) (port : ℕ) :
    n.Advances g R (n.flexNetInitSession l port) := by
  unfold flexNetInitSession
  split
  · exact advances_reenterSession n _ l
  · split
    · split
      · exact .refl n
      · exact (advances_flagLink n _ false).trans (advances_reenterSession _ _ l)
    · split
      · exact .refl n
      · rename_i i hfind
        exact advances_startSession n (by simpa using List.find?_some hfind) l port

/-- A session goes down, its row loses its flag, and the poison walk follows. -/
theorem advances_poison (n : Node) {s : Slot} {x : Session} (hdown : x.active = false) :
    n.Advances g R (((n.setSession s x).flexDestReelectVia s).flexAdvertisePoisonSession s) := by
  refine .poisoned ⟨rfl, rfl, fun p hp => ?_, fun p hp _ => ?_⟩ ?_ rfl rfl fun p _ => ?_
  · simp [flexDestReelectVia, setSession, Function.update_of_ne hp]
  · constructor <;>
      simp [flexDestReelectVia, setSession, Env.sessPeerCall, Function.update_of_ne hp]
  · simpa [flexDestReelectVia, setSession] using hdown
  · by_cases hp : p = s
    · subst hp
      intro hup
      simp [flexDestReelectVia, setSession, hdown] at hup
    · exact stays_of_eq (by simp [flexDestReelectVia, setSession, Function.update_of_ne hp])

theorem advances_flexNetCloseSession (n : Node) (l : LinkId) :
    n.Advances g R (n.flexNetCloseSession l) := by
  unfold flexNetCloseSession
  split
  · exact .refl n
  · rename_i s _
    extract_lets st m
    have hdied : n.Advances g R m := advances_setLearned n fun _ _ => rfl
    exact hdied.trans ((advances_flagLink m l false).trans (advances_poison _ rfl))

theorem flexAdvertisePoisonSession_sessions (n : Node) (s : Slot) :
    (n.flexAdvertisePoisonSession s).sessions = n.sessions := by
  rw [(onlyPeers_poisonSession n s).toEnv]
  split_ifs <;> rfl

theorem advances_reapSession (n : Node) (s : Slot) : n.Advances g R (n.reapSession s) := by
  unfold reapSession
  extract_lets n₁ n₂ st n₃ x n₄ n₅ n₆ y
  have h₁ : n.Advances g R n₁ := .of_eq rfl rfl
  have h₂ : n₁.Advances g R n₂ := advances_unflagOldLink n₁ s
  have h₃ : n₂.Advances g R n₃ := advances_setLearned n₂ fun _ _ => rfl
  have h₅ : n₃.Advances g R n₅ := advances_poison n₃ rfl
  have hdown : (n₅.sessions s).active = false := by
    simp [n₅, n₄, flexAdvertisePoisonSession_sessions, flexDestReelectVia, setSession]
  have h₆ : n₅.Advances g R n₆ := advances_setSession_down n₅ hdown rfl
  have hdown₆ : (n₆.sessions s).active = false :=
    congrArg Session.active (show n₆.sessions s = {} from Function.update_self ..)
  exact h₁.trans <| h₂.trans <| h₃.trans <| h₅.trans <| h₆.trans <|
    advances_release n₆ s fun _ => .inr hdown₆

theorem advances_migrateSession (n : Node) (s : Slot) (li : LinkId) :
    n.Advances g R (n.migrateSession s li) := by
  unfold migrateSession
  extract_lets n₁ x n₂
  have h₁ : n.Advances g R n₁ := advances_unflagOldLink n s
  have h₂ : n₁.Advances g R n₂ := by
    refine .trans (advances_relink n₁ ?_ ?_ ?_ ?_ ?_) (advances_flagLink _ li true) <;> rfl
  exact h₁.trans (h₂.trans (.of_eq rfl rfl))

theorem advances_reapTurn (n : Node) (s : Slot) : n.Advances g R (n.reapTurn s) := by
  unfold reapTurn
  extract_lets sess
  refine .ite (.refl n) ?_
  generalize flexReapDecide _ _ _ = r
  obtain ⟨verdict, badSince⟩ := r
  dsimp only
  have hbad : n.Advances g R
      { n with reapBadSince := Function.update n.reapBadSince s badSince } := .of_eq rfl rfl
  split
  · exact hbad
  all_goals
    split
    · exact hbad.trans (advances_migrateSession _ s _)
    · exact hbad.trans (advances_reapSession _ s)
    · first | exact hbad | exact hbad.trans (advances_reapSession _ s)

/-- The session a station that came back belongs to. -/
def restarted (n : Node) (call : AxCall) (port : ℕ) : Option Slot :=
  slots.find? fun i => (n.sessions i).active && (n.sessions i).port == port &&
    (n.sessions i).peerCallsign.same call

/-- A peer that was released and forgotten is owed nothing. -/
theorem not_owed_of_fresh {x : Peer} (hadv : x.adv = {}) (hlatch : x.pcfQuiesced = false)
    (e : Env) :
    ¬ (⟨e, x, []⟩ : View).Owed := by
  simp [View.Owed, hadv, hlatch]

theorem advances_flexNetNotePeerL2Restart (n : Node) (call : AxCall) (port : ℕ)
    (hR : g → ∀ p, n.restarted call port = some p → R p) :
    n.Advances g R (n.flexNetNotePeerL2Restart call port) := by
  unfold flexNetNotePeerL2Restart
  split
  · exact .refl n
  · rename_i i hi
    refine .ite (.refl n) ((advances_release n i fun hg => .inl (hR hg i hi)).trans
      (.trans (advances_clear _ i fun hg => .inl (hR hg i hi))
        (advances_setSession _ ⟨rfl, rfl, rfl⟩ fun howed => ?_)))
    exact absurd howed (not_owed_of_fresh (by simp [clearAdvertised]) (by simp [clearAdvertised]) _)

theorem advances_adoptSession (n : Node) (s : Slot) (l : LinkId) :
    n.Advances g R (n.adoptSession s l) := by
  unfold adoptSession
  extract_lets n₁ x n₂ n₃ y
  have h₁ : n.Advances g R n₁ := .ite (.refl n) (advances_unflagOldLink n s)
  have h₂ : n₁.Advances g R n₂ := by
    refine .trans (advances_relink n₁ ?_ ?_ ?_ ?_ ?_) (advances_flagLink _ l true) <;> rfl
  have h₃ : n₂.Advances g R n₃ := .of_eq rfl rfl
  exact h₁.trans <| h₂.trans <| h₃.trans <| advances_touchSession n₃ ⟨rfl, rfl, rfl, rfl⟩

theorem advances_flexNetTryAdoptSession (n : Node) (l : LinkId) (port : ℕ) :
    n.Advances g R (n.flexNetTryAdoptSession l port).1 := by
  unfold flexNetTryAdoptSession
  dsimp only
  split_ifs
  · exact .refl n
  · refine .foldl (fun n i => ?_) slots n
    unfold closeReplaced
    dsimp only
    split
    · exact .refl n
    · exact .ite (advances_flexNetCloseSession n _) (.refl n)
  · exact .refl n
  · split
    · exact .refl n
    · exact advances_adoptSession n _ l

theorem advances_sabmAccepted (n : Node) (l : LinkId) (port : ℕ) :
    n.Advances g R (n.sabmAccepted l port) := by
  unfold sabmAccepted
  dsimp only
  refine .ite (.refl n) ((advances_flagLink n l true).trans
    ((advances_flexNetTryAdoptSession _ l port).trans (.ite (.refl _) ?_)))
  exact advances_flexNetInitSession _ l port

/-! ## Received frames -/

theorem flexDtableMerge_sessions (n : Node) (r : Record) (s : Slot) :
    (n.flexDtableMerge r s).sessions = n.sessions := by
  obtain ⟨dests, h | ⟨dests', h⟩⟩ := n.flexDtableMerge_cases r s <;> rw [h]
  have hsessions := congrArg Env.sessions
    (onlyPeers_flexLearnedAdd ({ n with dests := dests } : Node) s r).toEnv
  exact hsessions

theorem flexAddNeighbourEntry_sessions (n : Node) (s : Slot) :
    (n.flexAddNeighbourEntry s).sessions = n.sessions := by
  unfold flexAddNeighbourEntry
  split_ifs
  · rfl
  · rfl
  · dsimp only
    have hmerge := flexDtableMerge_sessions
      { n with nbrEntered := Function.update n.nbrEntered s true } ⟨n.neighbourKey s, 1, false⟩ s
    split_ifs
    · unfold flagDirect
      split <;> exact hmerge
    · exact hmerge

/-- Traffic on a connected row establishes the session. -/
theorem flexNotePeerEstablished_sessions (n : Node) (s : Slot) :
    (n.flexNotePeerEstablished s).sessions = n.sessions ∨
      (n.flexNotePeerEstablished s).sessions =
        (n.setSession s { n.sessions s with flexEstInferred := true }).sessions := by
  unfold flexNotePeerEstablished
  dsimp only
  split_ifs
  · exact .inl rfl
  · split
    · exact .inl rfl
    · split_ifs
      · exact .inl rfl
      · exact .inr (flexAddNeighbourEntry_sessions _ s)

theorem flexNotePeerEstablished_active (n : Node) (s : Slot) :
    ((n.flexNotePeerEstablished s).sessions s).active = (n.sessions s).active := by
  rcases flexNotePeerEstablished_sessions n s with h | h <;> rw [h]
  rw [setSession_sessions_self]

theorem flexNotePeerEstablished_established (n : Node) {s : Slot}
    (hconn : ∃ l, (n.sessions s).link = some l ∧ (n.links l).flexL2Connected = true) :
    ((n.flexNotePeerEstablished s).sessions s).flexIsEstablished = true := by
  obtain ⟨l, hl, hconn⟩ := hconn
  unfold flexNotePeerEstablished
  dsimp only
  by_cases hest : ((n.sessions s).gotPeerInit || (n.sessions s).flexEstInferred) = true
  · rw [if_pos hest]
    exact hest
  · rw [if_neg hest]
    simp only [hl, hconn]
    rw [if_neg (by simp), flexAddNeighbourEntry_sessions, setSession_sessions_self]
    simp [Session.flexIsEstablished]

theorem advances_flexNotePeerEstablished (n : Node) (s : Slot) :
    n.Advances g R (n.flexNotePeerEstablished s) := by
  unfold flexNotePeerEstablished
  refine .ite (.refl n) ?_
  split
  · exact .refl n
  · refine .ite (.refl n) (.trans (advances_setSession n ?_ fun _ => ?_)
      (advances_flexAddNeighbourEntry _ s))
    · exact ⟨rfl, rfl, rfl⟩
    · exact Session.answered_mono id fun _ => by simp [Session.flexIsEstablished]

theorem advances_anchorAdvert (n : Node) (p : Slot) : n.Advances g R (n.anchorAdvert p) :=
  advances_setLearned n fun _ _ => rfl

theorem advances_flexAdvertiseSeedPeer (n : Node) (p : Slot) :
    n.Advances g R (n.flexAdvertiseSeedPeer p) := by
  unfold flexAdvertiseSeedPeer
  refine .ite (.refl n) ((advances_walk n p false false).trans ?_)
  exact .trans (.ite (advances_drain _ p) (.refl _)) (advances_anchorAdvert _ p)

theorem advances_flexAdvertiseNeighbours (n : Node) (p : Slot) :
    n.Advances g R (n.flexAdvertiseNeighbours p) := by
  unfold flexAdvertiseNeighbours
  refine .ite (.refl n) ((advances_walk n p true true).trans ?_)
  exact .trans (.ite (advances_drain _ p) (.refl _)) (advances_anchorAdvert _ p)

theorem advances_seedIfUnsent (n : Node) (s : Slot) (hup : (n.sessions s).active = true) :
    n.Advances g R (n.seedIfUnsent s) := by
  unfold seedIfUnsent
  refine .dite (fun _ => .refl n) fun hsent => ?_
  have hunsent : (n.sessions s).sentRoutes = false := by simpa using hsent
  have hown : n.Advances g R (n.flexSendOwnRoutes s false) :=
    advances_ownRoutes n s false (fun _ => ⟨hup, .inl hunsent⟩) fun _ _ => .inl hunsent
  refine hown.trans (.trans (advances_setSession _ ?_ fun _ => ?_)
    (advances_flexAdvertiseSeedPeer _ s))
  · exact ⟨rfl, rfl, rfl⟩
  · exact Session.answered_mono (fun _ => rfl) id

theorem advances_answerReinit (n : Node) (s : Slot) (hR : g → R s) :
    n.Advances g R (n.answerReinit s) := by
  refine .trans ((advances_flexSendInit n s).trans (advances_sendKeepalive _ s))
    ((advances_release _ s fun hg => .inl (hR hg)).trans
      ((advances_clear _ s fun hg => .inl (hR hg)).trans
      (advances_setSession _ ⟨rfl, rfl, rfl⟩ fun howed => ?_)))
  exact absurd howed (not_owed_of_fresh (by simp [clearAdvertised]) (by simp [clearAdvertised]) _)

theorem advances_inferFamily (n : Node) (s : Slot) (len : ℕ) :
    n.Advances g R (n.inferFamily s len) := by
  unfold inferFamily
  refine .ite (.refl n) (.ite (.trans (advances_touchSession n ?_) (advances_sendKeepalive _ s))
    (advances_touchSession n ⟨rfl, rfl, rfl, rfl⟩))
  exact ⟨rfl, rfl, rfl, rfl⟩

/-- An INIT that is answered as a restart of the peer. -/
def reinits (n : Node) (s : Slot) : Bool :=
  flexReinitAnswer (n.sessions s).flexIsEstablished (n.sessions s).lastInitTx n.now

theorem advances_handleInit (n : Node) (s : Slot) (data : CStr)
    (hup : (n.sessions s).active = true) (hR : g → n.reinits s = true → R s) :
    n.Advances g R (n.handleInit s data) := by
  unfold handleInit
  extract_lets sess reinit n₁ n₂
  have h₁ : n.Advances g R n₁ :=
    advances_setSession n ⟨rfl, rfl, rfl⟩ fun _ => Session.answered_mono id fun _ => rfl
  have h₂ : n₁.Advances g R n₂ :=
    (advances_flexAddNeighbourEntry n₁ s).trans (advances_inferFamily _ s data.length)
  have hup₂ : (n₂.sessions s).active = true := by
    rw [(sameRoutes_inferFamily _ s data.length).active, flexAddNeighbourEntry_sessions,
      setSession_sessions_self]
    exact hup
  have h₃ : n₂.Advances g R (if reinit then n₂.answerReinit s else n₂) :=
    .dite (fun hre => advances_answerReinit n₂ s fun hg => hR hg hre) fun _ => .refl n₂
  refine h₁.trans <| h₂.trans <| h₃.trans (advances_seedIfUnsent _ s ?_)
  split_ifs
  · rw [(sameRoutes_answerReinit n₂ s).active, hup₂]
  · exact hup₂

theorem advances_noteKeepalive (n : Node) (s : Slot) (data : CStr) :
    n.Advances g R (n.noteKeepalive s data) :=
  .ite (advances_touchSession n ⟨rfl, rfl, rfl, rfl⟩) (.refl n)

theorem advances_echoKeepalive (n : Node) (s : Slot) : n.Advances g R (n.echoKeepalive s) := by
  have hecho : n.Advances g R { n with kaEchoAt := Function.update n.kaEchoAt s n.now } :=
    .of_eq rfl rfl
  exact .ite (.refl n) (hecho.trans (advances_sendKeepalive _ s))

theorem advances_handleKeepalive (n : Node) (s : Slot) (data : CStr)
    (hup : (n.sessions s).active = true) : n.Advances g R (n.handleKeepalive s data) := by
  unfold handleKeepalive
  extract_lets x n₁ n₂ n₃ n₄
  have h₁ : n.Advances g R n₁ := advances_touchSession n ⟨rfl, rfl, rfl, rfl⟩
  have h₂ : n₁.Advances g R n₂ :=
    (advances_flexNotePeerEstablished n₁ s).trans (advances_noteKeepalive _ s data)
  have h₃ : n₂.Advances g R n₃ :=
    (advances_echoKeepalive n₂ s).trans (advances_flexSendLinkTime _ s)
  have hup₃ : (n₃.sessions s).active = true := by
    rw [(sameRoutes_flexSendLinkTime _ s).active, (sameRoutes_echoKeepalive _ s).active,
      (sameRoutes_noteKeepalive _ s data).active, flexNotePeerEstablished_active,
      setSession_sessions_self]
    exact hup
  have h₄ : n₃.Advances g R n₄ := .ite (advances_seedIfUnsent n₃ s hup₃) (.refl n₃)
  exact h₁.trans <| h₂.trans <| h₃.trans <| h₄.trans <|
    advances_touchSession n₄ ⟨rfl, rfl, rfl, rfl⟩

theorem advances_noteLinkTime (n : Node) (s : Slot) (data : CStr) :
    n.Advances g R (n.noteLinkTime s data) :=
  .ite (.refl n) (advances_touchSession n ⟨rfl, rfl, rfl, rfl⟩)

theorem advances_handleLinkTime (n : Node) (s : Slot) (data : CStr) :
    n.Advances g R (n.handleLinkTime s data) :=
  (advances_flexNotePeerEstablished n s).trans <| (advances_flexLinkTimeSample _ s).trans <|
    (advances_noteLinkTime _ s data).trans <| advances_flexSendLinkTime _ s

/-- The node after the walk that answers a `'3+'`, with our routes sent and the `'3-'` owed. -/
def walked (n : Node) (s : Slot) : Node :=
  let m := (n.flexAdvertiseWalkForPeer s false true).1
  (m.setSession s { n.sessions s with sentRoutes := true }).setPeer s
    { m.peers s with adv := { (m.peers s).adv with eobPending := true } }

/-- The drain of an answer does not read whether our routes were sent. -/
theorem answerStatusPos_eq (n : Node) (s : Slot) :
    (n.answerStatusPos s).setSession s
        { (n.answerStatusPos s).sessions s with sentRoutes := true } =
      (n.walked s).flexAdvertiseDrain s := by
  set m := (n.flexAdvertiseWalkForPeer s false true).1 with hm
  set x : Session := { n.sessions s with sentRoutes := true } with hx
  have hdrain := @Env.flexAdvertiseDrain_congr m.toEnv (m.setSession s x).toEnv s rfl rfl
    (by rw [setSession_sessions_self]; rfl) (by rw [setSession_sessions_self]; rfl)
    (by rw [setSession_sessions_self]; rfl)
  unfold flexAdvertiseDrain walked
  dsimp only
  rw [setPeer_toEnv, hdrain]
  rfl

/-- The answer to a `'3+'`: the walk, and the `'3-'` it owes. -/
theorem advances_answerStatusPos (n : Node) (s : Slot)
    (hest : g → (n.sessions s).flexIsEstablished = true) (htransit : n.cfg.transit = true)
    (hR : g → R s) :
    n.Advances g R ((n.answerStatusPos s).setSession s
      { (n.answerStatusPos s).sessions s with sentRoutes := true }) := by
  set m := (n.flexAdvertiseWalkForPeer s false true).1 with hm
  set x : Session := { n.sessions s with sentRoutes := true } with hx
  have hsent : m.Advances g R (m.setSession s x) :=
    advances_setSession m ⟨rfl, rfl, rfl⟩ fun _ => Session.answered_mono (fun _ => rfl) id
  have howed : (m.setSession s x).Advances g R (n.walked s) := by
    refine advances_owe (m.setSession s x) s fun hg => ⟨hR hg, htransit, ?_⟩
    rw [setSession_sessions_self, Session.answered, Bool.and_eq_true]
    exact ⟨rfl, hest hg⟩
  rw [answerStatusPos_eq]
  exact (advances_walk n s false true).trans (hsent.trans (howed.trans (advances_drain _ s)))

theorem advances_handleStatusPos (n : Node) (s : Slot) (hup : (n.sessions s).active = true)
    (hconn : g → ∃ l, (n.sessions s).link = some l ∧ (n.links l).flexL2Connected = true)
    (hR : g → R s) : n.Advances g R (n.handleStatusPos s) := by
  unfold handleStatusPos
  extract_lets n₁ x n₂ n₃ n₄
  have h₁ : n.Advances g R n₁ := advances_flexNotePeerEstablished n s
  have hup₁ : (n₁.sessions s).active = true := by rw [flexNotePeerEstablished_active, hup]
  have hest₁ : g → (n₁.sessions s).flexIsEstablished = true := fun hg =>
    flexNotePeerEstablished_established n (hconn hg)
  have h₂ : n₁.Advances g R n₂ :=
    .ite (advances_release n₁ s fun hg => .inl (hR hg)) (.refl n₁)
  have hsame₂ : n₂.toEnv = n₁.toEnv := by
    simp only [n₂]
    split_ifs <;> rfl
  have hreleased : (n₂.peers s).pcfQuiesced = false := by
    simp only [n₂]
    split_ifs with hlatch
    · simp [x]
    · simpa using hlatch
  have h₃ : n₂.Advances g R n₃ := by
    refine advances_ownRoutes n₂ s _ (fun _ => ⟨by rw [hsame₂, hup₁], .inr ?_⟩)
      fun _ htransit => .inr (.inl htransit)
    simp [Config.recordsAllowed, hreleased]
  have h₄ : n₃.Advances g R (n₄.setSession s { n₄.sessions s with sentRoutes := true }) := by
    simp only [n₄]
    split_ifs with htransit
    · refine advances_answerStatusPos n₃ s (fun hg => ?_) htransit hR
      rw [show n₃.sessions = n₁.sessions from congrArg Env.sessions hsame₂]
      exact hest₁ hg
    · exact advances_setSession n₃ ⟨rfl, rfl, rfl⟩ fun _ =>
        Session.answered_mono (fun _ => rfl) id
  exact h₁.trans <| h₂.trans <| h₃.trans h₄

theorem advances_handleCompact (n : Node) (s : Slot) (data : CStr) :
    n.Advances g R (n.handleCompact s data) :=
  (advances_flexNotePeerEstablished n s).trans
    (.foldl (fun n r => advances_flexDtableMerge n r s) _ _)

/-- A frame the peer of a session restarts its view with: a `'3+'`, or an INIT that is answered as
a restart. -/
def asks (n : Node) (s : Slot) (data : CStr) : Bool :=
  flexParseCeFrame n.cfg.lt3byte data == some .statusPos ||
    (flexParseCeFrame n.cfg.lt3byte data == some .init && n.reinits s)

theorem advances_handleFrame (n : Node) (s : Slot) (data : CStr)
    (hup : (n.sessions s).active = true)
    (hconn : g → ∃ l, (n.sessions s).link = some l ∧ (n.links l).flexL2Connected = true)
    (hR : g → n.asks s data = true → R s) : n.Advances g R (n.handleFrame s data) := by
  unfold handleFrame
  split
  · rename_i htype
    exact advances_handleInit n s data hup fun hg hre => hR hg (by simp [asks, htype, hre])
  · exact advances_handleKeepalive n s data hup
  · exact advances_handleLinkTime n s data
  · rename_i htype
    refine advances_send_of_nil n s (fun _ => by simp [frameRecords, htype]) fun _ htoken => ?_
    have hneg : ∀ lt3byte, flexParseCeFrame lt3byte releaseToken = some .statusNeg := by decide
    rw [htoken, hneg] at htype
    cases htype
  · rename_i htype
    exact advances_handleStatusPos n s hup hconn fun hg => hR hg (by simp [asks, htype])
  · exact advances_handleCompact n s data
  · exact .refl n

/-- A session found by its row is up, on that row. -/
theorem of_flexFindSession (h : n.flexFindSession l = some s) :
    (n.sessions s).active = true ∧ (n.sessions s).link = some l := by
  have hs := List.find?_some h
  simp only [Bool.and_eq_true, beq_iff_eq] at hs
  exact ⟨hs.1.2, hs.2⟩

/-- The flags of the rows are no part of whether they are connected. -/
theorem flagLink_connected (n : Node) (l l' : LinkId) (b : Bool) :
    ((n.flagLink l b).links l').flexL2Connected = (n.links l').flexL2Connected := by
  unfold flagLink setLink
  by_cases hl : l' = l
  · subst hl
    simp [Link.flexL2Connected]
  · simp [Function.update_of_ne hl]

theorem flexNetInitSession_connected (n : Node) (l : LinkId) (port : ℕ) (l' : LinkId) :
    ((n.flexNetInitSession l port).links l').flexL2Connected = (n.links l').flexL2Connected := by
  have hreenter : ∀ (n : Node) s, ((n.reenterSession s l).links l').flexL2Connected =
      (n.links l').flexL2Connected := fun n s => by
    unfold reenterSession
    dsimp only
    split_ifs <;> exact flagLink_connected n l l' true
  unfold flexNetInitSession
  split
  · exact hreenter n _
  · split
    · split
      · rfl
      · rw [hreenter, flagLink_connected]
    · split
      · rfl
      · rename_i i _
        unfold startSession
        extract_lets call newCall n₁ n₂ x n₃ n₄ n₅ st n₆ n₇ n₈ n₉ sess n₁₀
        have hadopt : n₅.links = n.links := by
          simp only [n₅]
          unfold flexLearnedAdopt
          split_ifs
          · rfl
          · split
            · rfl
            · split_ifs <;> rfl
        exact (flagLink_connected n₈ l l' true).trans (by rw [show n₈.links = n.links from hadopt])

/-- The node when a frame of a row is dispatched: the row has its session. -/
def atFrame (n : Node) (l : LinkId) : Node :=
  if (n.flexFindSession l).isSome then n else n.flexNetInitSession l ((n.links l).port.getD 0)

theorem advances_flexNetProcessCE (n : Node) (l : LinkId) (data : CStr)
    (hconn : g → (n.links l).flexL2Connected = true)
    (hR : g → ∀ p, (n.atFrame l).flexFindSession l = some p → (n.atFrame l).asks p data = true →
      R p) : n.Advances g R (n.flexNetProcessCE l data) := by
  have hframe : ∀ m : Node, (g → (m.links l).flexL2Connected = true) → n.atFrame l = m → ∀ s,
      m.flexFindSession l = some s → m.Advances g R (m.handleFrame s data) := by
    intro m hm hat s hs
    obtain ⟨hup, hlink⟩ := of_flexFindSession hs
    exact advances_handleFrame m s data hup (fun hg => ⟨l, hlink, hm hg⟩) fun hg =>
      hat ▸ hR hg s (hat ▸ hs)
  unfold flexNetProcessCE
  refine .ite (.refl n) ?_
  split
  · rename_i s hs
    exact hframe n hconn (if_pos (by rw [hs]; rfl)) s hs
  · rename_i hnone
    extract_lets m
    have hat : n.atFrame l = m := if_neg (by rw [hnone]; simp)
    have hinit : n.Advances g R m := advances_flexNetInitSession n l _
    refine hinit.trans ?_
    split
    · rename_i s hs
      exact hframe m (fun hg => (flexNetInitSession_connected n l _ l).trans (hconn hg)) hat s hs
    · exact .refl m

/-- The node when the dispatch of `L2Code.c` has seen to a mapped peer's session. -/
def dispatched (n : Node) (l : LinkId) (port : ℕ) : Node :=
  if !(n.links l).flexNetLink && n.flexNetIsPeerFlexNetMapped (n.links l).linkCall port then
    n.flexNetInitSession l port
  else n

theorem advances_ceReceived (n : Node) (l : LinkId) (port : ℕ) (data : CStr)
    (hconn : g → (n.links l).flexL2Connected = true)
    (hR : g → ∀ p, ((n.dispatched l port).atFrame l).flexFindSession l = some p →
      ((n.dispatched l port).atFrame l).asks p data = true → R p) :
    n.Advances g R (n.ceReceived l port data) := by
  have hinit : n.Advances g R (n.dispatched l port) :=
    .ite (advances_flexNetInitSession n l port) (.refl n)
  have hconn' : g → ((n.dispatched l port).links l).flexL2Connected = true := fun hg => by
    unfold dispatched
    split_ifs
    · rw [flexNetInitSession_connected, hconn hg]
    · exact hconn hg
  exact hinit.trans (.ite (advances_flexNetProcessCE _ l data hconn' hR) (.refl _))

/-! ## The timer -/

theorem advances_keepPortLink (n : Node) (i : ℕ) : n.Advances g R (n.keepPortLink i) := by
  have hset : ∀ (m : Node) pl, m.Advances g R (m.setPortLink i pl) := fun m pl => .of_eq rfl rfl
  unfold keepPortLink
  split
  · exact .refl n
  · refine .ite (.refl n) ?_
    split
    · refine .ite (.refl n) ((hset n _).trans (.ite ?_ (.refl _)))
      exact advances_flexNetInitSession _ _ _
    · refine .ite (hset n _) (.ite (.refl n) ?_)
      split
      · exact hset n _
      · exact (advances_setLink n _ _).trans (hset _ _)

theorem advances_flexPortLinksKeep (n : Node) : n.Advances g R n.flexPortLinksKeep := by
  have hscan : n.Advances g R { n with portLinkScanned := n.now } := .of_eq rfl rfl
  exact .ite (.refl n) (.ite (.refl n) (hscan.trans (.foldl advances_keepPortLink _ _)))

theorem advances_proactiveInit (n : Node) : n.Advances g R n.proactiveInit := by
  have hscan : n.Advances g R { n with lastProactiveInitScan := n.now } := .of_eq rfl rfl
  refine .ite (.refl n) (hscan.trans (.foldl (fun n li => .ite ?_ (.refl n)) _ _))
  exact advances_flexNetInitSession n li _

theorem advances_serveKeepalive (n : Node) (s : Slot) : n.Advances g R (n.serveKeepalive s) := by
  unfold serveKeepalive
  refine .ite (.refl n)
    (((advances_sendKeepalive n s).trans (advances_flexSendLinkTime _ s)).trans ?_)
  exact advances_touchSession _ ⟨rfl, rfl, rfl, rfl⟩

theorem advances_serveRefresh (n : Node) (s : Slot) (hup : (n.sessions s).active = true) :
    n.Advances g R (n.serveRefresh s) := by
  refine .dite (fun hgate => ?_) fun _ => .refl n
  simp only [Bool.and_eq_true, Bool.not_eq_true'] at hgate
  obtain ⟨⟨⟨-, hallow⟩, heob⟩, -⟩ := hgate
  have hown : (n.anchorAdvert s).Advances g R ((n.anchorAdvert s).flexSendOwnRoutes s false) :=
    advances_ownRoutes _ s false (fun _ => ⟨hup, .inr hallow⟩) fun _ _ => .inr (.inr heob)
  exact (advances_anchorAdvert n s).trans (hown.trans (advances_flexAdvertiseNeighbours _ s))

theorem advances_serveReseed (n : Node) (s : Slot) (hup : (n.sessions s).active = true) :
    n.Advances g R (n.serveReseed s) :=
  .ite (advances_seedIfUnsent n s hup) (.refl n)

theorem advances_serveSession (n : Node) (s : Slot) : n.Advances g R (n.serveSession s) := by
  refine .dite (fun _ => .refl n) fun hgate => ?_
  have hup : (n.sessions s).active = true := by
    simp only [Bool.or_eq_true, Bool.not_eq_true', not_or, Bool.not_eq_false] at hgate
    exact hgate.1
  have hup' : ((n.serveKeepalive s).sessions s).active = true := by
    rw [(sameRoutes_serveKeepalive n s).active, hup]
  exact (advances_serveKeepalive n s).trans ((advances_serveRefresh _ s hup').trans
    ((advances_serveReseed _ s (by rw [(sameRoutes_serveRefresh _ s).active, hup'])).trans
      (advances_drain _ s)))

theorem advances_flexNetTimer (n : Node) : n.Advances g R n.flexNetTimer :=
  ((advances_flexPortLinksKeep n).trans (advances_flexLinkOptsPoll _)).trans <|
    (Advances.foldl advances_reapTurn slots _).trans <|
      (advances_proactiveInit _).trans <| .foldl advances_serveSession slots _

/-! ## Runs -/

theorem advances_sendPath (n : Node) (s : Slot) {pid : UInt8} {data : CStr}
    (h : pid = pidCE → data.head? ≠ some 0x33) :
    n.Advances g R (n.sendPath s pid data) :=
  .ite (advances_send_of_nil n s (fun hpid => Env.frameRecords_of_ne (h hpid)) fun hpid htoken =>
    h hpid (by rw [htoken]; rfl)) (.refl n)

theorem advances_loadPathRow (n : Node) (k : Key) (path : List Callsign) (updated : ℤ) :
    n.Advances g R (n.loadPathRow k path updated) := by
  unfold loadPathRow
  split
  · exact advances_dests n _
  · exact .ite (advances_dests n _) (.refl n)

/-- BPQ hands over the frames of connected rows. -/
def Heard (n : Node) : Event → Prop
  | .processCE l _ => (n.links l).flexL2Connected = true
  | .ceReceived l _ _ => (n.links l).flexL2Connected = true
  | _ => True

/-- The event is a `'3+'` of peer `p`, an INIT of it that is answered as a restart, or the note of a
restart of it. -/
def Wakes (n : Node) (p : Slot) : Event → Prop
  | .processCE l data =>
    (n.atFrame l).flexFindSession l = some p ∧ (n.atFrame l).asks p data = true
  | .ceReceived l port data =>
    ((n.dispatched l port).atFrame l).flexFindSession l = some p ∧
      ((n.dispatched l port).atFrame l).asks p data = true
  | .notePeerL2Restart call port => n.restarted call port = some p
  | _ => False

/-- Every event of the node is, for every peer, a run of its machine; where the frames are heard on
connected rows the runs pass the gates, and the latch of a session that is up is lifted by the
events that wake its peer only. -/
theorem advances_event (n : Node) (ev : Event) (hheard : g → n.Heard ev)
    (hR : g → ∀ p, n.Wakes p ev → R p) : n.Advances g R (n.event ev) := by
  cases ev with
  | clock seconds ticks =>
      refine .alike ⟨rfl, ?_, fun _ => rfl, fun _ _ => ⟨rfl, rfl, rfl, rfl, fun _ => rfl⟩⟩ rfl
        fun _ _ => stays_of_eq rfl
      simp [event]
  | row l x => exact advances_setLink n l x
  | mapTable ports => exact .of_eq rfl rfl
  | initSession l port => exact advances_flexNetInitSession n l port
  | closeSession l => exact advances_flexNetCloseSession n l
  | notePeerL2Restart call port => exact advances_flexNetNotePeerL2Restart n call port hR
  | tryAdoptSession l port => exact advances_flexNetTryAdoptSession n l port
  | sabm l port => exact advances_sabmAccepted n l port
  | processCE l data =>
      exact advances_flexNetProcessCE n l data hheard fun hg p hfind hasks => hR hg p ⟨hfind, hasks⟩
  | ceReceived l port data =>
      exact advances_ceReceived n l port data hheard fun hg p hfind hasks => hR hg p ⟨hfind, hasks⟩
  | timer => exact advances_flexNetTimer n
  | heal i => exact advances_dests n _
  | pathCache rows =>
      exact .foldl (fun n row => advances_loadPathRow n row.1 row.2.1 row.2.2) rows n
  | pathFrame s reply body =>
      refine advances_sendPath n s fun _ => ?_
      cases reply <;> simp
  | l3Frame s data => exact advances_sendPath n s fun h => absurd h (by decide)

/-- Every event of the node is, for every peer, a run of its machine. -/
theorem evolves_event (n : Node) (ev : Event) : n.Evolves (n.event ev) :=
  (advances_event (g := False) (R := fun _ => True) n ev False.elim fun _ _ _ => trivial).evolves

theorem evolves_after (n : Node) (events : List Event) : n.Evolves (n.after events) :=
  .foldl evolves_event events n

theorem linked_boot (cfg : Config) (ports : List AxipPort) (portLinks : List PortLink)
    (links : LinkId → Link) (now : ℤ) : (boot cfg ports portLinks links now).Linked :=
  fun _ hup => by cases hup

/-- Whatever happens to the node, what happens to one peer is a run of that peer's machine from
its start. -/
theorem after_peerRun (cfg : Config) (ports : List AxipPort) (portLinks : List PortLink)
    (links : LinkId → Link) (now : ℤ) (events : List Event) (p : Slot) :
    ∃ acts, PeerRun p (View.start (boot cfg ports portLinks links now).toEnv) acts
      (((boot cfg ports portLinks links now).after events).view p) :=
  (evolves_after _ events (linked_boot cfg ports portLinks links now)).2 p

end Node

end FlexNet
