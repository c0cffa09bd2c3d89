import FlexNet.Exchange.Ticked
import FlexNet.L2.Buffers
import FlexNet.Links.Found

/-!
# A station that restarts its L2 session

BPQ reports a SABM of a station that it has no link for (`FlexNet_NotePeerL2Restart`), writes a row
for it, and accepts the SABM (`FlexNet_TryAdoptSession`, else `FlexNet_InitSession`).  A quiesced
session is released, the session of a `FLEXNETLINK` neighbour is closed for a new one, and any other
session of the station is carried over as it is.  A session that was released or is new has sent
nothing yet, and is told everything by the first tick that finds it established
(`restarted_told`).
-/

namespace FlexNet

open Runs

namespace View

variable {g R : Prop} {p : Slot} {v w : View}

/-- The queue of a peer only grows. -/
theorem wire_apply (v : View) (p : Slot) (act : PeerAct) :
    v.peer.wire <+: (v.apply p act).peer.wire := by
  cases act with
  | send pid data => exact Node.flexSendFrame_isPrefix _ _ _ _ _
  | clear => exact List.prefix_append _ _
  | close frames =>
      rcases drainEob_wire v.env (v.isPcf p) frames v.peer with h | h
      · exact h ▸ List.prefix_rfl
      · exact h ▸ List.prefix_append _ _
  | emit =>
      simp only [apply]
      unfold Env.emitFrame
      dsimp only
      split_ifs
      · exact List.prefix_rfl
      · exact Node.flexSendFrame_isPrefix _ _ _ _ _
  | check k force =>
      simp only [apply]
      rw [Env.flexAdvertiseCheck_frame]
  | tables | rename | refill | owe | release => exact List.prefix_rfl

theorem wire_run {acts : List PeerAct} (hrun : PeerRun p v acts w) :
    v.peer.wire <+: w.peer.wire :=
  hrun.invariant (I := fun u => v.peer.wire <+: u.peer.wire)
    (fun u act h _ => h.trans (u.wire_apply p act)) List.prefix_rfl

end View

namespace Node

variable {n m o k r u v w : Node} {s i : Slot} {l : LinkId} {port : ℕ} {call : AxCall}

/-! ## What passes -/

/-- The options are the same, and what holds of every peer's run goes on holding. -/
theorem Passes.kept (h : n.Passes m) (hn : n.Linked) (s : Slot) :
    m.Linked ∧ m.cfg = n.cfg ∧ (n.peers s).wire <+: (m.peers s).wire ∧
      ((n.peers s).adv.Sound → (m.peers s).adv.Sound) ∧
      ((n.view s).Answered s → (m.view s).Answered s) := by
  obtain ⟨hlinked, hrun⟩ := h hn
  obtain ⟨acts, hacts⟩ := hrun s
  refine ⟨hlinked, ?_, View.wire_run hacts.peerRun, fun hs => ?_, fun ha => ?_⟩
  · exact hacts.invariant (I := fun v => v.env.cfg = n.cfg)
      (fun v a hv ha => (View.cfg_apply ha.1).trans hv) rfl
  · exact hacts.invariant (I := fun v => v.peer.adv.Sound)
      (fun v a hv _ => View.sound_apply hv a) hs
  · exact hacts.invariant (I := View.Answered s) (fun v a hv ha => View.answered_apply hv ha) ha

theorem Passes.clock (h : n.Passes m) (hn : n.Linked) : n.now ≤ m.now := by
  obtain ⟨acts, hacts⟩ := (h hn).2 0
  exact hacts.invariant (I := fun v => n.now ≤ v.env.now) (fun v a hv ha =>
    hv.trans (View.now_apply ha.1)) le_rfl

/-- The own frame was queued to the peer of a slot in the step to `r`, and every destination that
may be told was told again. -/
def Tells (k : Node) (s : Slot) (r : Node) : Prop :=
  ((∀ i, k.cfg.getBuff s i = true) → ∃ gained, (r.peers s).wire = (k.peers s).wire ++ gained ∧
    k.cfg.ownFrame.toList.map (.frame pidCE) ⊆ gained) ∧
  ∀ dest, r.toEnv.Eligible s dest → (r.peers s).Retells dest

/-- A session that has not been told is not quiesced. -/
theorem recordsAllowed_unsent (hans : (v.view s).Answered s) (hup : (v.sessions s).active = true)
    (hunsent : (v.sessions s).sentRoutes = false) : v.cfg.recordsAllowed (v.peers s) = true := by
  by_contra hshut
  have hlatch : (v.peers s).pcfQuiesced = true := by
    simp only [Config.recordsAllowed, Bool.not_eq_true', Bool.and_eq_false_iff] at hshut
    simp only [not_or, Bool.not_eq_false] at hshut
    exact hshut.2
  have howed : (v.view s).Owed := .inl hlatch
  have hanswered := hans hup howed
  rw [Session.answered, Bool.and_eq_true, show (v.view s).env.sessions s = v.sessions s from rfl,
    hunsent] at hanswered
  cases hanswered.1

/-- In the step in which its flag comes on, the peer of a slot is told. -/
theorem Seeds.tells (h : k.Seeds s r) (hk : k.Linked) (hsound : (k.peers s).adv.Sound)
    (hans : (k.view s).Answered s) : k.Tells s r := by
  obtain ⟨v, hpass, hseeds⟩ := h
  obtain ⟨-, hcfg, hwire, hkeep, hanswered⟩ := hpass.kept hk s
  refine ⟨fun hbuf => ?_, fun dest hdest => ?_⟩
  · obtain ⟨before, hbefore⟩ := hwire
    obtain ⟨gained, hgained, hown⟩ := hseeds.own (hcfg ▸ hbuf)
    refine ⟨before ++ gained, ?_, hcfg ▸ List.subset_append_of_subset_right _ hown⟩
    rw [hgained, ← hbefore, List.append_assoc]
  · have hdest' : v.toEnv.Eligible s dest := hseeds.same.symm.eligible hdest
    exact hseeds.told (hkeep hsound)
      (recordsAllowed_unsent (hanswered hans) hdest'.up hseeds.unsent) dest hdest'

/-! ## Runs -/

/-- In a run in which the flag comes on, the peer of the slot is told in one of the events. -/
theorem told_of_sent {es : List Event} (hheard : Chain Node.event Heard k es) (hk : k.Linked)
    (hsound : (k.peers s).adv.Sound) (hans : (k.view s).Answered s)
    (hunsent : (k.sessions s).sentRoutes = false)
    (hsent : ((k.after es).sessions s).sentRoutes = true) :
    ∃ es₁ ev es₂, es = es₁ ++ ev :: es₂ ∧ (k.after es₁).Tells s ((k.after es₁).event ev) := by
  induction es generalizing k with
  | nil =>
      rw [show k.after [] = k from rfl, hunsent] at hsent
      cases hsent
  | cons ev es ih =>
      cases hnow : ((k.event ev).sessions s).sentRoutes with
      | true => exact ⟨[], ev, es, rfl, (event_seeds ⟨hunsent, hnow⟩).tells hk hsound hans⟩
      | false =>
          have hpass : k.Passes (k.event ev) :=
            advances_event k ev (fun _ => hheard.1) fun _ _ _ => trivial
          obtain ⟨hlinked, -, -, hkeep, hanswered⟩ := hpass.kept hk s
          obtain ⟨es₁, ev', es₂, hes, htold⟩ :=
            ih hheard.2 hlinked (hkeep hsound) (hanswered hans) hnow hsent
          exact ⟨ev :: es₁, ev', es₂, congrArg (ev :: ·) hes, htold⟩

/-- A tick leaves no session that is up and established without our table. -/
theorem sent_flexNetTimer (hn : n.Linked) (htransit : n.cfg.transit = true)
    (hup : (n.flexNetTimer.sessions s).active = true)
    (hest : (n.flexNetTimer.sessions s).flexIsEstablished = true) :
    (n.flexNetTimer.sessions s).sentRoutes = true := by
  rw [flexNetTimer_eq] at hup hest ⊢
  obtain ⟨v, -, hpass, hafter⟩ := serveSessions_split n.serving s
  have hserved : n.Passes v := (passes_serving n).trans hpass
  obtain ⟨hlinked, hcfg, -⟩ := hserved.kept hn s
  rw [hafter.session] at hup hest ⊢
  by_cases hgate : (!(v.sessions s).active || (v.sessions s).link.isNone) = true
  · -- a session that is up has a row
    rw [serveSession, if_pos hgate] at hup
    have hrow : (v.sessions s).link.isSome = true := hlinked s hup
    simp [hup, Option.isSome_iff_ne_none.mp hrow] at hgate
  · rw [serveSession, if_neg hgate] at hup hest ⊢
    have htransit' : ((v.serveKeepalive s).serveRefresh s).cfg.transit = true := by
      rw [(sameRoutes_serveRefresh _ s).cfg, (sameRoutes_serveKeepalive v s).cfg, hcfg]
      exact htransit
    generalize (v.serveKeepalive s).serveRefresh s = u at hest htransit' ⊢
    change ((u.serveReseed s).sessions s).flexIsEstablished = true at hest
    change ((u.serveReseed s).sessions s).sentRoutes = true
    unfold serveReseed at hest ⊢
    split_ifs at hest ⊢ with hreseed
    · unfold seedIfUnsent
      split_ifs with hsent
      · exact hsent
      · dsimp only
        rw [(flexAdvertiseSeedPeer_fields _ s).1, setSession_sessions_self]
    · exact absurd (by simp [htransit', hest]) hreseed

/-! ## The SABM -/

/-- Sessions may have ended, and the others are left. -/
structure Ends (n m : Node) : Prop where
  linkCall : ∀ l, (m.links l).linkCall = (n.links l).linkCall
  kept : ∀ i, (m.sessions i).active = true → m.sessions i = n.sessions i
  counted : n.Counted → m.Counted

theorem Ends.refl (n : Node) : n.Ends n := ⟨fun _ => rfl, fun _ _ => rfl, id⟩

theorem Ends.trans (h : n.Ends m) (h' : m.Ends o) : n.Ends o where
  linkCall l := (h'.linkCall l).trans (h.linkCall l)
  kept i hup := by
    have hlast := h'.kept i hup
    exact hlast.trans (h.kept i (hlast ▸ hup))
  counted := h'.counted ∘ h.counted

theorem Ends.foldl {α : Type*} {f : Node → α → Node} (h : ∀ (n : Node) a, n.Ends (f n a))
    (as : List α) (n : Node) : n.Ends (as.foldl f n) := by
  induction as generalizing n with
  | nil => exact .refl n
  | cons a as ih => exact (h n a).trans (ih _)

theorem flexNetCloseSession_sessions (h : n.flexFindSession l = some s) :
    (n.flexNetCloseSession l).sessions =
      Function.update n.sessions s { n.sessions s with active := false, link := none } := by
  unfold flexNetCloseSession
  rw [h]
  exact flexAdvertisePoisonSession_sessions _ s

theorem ends_flexNetCloseSession (n : Node) (l : LinkId) : n.Ends (n.flexNetCloseSession l) := by
  refine ⟨fun l' => ?_, fun i hup => ?_, (seatMoves_flexNetCloseSession n l).counted⟩
  · unfold flexNetCloseSession
    split
    · rfl
    · rename_i s _
      dsimp only
      rw [(onlyPeers_poisonSession _ s).toEnv]
      split_ifs <;> exact flagLink_linkCall _ l false l'
  · cases hfind : n.flexFindSession l with
    | none =>
        unfold flexNetCloseSession
        rw [hfind]
    | some s =>
        rw [flexNetCloseSession_sessions hfind] at hup ⊢
        by_cases hi : i = s
        · subst hi
          simp at hup
        · rw [Function.update_of_ne hi]

theorem ends_closeReplaced (n : Node) (l : LinkId) (port : ℕ) (i : Slot) :
    n.Ends (n.closeReplaced l port i) := by
  unfold closeReplaced
  dsimp only
  split
  · exact .refl n
  · split_ifs
    · exact ends_flexNetCloseSession n _
    · exact .refl n

/-- A session of the neighbour that has its row to itself is closed. -/
theorem closed_of_replaced (hn : n.Counted) {row : LinkId} (hport : (n.sessions s).port = port)
    (hcall : (n.sessions s).peerCallsign.same (n.links l).linkCall = true)
    (hrow : (n.sessions s).link = some row) (halone : ∀ i, n.OnRow i row → i = s) :
    ((slots.foldl (fun n i => n.closeReplaced l port i) n).sessions s).active = false := by
  obtain ⟨rest, hslots, -⟩ := slots_split s
  set pre := slots.takeWhile fun i => i != s
  rw [hslots, List.foldl_append, List.foldl_cons]
  set u := pre.foldl (fun n i => n.closeReplaced l port i) n
  have hbefore : n.Ends u := .foldl (fun n i => ends_closeReplaced n l port i) pre n
  have hafter :=
    Ends.foldl (fun n i => ends_closeReplaced n l port i) rest (u.closeReplaced l port s)
  by_contra hup
  have hup' : ((u.closeReplaced l port s).sessions s).active = true :=
    hafter.kept s (by simpa using hup) ▸ (by simpa using hup)
  have hturn : u.sessions s = n.sessions s :=
    hbefore.kept s ((ends_closeReplaced u l port s).kept s hup' ▸ hup')
  have hupu : (u.sessions s).active = true := (ends_closeReplaced u l port s).kept s hup' ▸ hup'
  -- the row of the session finds it
  have hrowu : (u.sessions s).link = some row := hturn ▸ hrow
  obtain ⟨i, hfind, hupi, hrowi⟩ := (hbefore.counted hn).found hupu hrowu
  obtain rfl : i = s := halone i ⟨hbefore.kept i hupi ▸ hupi, hbefore.kept i hupi ▸ hrowi⟩
  have hcond : ((u.sessions i).active && (u.sessions i).port == port &&
      (u.sessions i).peerCallsign.same (u.links l).linkCall) = true := by
    rw [hturn, hbefore.linkCall l, hcall, hport, ← hturn, hupu]
    simp
  have hclosed : u.closeReplaced l port i = u.flexNetCloseSession row := by
    unfold closeReplaced
    simp only [hrowu]
    rw [if_pos hcond]
  rw [hclosed, flexNetCloseSession_sessions hfind] at hup'
  simp at hup'

/-- `FlexNet_InitSession` brings a session up by starting it. -/
theorem flexNetInitSession_up (hup : ((n.flexNetInitSession l port).sessions s).active = true) :
    (n.sessions s).active = true ∨ n.flexNetInitSession l port = n.startSession s l port := by
  unfold flexNetInitSession at hup ⊢
  split at hup
  · exact .inl (by rwa [(n.reenterSession_rows _ l).2.1] at hup)
  · split at hup
    · split at hup
      · exact .inl hup
      · exact .inl (by rwa [((n.flagLink _ false).reenterSession_rows _ l).2.1] at hup)
    · split at hup
      · exact .inl hup
      · rename_i i _
        by_cases hi : s = i
        · exact .inr (by rw [hi])
        · exact .inl ((n.startSession_onlySlot i l port).1.others s hi |>.2 ▸ hup)

theorem startSession_cleared (n : Node) (s : Slot) (l : LinkId) (port : ℕ) :
    ((n.startSession s l port).peers s).adv = {} := by
  unfold startSession
  extract_lets call newCall n₁ n₂ x n₃ n₄ n₅ st n₆ n₇ n₈ n₉ sess n₁₀
  have h₄ : (n₄.peers s).adv = {} := congrArg Peer.adv (setPeer_peers_self ..)
  have h₅ : n₅.peers = n₄.peers := (flexLearnedAdopt_peers n₄ s newCall).1
  have h₈ : (n₈.peers s).adv = {} := (congrArg (fun peers => (peers s).adv) h₅).trans h₄
  have h₉ : (n₉.peers s).adv = (n₈.peers s).adv := by
    simp [n₉, flexSendInit, sendKeepalive, Node.flexSendFrame, Env.flexSendFrame, flagLink]
  exact h₉.trans h₈

/-- A session that is carried over gets the row and its callsign. -/
theorem adoptSession_session (n : Node) (i : Slot) (l : LinkId) :
    (∀ s, s ≠ i → (n.adoptSession i l).sessions s = n.sessions s) ∧
      (n.adoptSession i l).sessions i =
        { n.sessions i with link := some l, peerCallsign := (n.links l).linkCall } := by
  unfold adoptSession
  extract_lets n₁ x n₂ n₃ y
  have h₁ : n₁.sessions = n.sessions ∧ (n₁.links l).linkCall = (n.links l).linkCall := by
    simp only [n₁]
    split_ifs
    · exact ⟨rfl, rfl⟩
    · exact ⟨unflagOldLink_sessions n i, (sameRoutes_unflagOldLink n i).linkCall l⟩
  have h₃ : n₃.sessions i = { n.sessions i with link := some l } := by
    rw [← h₁.1]
    exact setSession_sessions_self ..
  have hcall : (n₃.links l).linkCall = (n.links l).linkCall := by
    rw [← h₁.2]
    exact flagLink_linkCall (n₁.setSession i { x with link := some l }) l true l
  constructor
  · intro s hs
    rw [setSession_sessions_of_ne _ _ hs, ← h₁.1]
    exact setSession_sessions_of_ne n₁ _ hs
  · rw [setSession_sessions_self, hcall]
    simp only [y, h₃]
    rfl

/-- Adoption brings no session up. -/
theorem flexNetTryAdoptSession_up
    (hup : ((n.flexNetTryAdoptSession l port).1.sessions s).active = true) :
    (n.sessions s).active = true := by
  unfold flexNetTryAdoptSession at hup
  dsimp only at hup
  split_ifs at hup
  · exact hup
  · have hends := Ends.foldl (fun n i => ends_closeReplaced n l port i) slots n
    exact hends.kept s hup ▸ hup
  · exact hup
  · split at hup
    · exact hup
    · rename_i i _
      obtain ⟨hothers, hself⟩ := n.adoptSession_session i l
      by_cases hs : s = i
      · subst hs
        rwa [hself] at hup
      · rwa [hothers s hs] at hup

/-- The session of a `FLEXNETLINK` neighbour that the SABM on a row replaces. -/
structure Replaced (n : Node) (l : LinkId) (port : ℕ) (s : Slot) : Prop where
  declared : (flexPortLinkFind n.portLinks (n.links l).linkCall port).isSome = true
  port : (n.sessions s).port = port
  call : (n.sessions s).peerCallsign.same (n.links l).linkCall = true
  row : ∃ row, (n.sessions s).link = some row ∧ ∀ i, n.OnRow i row → i = s

/-- After the SABM a session that was down, or was replaced, has been started. -/
theorem sabmAccepted_started (hn : n.Counted)
    (hnamed : (n.links l).linkCall.isEmpty = false)
    (hmapped : n.flexNetIsPeerFlexNetMapped (n.links l).linkCall port = true)
    (hold : (n.sessions s).active = true → n.Replaced l port s)
    (hup : ((n.sabmAccepted l port).sessions s).active = true) :
    ∃ u : Node, n.sabmAccepted l port = u.startSession s l port := by
  have hcall : ((n.flagLink l true).links l).linkCall = (n.links l).linkCall :=
    flagLink_linkCall n l true l
  unfold sabmAccepted at hup ⊢
  rw [if_neg (by simp [hmapped])] at hup ⊢
  dsimp only at hup ⊢
  set f := n.flagLink l true with hf
  have hlast : ∀ {u : Node}, (u.sessions s).active = false →
      ((u.flexNetInitSession l port).sessions s).active = true →
        ∃ u' : Node, u.flexNetInitSession l port = u'.startSession s l port := fun hdown hup =>
    (flexNetInitSession_up hup).elim (fun h => absurd h (by simp [hdown])) fun h => ⟨_, h⟩
  by_cases hlive : (n.sessions s).active = true
  · obtain ⟨hdeclared, hport, hsame, row, hrow, halone⟩ := hold hlive
    have hreplace : f.flexNetTryAdoptSession l port =
        (slots.foldl (fun n i => n.closeReplaced l port i) f, false) := by
      unfold flexNetTryAdoptSession
      dsimp only
      rw [hcall, if_neg (by simp [hnamed])]
      exact if_pos hdeclared
    rw [hreplace, if_neg Bool.false_ne_true] at hup ⊢
    refine hlast (closed_of_replaced (n := f) ?_ hport (hcall ▸ hsame) hrow halone) hup
    exact hn
  · have hdown : ((f.flexNetTryAdoptSession l port).1.sessions s).active = false := by
      by_contra hadopted
      exact hlive (flexNetTryAdoptSession_up (n := f) (by simpa using hadopted))
    split_ifs at hup ⊢
    · exact absurd hup (by simp [hdown])
    · exact hlast hdown hup

/-- A quiesced session that BPQ reports a restart of. -/
def Released (n : Node) (call : AxCall) (port : ℕ) (s : Slot) : Prop :=
  n.restarted call port = some s ∧ (n.peers s).pcfQuiesced = true

/-- A quiesced session is released, and its table cleared. -/
theorem notePeerL2Restart_released (h : n.Released call port s) :
    ((n.flexNetNotePeerL2Restart call port).sessions s).sentRoutes = false ∧
      ((n.flexNetNotePeerL2Restart call port).peers s).adv = {} := by
  obtain ⟨hfound, hlatch⟩ := h
  unfold restarted at hfound
  unfold flexNetNotePeerL2Restart
  rw [hfound]
  dsimp only
  rw [if_neg (by simp [hlatch])]
  constructor
  · exact congrArg Session.sentRoutes (setSession_sessions_self ..)
  · exact congrArg Peer.adv (setPeer_peers_self ..)

/-- Any other session is left as it is. -/
theorem notePeerL2Restart_unquiesced (hfound : n.restarted call port = some s)
    (hlatch : (n.peers s).pcfQuiesced = false) : n.flexNetNotePeerL2Restart call port = n := by
  unfold restarted at hfound
  unfold flexNetNotePeerL2Restart
  rw [hfound]
  exact if_pos (by simp [hlatch])

/-- A station restarts its L2 session: BPQ reports its SABM, writes a row for it, and accepts. -/
def restart (call : AxCall) (port : ℕ) (l : LinkId) (x : Link) : List Event :=
  [.notePeerL2Restart call port, .row l x, .sabm l port]

theorem reached_kept (cfg : Config) (ports : List AxipPort) (portLinks : List PortLink)
    (links : LinkId → Link) (now : ℤ) {before : List Event} (s : Slot)
    (hheard : Chain Node.event Heard (boot cfg ports portLinks links now) before) :
    let n := (boot cfg ports portLinks links now).after before
    n.Linked ∧ (n.peers s).adv.Sound ∧ (n.view s).Answered s ∧ n.Counted := by
  have hpass : Passes _ _ := advances_after hheard
  obtain ⟨hlinked, -, -, hsound, hanswered⟩ :=
    hpass.kept (linked_boot cfg ports portLinks links now) s
  exact ⟨hlinked, hsound .empty, hanswered (View.answered_start _),
    (after_seatMoves _ before).counted (counted_boot cfg ports portLinks links now)⟩

/-- What the table of a peer says was sent since `t` stays so. -/
theorem sentSince_after {t : ℤ} (h : (n.view s).SentSince t) (hn : n.Linked) (es : List Event) :
    ((n.after es).view s).SentSince t := by
  obtain ⟨acts, hacts⟩ := (evolves_after n es hn).2 s
  exact View.sentSince_run hacts h

/-- The note of a restart leaves what the SABM reads. -/
theorem notePeerL2Restart_tables (n : Node) (call : AxCall) (port : ℕ) :
    (n.flexNetNotePeerL2Restart call port).portLinks = n.portLinks ∧
      (n.flexNetNotePeerL2Restart call port).axipPorts = n.axipPorts := by
  unfold flexNetNotePeerL2Restart
  split
  · exact ⟨rfl, rfl⟩
  · split_ifs <;> exact ⟨rfl, rfl⟩

/-- The session that a SABM replaces is the same after the note. -/
theorem Replaced.noted {x : Link} (h : (n.setLink l x).Replaced l port s)
    (hup : (n.sessions s).active = true) (call : AxCall) (port' : ℕ) :
    ((n.flexNetNotePeerL2Restart call port').setLink l x).Replaced l port s := by
  obtain ⟨hdeclared, hport, hsame, row, hrow, halone⟩ := h
  have hroutes := n.sameRoutes_flexNetNotePeerL2Restart call port'
  set m := n.flexNetNotePeerL2Restart call port'
  have hx : ∀ k : Node, ((k.setLink l x).links l).linkCall = x.linkCall := fun k =>
    congrArg Link.linkCall (Function.update_self ..)
  rw [hx] at hdeclared hsame
  obtain ⟨-, hlink, hcall, hport', -⟩ := hroutes.session ((hroutes.active s).trans hup)
  refine ⟨?_, hport'.trans hport, ?_, row, hlink.trans hrow, fun i hi => ?_⟩
  · rw [hx]
    exact (n.notePeerL2Restart_tables call port').1 ▸ hdeclared
  · rw [hx]
    exact hcall ▸ hsame
  · obtain ⟨hupi, hlinki, -⟩ := hroutes.session (i := i) hi.1
    exact halone i ⟨hupi, hlinki.symm.trans hi.2⟩

/-- After the SABM a session that is new or was released has sent nothing. -/
theorem restart_unsent {x : Link} (hn : n.Linked) (hcounted : n.Counted)
    (hsound : (n.peers s).adv.Sound)
    (hnamed : x.linkCall.isEmpty = false)
    (hmapped : n.flexNetIsPeerFlexNetMapped x.linkCall port = true)
    (hold : (n.sessions s).active = true → n.Released call port s ∨
      (n.setLink l x).Replaced l port s)
    (hrow : (n.after (restart call port l x)).OnRow s l) :
    ((n.after (restart call port l x)).sessions s).sentRoutes = false ∧
      ((n.after (restart call port l x)).view s).SentSince n.now := by
  set u := (n.flexNetNotePeerL2Restart call port).setLink l x with hu
  have hm : n.after (restart call port l x) = u.sabmAccepted l port := rfl
  rw [hm] at hrow ⊢
  have hnoted : n.Passes (n.flexNetNotePeerL2Restart call port) :=
    advances_flexNetNotePeerL2Restart n call port fun _ _ _ => trivial
  have hpass : n.Passes u := hnoted.trans (advances_setLink _ l x)
  obtain ⟨hlinked, -, -, hkeep, -⟩ := hpass.kept hn s
  have hclock : n.now ≤ u.now := hpass.clock hn
  have hsabm : u.Passes (u.sabmAccepted l port) := advances_sabmAccepted u l port
  by_cases hreleased : n.Released call port s
  · -- the note has released it
    obtain ⟨hunsent, hcleared⟩ := notePeerL2Restart_released hreleased
    have hu : (u.view s).SentSince n.now := by
      refine ⟨hkeep hsound, hclock, fun a ha => ?_⟩
      rw [View.entries, show (u.view s).peer.adv = {} from hcleared] at ha
      cases ha
    obtain ⟨acts, hacts⟩ := (hsabm hlinked).2 s
    refine ⟨by_contra fun hsent => ?_, View.sentSince_run hacts.peerRun hu⟩
    have hbefore := unseeds_sabmAccepted u l port (by simpa using hsent)
    rw [show u.sessions = (n.flexNetNotePeerL2Restart call port).sessions from rfl, hunsent]
      at hbefore
    cases hbefore
  · have hseats := sameSeats_flexNetNotePeerL2Restart n call port
    have hcall : (u.links l).linkCall = x.linkCall :=
      congrArg Link.linkCall (Function.update_self ..)
    have hmapped' : u.flexNetIsPeerFlexNetMapped (u.links l).linkCall port = true := by
      obtain ⟨hlinks, hports⟩ := n.notePeerL2Restart_tables call port
      have hopts : u.flexNetPeerLinkOpts x.linkCall port =
          n.flexNetPeerLinkOpts x.linkCall port := by
        unfold flexNetPeerLinkOpts
        rw [show u.axipPorts = n.axipPorts from hports, show u.portLinks = n.portLinks from hlinks]
      rw [hcall, flexNetIsPeerFlexNetMapped, hopts]
      exact hmapped
    obtain ⟨u', hu'⟩ : ∃ u' : Node, u.sabmAccepted l port = u'.startSession s l port := by
      refine sabmAccepted_started (hcounted.same (m := u) hseats.count hseats.active)
        (hcall.symm ▸ hnamed) hmapped'
        (fun hup => ?_) hrow.1
      have hup' : (n.sessions s).active = true := (hseats.active s).symm.trans hup
      exact ((hold hup').resolve_left hreleased).noted hup' call port
    obtain ⟨-, -, -, hkeep', -⟩ := hsabm.kept hlinked s
    refine ⟨by rw [hu', startSession_unsent], hkeep' (hkeep hsound),
      hclock.trans (hsabm.clock hlinked), fun a ha => ?_⟩
    have hcleared : ((u.sabmAccepted l port).view s).peer.adv = {} := by
      rw [hu']
      exact startSession_cleared u' s l port
    rw [View.entries, hcleared] at ha
    cases ha

/-- A session of a station of the MAP that is not quiesced is carried over to the row as it is. -/
theorem restart_carried {x : Link} (hnamed : x.linkCall.isEmpty = false)
    (hmapped : n.flexNetIsPeerFlexNetMapped x.linkCall port = true)
    (hfound : n.restarted call port = some s) (hlatch : (n.peers s).pcfQuiesced = false)
    (hnone : flexPortLinkFind n.portLinks x.linkCall port = none)
    (hadopts : slots.find? ((n.setLink l x).adoptsTo l port) = some s) :
    (n.after (restart call port l x)).sessions s =
        { n.sessions s with link := some l, peerCallsign := x.linkCall } ∧
      (n.after (restart call port l x)).peers = n.peers := by
  have hm : n.after (restart call port l x) = (n.setLink l x).sabmAccepted l port := by
    change ((n.flexNetNotePeerL2Restart call port).setLink l x).sabmAccepted l port = _
    rw [notePeerL2Restart_unquiesced hfound hlatch]
  rw [hm]
  set u := n.setLink l x
  have hcall : (u.links l).linkCall = x.linkCall := congrArg Link.linkCall (Function.update_self ..)
  set f := u.flagLink l true
  have hcallf : (f.links l).linkCall = x.linkCall := (flagLink_linkCall u l true l).trans hcall
  have hadoptsf : f.adoptsTo l port = u.adoptsTo l port := by
    funext i
    unfold adoptsTo
    rw [hcallf, hcall]
    rfl
  have htext : (flexNormalizeCallsign x.linkCall).isEmpty = false := by
    have hs := List.find?_some hadopts
    unfold adoptsTo at hs
    simp only [Bool.and_eq_true, Bool.not_eq_true', beq_iff_eq] at hs
    rw [← hcall, ← hs.2]
    exact hs.1.2
  have hadopted : f.flexNetTryAdoptSession l port = (f.adoptSession s l, true) := by
    unfold flexNetTryAdoptSession
    dsimp only
    rw [hcallf, if_neg (by simp [hnamed]), if_neg, if_neg (by simp [htext]), hadoptsf, hadopts]
    rw [show f.portLinks = n.portLinks from rfl, hnone]
    exact Bool.false_ne_true
  have hmapped' : u.flexNetIsPeerFlexNetMapped (u.links l).linkCall port = true := by
    rw [hcall]
    exact hmapped
  have haccepted : u.sabmAccepted l port = f.adoptSession s l := by
    unfold sabmAccepted
    rw [if_neg (by simp [hmapped'])]
    change (if (f.flexNetTryAdoptSession l port).2 = true then (f.flexNetTryAdoptSession l port).1
      else (f.flexNetTryAdoptSession l port).1.flexNetInitSession l port) = _
    rw [hadopted, if_pos rfl]
  rw [haccepted, (f.adoptSession_session s l).2, hcallf]
  refine ⟨rfl, ?_⟩
  unfold adoptSession
  dsimp only
  split_ifs
  · rfl
  · exact (f.unflagOldLink_exchange s).2.2

/-- A station restarts its L2 session.  Where its old session was quiesced, or is closed because the
station is declared by `FLEXNETLINK`, or where it had none: no entry of the table of the session on
the row is older than the SABM, and in every run up to a tick that leaves the session established
there is an event in which the own frame and every destination that may be told were queued again.
Any other session of a station of the MAP is carried over with its table. -/
theorem restarted_told (cfg : Config) (ports : List AxipPort) (portLinks : List PortLink)
    (links : LinkId → Link) (now : ℤ) {before : List Event}
    (hheard : Chain Node.event Heard (boot cfg ports portLinks links now) before)
    (call : AxCall) (port : ℕ) (l : LinkId) (x : Link) (s : Slot)
    (hnamed : x.linkCall.isEmpty = false) :
    let n := (boot cfg ports portLinks links now).after before
    let m := n.after (restart call port l x)
    n.flexNetIsPeerFlexNetMapped x.linkCall port = true →
    (m.OnRow s l → ((n.sessions s).active = true →
        n.Released call port s ∨ (n.setLink l x).Replaced l port s) →
      (∀ es, ∀ a ∈ ((m.after es).peers s).adv.advs, 0 ≤ a.lastRtt → n.now ≤ a.lastAt) ∧
      ∀ es, Chain Node.event Heard m (es ++ [.timer]) → n.cfg.transit = true →
        ((m.after (es ++ [.timer])).sessions s).active = true →
        ((m.after (es ++ [.timer])).sessions s).flexIsEstablished = true →
        ∃ es₁ ev es₂, es ++ [.timer] = es₁ ++ ev :: es₂ ∧
          (m.after es₁).Tells s ((m.after es₁).event ev)) ∧
    (n.restarted call port = some s → (n.peers s).pcfQuiesced = false →
      flexPortLinkFind n.portLinks x.linkCall port = none →
      slots.find? ((n.setLink l x).adoptsTo l port) = some s →
        m.sessions s = { n.sessions s with link := some l, peerCallsign := x.linkCall } ∧
          m.peers = n.peers) := by
  intro n m hmapped
  refine ⟨fun hrow hold => ?_, restart_carried hnamed hmapped⟩
  obtain ⟨hlinked, hsound, hanswered, hcounted⟩ :=
    reached_kept cfg ports portLinks links now s hheard
  obtain ⟨hunsent, hsince⟩ := restart_unsent hlinked hcounted hsound hnamed hmapped hold hrow
  have hpass : n.Passes m := advances_after ⟨trivial, trivial, trivial, trivial⟩
  obtain ⟨hlinkedm, hcfg, -, -, hkeep⟩ := hpass.kept hlinked s
  refine ⟨fun es => (sentSince_after hsince hlinkedm es).since, ?_⟩
  intro es hrun htransit hup hest
  refine told_of_sent hrun hlinkedm hsince.sound (hkeep hanswered) hunsent ?_
  have hticked : m.after (es ++ [.timer]) = (m.after es).flexNetTimer := by
    unfold Node.after
    rw [List.foldl_append]
    rfl
  rw [hticked] at hup hest ⊢
  refine sent_flexNetTimer (evolves_after m es hlinkedm).1 ?_ hup hest
  rw [after_cfg hlinkedm, hcfg]
  exact htransit

end Node

namespace Bench

open Node

/-- `A` and `B` are in the MAP of port 1. -/
def mapped : List AxipPort := [⟨1, [⟨addr 0x41, true, {}⟩, ⟨addr 0x42, true, {}⟩]⟩]

/-- `B` has been answered and is quiesced. -/
def quiescent : Node := (Node.boot (config true) mapped [] links 1000).after closing

/-- `B` restarts its L2 session, on a new row. -/
def quiescentAgain : Node := quiescent.after (restart (addr 0x42) 1 2 (row (addr 0x42)))

set_option maxRecDepth 10000 in
/-- `B` is released, and the next tick tells it everything. -/
theorem restarted_told_quiesced :
    (∀ es, ∀ a ∈ ((quiescentAgain.after es).peers slotB).adv.advs, 0 ≤ a.lastRtt →
      quiescent.now ≤ a.lastAt) ∧
    ∃ es₁ ev es₂, [Event.timer] = es₁ ++ ev :: es₂ ∧
      (quiescentAgain.after es₁).Tells slotB ((quiescentAgain.after es₁).event ev) := by
  have hheard : Chain Node.event Heard (Node.boot (config true) mapped [] links 1000) closing := by
    decide +kernel
  obtain ⟨hnone, hrun⟩ := (restarted_told (config true) mapped [] links 1000 hheard (addr 0x42) 1 2
    (row (addr 0x42)) slotB (by decide) (by decide +kernel)).1
      ⟨by decide +kernel, by decide +kernel⟩
    fun _ => .inl ⟨by decide +kernel, by decide +kernel⟩
  exact ⟨hnone, hrun [] ⟨trivial, trivial⟩ (by decide +kernel) (by decide +kernel)
    (by decide +kernel)⟩

/-- `B` is established, and told of `K`; then 100 s pass. -/
def settling : List Event :=
  [.initSession 0 1, .initSession 1 1, .processCE 1 (flexBuildInit 0), record 0 0x4B 10, .timer,
    .clock 100 0]

/-- The node after them. -/
def settled : Node := (Node.boot (config true) mapped [] links 1000).after settling

/-- `B` restarts its L2 session. -/
def settledAgain : Node := settled.after (restart (addr 0x42) 1 1 (row (addr 0x42)))

set_option maxRecDepth 10000 in
/-- A session that was not quiesced keeps its table over the SABM, and is told nothing by the next
tick. -/
theorem restarted_unquiesced :
    settled.flexNetIsPeerFlexNetMapped (addr 0x42) 1 = true ∧ settledAgain.OnRow slotB 1 ∧
    (settledAgain.sessions slotB).flexIsEstablished = true ∧
    (∃ a ∈ (settledAgain.peers slotB).adv.advs, 0 ≤ a.lastRtt ∧ a.lastAt < settled.now) ∧
    ¬ settledAgain.Tells slotB (settledAgain.event .timer) := by
  refine ⟨by decide +kernel, ⟨by decide +kernel, by decide +kernel⟩, by decide +kernel,
    by decide +kernel, fun htells => ?_⟩
  have hcfg : settledAgain.cfg = config true :=
    after_cfg (linked_boot (config true) mapped [] links 1000)
      (settling ++ restart (addr 0x42) 1 1 (row (addr 0x42)))
  obtain ⟨gained, hwire, hown⟩ := htells.1 fun _ => by rw [hcfg]; rfl
  have hgained : gained =
      ((settledAgain.event .timer).peers slotB).wire.drop
          (settledAgain.peers slotB).wire.length := by
    rw [hwire, List.drop_left]
  have hmissed : ¬ ∀ ev ∈ settledAgain.cfg.ownFrame.toList.map (WireEvent.frame pidCE),
      ev ∈ ((settledAgain.event .timer).peers slotB).wire.drop
        (settledAgain.peers slotB).wire.length := by
    decide +kernel
  exact hmissed fun ev hev => hgained ▸ hown hev

end Bench

end FlexNet
