import FlexNet.Routing.Machine

/-!
# The session table as a machine

`FlexNetSessions[]`, `FlexNetSessionCount` and the link-time filter of each session change in a few
ways only: a session starts in the first free slot, ends, moves to another link row, sends its link
time, or takes a sample.  `SeatMove` lists them, and `event_seatMoves` shows that every event of the
node is a run of them.
-/

namespace FlexNet

open Runs

/-- The link-time filter of a session. -/
structure LinkTiming where
  smoothed : UInt32
  txTick : UInt32
  samples : UInt32
  pending : Bool
  ours : ℤ
deriving DecidableEq

/-- The filter as the session has it. -/
def Session.timing (s : Session) : LinkTiming :=
  ⟨s.ltSmoothed10ms, s.ltTxTick, s.ltSampleCount, s.ltTxPending, s.ourLinkTime⟩

/-- A slot in use, with its link row and its filter. -/
def Session.seat (s : Session) : Option (Option LinkId × LinkTiming) :=
  if s.active then some (s.link, s.timing) else none

theorem Session.seat_of_active {s : Session} (h : s.active = true) :
    s.seat = some (s.link, s.timing) :=
  if_pos h

namespace Node

variable {n m o : Node} {s : Slot} {l : LinkId}

/-! ## What leaves the table alone -/

/-- The table is as it was. -/
structure SameSeats (n m : Node) : Prop where
  count : m.sessionCount = n.sessionCount
  seat : ∀ i, (m.sessions i).seat = (n.sessions i).seat

theorem SameSeats.refl (n : Node) : n.SameSeats n := ⟨rfl, fun _ => rfl⟩

theorem SameSeats.trans (h : n.SameSeats m) (h' : m.SameSeats o) : n.SameSeats o :=
  ⟨h'.count.trans h.count, fun i => (h'.seat i).trans (h.seat i)⟩

theorem SameSeats.ite {c : Prop} [Decidable c] (h : n.SameSeats m) (h' : n.SameSeats o) :
    n.SameSeats (if c then m else o) := by
  split_ifs
  exacts [h, h']

/-- A session that is up stays up, with its link and its filter. -/
theorem SameSeats.session (h : n.SameSeats m) (hup : (m.sessions s).active = true) :
    (n.sessions s).active = true ∧ (m.sessions s).link = (n.sessions s).link ∧
      (m.sessions s).timing = (n.sessions s).timing := by
  have hseat := h.seat s
  rw [Session.seat_of_active hup] at hseat
  unfold Session.seat at hseat
  split_ifs at hseat with hactive
  obtain ⟨hlink, htiming⟩ := Prod.mk.inj (Option.some.inj hseat)
  exact ⟨hactive, hlink, htiming⟩

theorem SameSeats.active (h : n.SameSeats m) (i : Slot) :
    (m.sessions i).active = (n.sessions i).active := by
  have hseat := congrArg Option.isSome (h.seat i)
  unfold Session.seat at hseat
  revert hseat
  cases (m.sessions i).active <;> cases (n.sessions i).active <;> simp

theorem sameSeats_of_eq (hcount : m.sessionCount = n.sessionCount)
    (hsessions : m.sessions = n.sessions) :
    n.SameSeats m :=
  ⟨hcount, fun i => by rw [hsessions]⟩

theorem OnlyPeers.sameSeats (h : n.OnlyPeers m) : n.SameSeats m := by
  rw [h]
  exact sameSeats_of_eq rfl rfl

theorem sameSeats_setPeer (n : Node) (p : Slot) (x : Peer) : n.SameSeats (n.setPeer p x) :=
  sameSeats_of_eq rfl rfl

theorem sameSeats_setSession (n : Node) {x : Session} (h : x.seat = (n.sessions s).seat) :
    n.SameSeats (n.setSession s x) := by
  refine ⟨rfl, fun i => ?_⟩
  by_cases hi : i = s
  · subst hi
    rw [setSession_sessions_self]
    exact h
  · rw [setSession_sessions_of_ne n x hi]

theorem sameSeats_flexSendInit (n : Node) (s : Slot) : n.SameSeats (n.flexSendInit s) :=
  (sameSeats_setPeer n s _).trans (sameSeats_setSession _ (by rfl))

theorem sameSeats_sendKeepalive (n : Node) (s : Slot) : n.SameSeats (n.sendKeepalive s) :=
  sameSeats_of_eq rfl rfl

theorem sameSeats_flagLink (n : Node) (l : LinkId) (b : Bool) : n.SameSeats (n.flagLink l b) :=
  sameSeats_of_eq rfl rfl

theorem sameSeats_unflagOldLink (n : Node) (s : Slot) : n.SameSeats (n.unflagOldLink s) := by
  unfold unflagOldLink
  split
  · exact .refl n
  · exact sameSeats_flagLink n _ false

theorem sameSeats_setLearned (n : Node) (s : Slot) (x : LearnedState) :
    n.SameSeats (n.setLearned s x) :=
  sameSeats_of_eq rfl rfl

theorem sameSeats_anchorAdvert (n : Node) (p : Slot) : n.SameSeats (n.anchorAdvert p) :=
  sameSeats_setLearned n p _

theorem sameSeats_flexAdvertiseSeedPeer (n : Node) (p : Slot) :
    n.SameSeats (n.flexAdvertiseSeedPeer p) := by
  refine .ite (.refl n) ((onlyPeers_walk n p false false).sameSeats.trans ?_)
  exact .trans (.ite (sameSeats_setPeer _ p _) (.refl _)) (sameSeats_anchorAdvert _ p)

theorem sameSeats_flexAdvertiseNeighbours (n : Node) (p : Slot) :
    n.SameSeats (n.flexAdvertiseNeighbours p) := by
  refine .ite (.refl n) ((onlyPeers_walk n p true true).sameSeats.trans ?_)
  exact .trans (.ite (sameSeats_setPeer _ p _) (.refl _)) (sameSeats_anchorAdvert _ p)

theorem sameSeats_seedIfUnsent (n : Node) (s : Slot) : n.SameSeats (n.seedIfUnsent s) :=
  .ite (.refl n) ((sameSeats_setPeer n s _).trans
    ((sameSeats_setSession _ (by rfl)).trans (sameSeats_flexAdvertiseSeedPeer _ s)))

theorem sameSeats_answerReinit (n : Node) (s : Slot) : n.SameSeats (n.answerReinit s) :=
  (sameSeats_flexSendInit n s).trans <| (sameSeats_sendKeepalive _ s).trans <|
    (sameSeats_setSession _ (by rfl)).trans <| (sameSeats_setPeer _ s _).trans <|
      sameSeats_setPeer _ s _

theorem sameSeats_answerStatusPos (n : Node) (s : Slot) : n.SameSeats (n.answerStatusPos s) :=
  (onlyPeers_walk n s false true).sameSeats.trans
    ((sameSeats_setPeer _ s _).trans (sameSeats_setPeer _ s _))

theorem sameSeats_flexDestReelectVia (n : Node) (s : Slot) :
    n.SameSeats (n.flexDestReelectVia s) :=
  sameSeats_of_eq rfl rfl

theorem sameSeats_poisonSession (n : Node) (s : Slot) :
    n.SameSeats (n.flexAdvertisePoisonSession s) :=
  (SameSeats.ite (sameSeats_setLearned n s _) (.refl n)).trans
    (onlyPeers_poisonSession n s).sameSeats

theorem sameSeats_linkTimeMoved (n : Node) (s : Slot) : n.SameSeats (n.linkTimeMoved s) :=
  .ite (.refl n) (.ite (sameSeats_setLearned n s _)
    ((sameSeats_setLearned n s _).trans (onlyPeers_triggerPeersAll _ s _).sameSeats))

theorem sameSeats_flexLinkOptsChanged (n : Node) (s : Slot) (opts : LinkOpts) :
    n.SameSeats (n.flexLinkOptsChanged s opts) := by
  unfold flexLinkOptsChanged
  extract_lets old n₁ shift n₂ n₃
  have h₂ : n.SameSeats n₂ := .ite (sameSeats_of_eq rfl rfl) (sameSeats_of_eq rfl rfl)
  have h₃ : n₂.SameSeats n₃ := (onlyPeers_triggerPeersAll n₂ s _).sameSeats
  refine .ite h₂ (h₂.trans (h₃.trans (.ite (.refl n₃) ?_)))
  exact (onlyPeers_walk n₃ s false false).sameSeats.trans (sameSeats_setPeer _ s _)

theorem sameSeats_rehandshake (n : Node) (s : Slot) : n.SameSeats (n.rehandshake s) :=
  (sameSeats_setSession n (by rfl)).trans
    ((sameSeats_flexSendInit _ s).trans (sameSeats_sendKeepalive _ s))

theorem sameSeats_inferFamily (n : Node) (s : Slot) (len : ℕ) :
    n.SameSeats (n.inferFamily s len) :=
  .ite (.refl n) (.ite ((sameSeats_setSession n (by rfl)).trans (sameSeats_sendKeepalive _ s))
    (sameSeats_setSession n (by rfl)))

theorem sameSeats_noteKeepalive (n : Node) (s : Slot) (data : CStr) :
    n.SameSeats (n.noteKeepalive s data) :=
  .ite (sameSeats_setSession n (by rfl)) (.refl n)

theorem sameSeats_echoKeepalive (n : Node) (s : Slot) : n.SameSeats (n.echoKeepalive s) :=
  .ite (.refl n) (sameSeats_of_eq rfl rfl)

theorem sameSeats_noteLinkTime (n : Node) (s : Slot) (data : CStr) :
    n.SameSeats (n.noteLinkTime s data) :=
  .ite (.refl n) (sameSeats_setSession n (by rfl))

theorem sameSeats_flagDirect (n : Node) (s : Slot) (k : Key) : n.SameSeats (n.flagDirect s k) := by
  unfold flagDirect
  split
  · exact .refl n
  · exact sameSeats_setLearned n s _

theorem sameSeats_flexDtableMerge (n : Node) (r : Record) (s : Slot) :
    n.SameSeats (n.flexDtableMerge r s) := by
  obtain ⟨dests, h | ⟨dests', h⟩⟩ := flexDtableMerge_cases n r s
  · rw [h]
    exact sameSeats_of_eq rfl rfl
  · rw [h]
    have hadd := (onlyPeers_flexLearnedAdd ({ n with dests := dests } : Node) s r)
    rw [hadd]
    exact sameSeats_of_eq rfl rfl

theorem sameSeats_flexAddNeighbourEntry (n : Node) (s : Slot) :
    n.SameSeats (n.flexAddNeighbourEntry s) := by
  unfold flexAddNeighbourEntry
  extract_lets k n₁ n₂
  have h₁ : n.SameSeats n₁ := sameSeats_of_eq rfl rfl
  have h₂ : n₁.SameSeats n₂ := sameSeats_flexDtableMerge n₁ _ s
  exact .ite (.refl n)
    (.ite (.refl n) (h₁.trans (h₂.trans (.ite (sameSeats_flagDirect n₂ s k) (.refl n₂)))))

theorem sameSeats_flexNotePeerEstablished (n : Node) (s : Slot) :
    n.SameSeats (n.flexNotePeerEstablished s) := by
  unfold flexNotePeerEstablished
  refine .ite (.refl n) ?_
  split
  · exact .refl n
  · exact .ite (.refl n)
      ((sameSeats_setSession n (by rfl)).trans (sameSeats_flexAddNeighbourEntry _ s))

theorem sameSeats_serveRefresh (n : Node) (s : Slot) : n.SameSeats (n.serveRefresh s) :=
  .ite ((sameSeats_anchorAdvert n s).trans ((sameSeats_setPeer _ s _).trans
    (sameSeats_flexAdvertiseNeighbours _ s))) (.refl n)

theorem sameSeats_serveReseed (n : Node) (s : Slot) : n.SameSeats (n.serveReseed s) :=
  .ite (sameSeats_seedIfUnsent n s) (.refl n)

theorem sameSeats_flexNetNotePeerL2Restart (n : Node) (call : AxCall) (port : ℕ) :
    n.SameSeats (n.flexNetNotePeerL2Restart call port) := by
  unfold flexNetNotePeerL2Restart
  split
  · exact .refl n
  · exact .ite (.refl n) ((sameSeats_setPeer n _ _).trans
      ((sameSeats_setSession _ (by rfl)).trans (sameSeats_setPeer _ _ _)))

theorem sameSeats_loadPathRow (n : Node) (k : Key) (path : List Callsign) (updated : ℤ) :
    n.SameSeats (n.loadPathRow k path updated) := by
  unfold loadPathRow
  split
  · exact sameSeats_of_eq rfl rfl
  · exact .ite (sameSeats_of_eq rfl rfl) (.refl n)

/-! ## Moves -/

/-- A move of the session table. -/
inductive SeatMove
  /-- the table stays as it is -/
  | serve (m : Node)
  /-- a session starts in a slot -/
  | start (s : Slot) (l : LinkId) (port : ℕ)
  /-- a session ends -/
  | stop (s : Slot) (x : Session)
  /-- a session is pointed at a row -/
  | relink (s : Slot) (l : LinkId)
  /-- a link time is due, or not -/
  | sendLinkTime (s : Slot)
  /-- a link time has come -/
  | linkTimeSample (s : Slot)

/-- The step function. -/
def SeatMove.apply (n : Node) : SeatMove → Node
  | .serve m => m
  | .start s l port => n.startSession s l port
  | .stop s x => n.setSession s x
  | .relink s l => n.setSession s { n.sessions s with link := some l }
  | .sendLinkTime s => n.flexSendLinkTime s
  | .linkTimeSample s => n.flexLinkTimeSample s

/-- A session starts in the first slot that is free; only a session that is up is moved. -/
def SeatMove.Legal (n : Node) : SeatMove → Prop
  | .serve m => n.SameSeats m
  | .start s _ _ => (slots.find? fun i => !(n.sessions i).active) = some s
  | .stop _ x => x.active = false
  | .relink s _ => (n.sessions s).active = true
  | .sendLinkTime _ => True
  | .linkTimeSample _ => True

/-- A run of moves leads from one node to the other. -/
def SeatMoves (n m : Node) : Prop := ∃ ms, GuardedRun SeatMove.apply SeatMove.Legal n ms m

theorem SeatMoves.refl (n : Node) : n.SeatMoves n := ⟨[], .start⟩

theorem SeatMoves.trans (h : n.SeatMoves m) (h' : m.SeatMoves o) : n.SeatMoves o := by
  obtain ⟨ms, hms⟩ := h
  obtain ⟨ms', hms'⟩ := h'
  exact ⟨ms ++ ms', hms.append hms'⟩

theorem SeatMoves.one (mv : SeatMove) (h : mv.Legal n) : n.SeatMoves (mv.apply n) :=
  ⟨[mv], GuardedRun.start.step mv h⟩

theorem SeatMoves.ite {c : Prop} [Decidable c] (h : n.SeatMoves m) (h' : n.SeatMoves o) :
    n.SeatMoves (if c then m else o) := by
  split_ifs
  exacts [h, h']

theorem SeatMoves.foldl {α : Type*} {f : Node → α → Node} (hf : ∀ (n : Node) a, n.SeatMoves (f n a))
    (as : List α) (n : Node) : n.SeatMoves (as.foldl f n) := by
  induction as generalizing n with
  | nil => exact .refl n
  | cons a as ih => exact (hf n a).trans (ih _)

theorem SameSeats.moves (h : n.SameSeats m) : n.SeatMoves m := .one (.serve m) h

/-- A session that has just started: the count goes up, the filter is empty, and the link time is
that of a typical AXUDP link. -/
theorem startSession_seats (n : Node) (s : Slot) (l : LinkId) (port : ℕ) :
    (n.startSession s l port).sessionCount =
        (if n.sessionCount < 8 then n.sessionCount + 1 else n.sessionCount) ∧
      (∀ i ≠ s, (n.startSession s l port).sessions i = n.sessions i) ∧
      ((n.startSession s l port).sessions s).seat = some (some l, ⟨0, 0, 0, false, 2⟩) := by
  have hadopt : ∀ (k : Node) call, (k.flexLearnedAdopt s call).sessionCount = k.sessionCount ∧
      (k.flexLearnedAdopt s call).sessions = k.sessions := fun k call => by
    unfold flexLearnedAdopt
    split
    · exact ⟨rfl, rfl⟩
    · split
      · exact ⟨rfl, rfl⟩
      · split <;> exact ⟨rfl, rfl⟩
  unfold startSession
  extract_lets call newCall n₁ n₂ x n₃ n₄ n₅ st n₆ n₇ n₈ n₉ sess n₁₀
  obtain ⟨hcount, hsessions⟩ := hadopt n₄ newCall
  have hend :
      n₁₀.sessions = Function.update n₉.sessions s { sess with lastKeepalive := n₉.now } := rfl
  refine ⟨?_, fun i hi => ?_, ?_⟩
  · exact congrArg (fun count => if count < 8 then count + 1 else count) hcount
  · have h₈ : n₈.sessions i = n₅.sessions i := Function.update_of_ne hi ..
    have h₉ : n₉.sessions i = n₈.sessions i := Function.update_of_ne hi ..
    have h₄ : n₄.sessions i = n.sessions i := Function.update_of_ne hi ..
    change n₁₀.sessions i = n.sessions i
    rw [hend, Function.update_of_ne hi, h₉, h₈, hsessions, h₄]
  · have h₉ : n₉.sessions s = { n₈.sessions s with lastInitTx := n₉.now } :=
      Function.update_self ..
    change (n₁₀.sessions s).seat = _
    rw [hend, Function.update_self]
    change Session.seat { n₉.sessions s with lastKeepalive := n₉.now } = _
    rw [h₉, show n₈.sessions s = _ from Function.update_self ..]
    rfl

/-! ## Every event is a run of moves -/

theorem seatMoves_reenterSession (n : Node) (l : LinkId) (hup : (n.sessions s).active = true) :
    n.SeatMoves (n.reenterSession s l) := by
  unfold reenterSession
  extract_lets sess m
  have hrelink := SeatMoves.one (n := n) (.relink s l) hup
  have hstash : (n.setSession s { n.sessions s with link := some l }).SameSeats m := by
    refine ⟨rfl, fun i => ?_⟩
    by_cases hi : i = s
    · subst hi
      rw [setSession_sessions_self, setSession_sessions_self]
      rfl
    · rw [setSession_sessions_of_ne _ _ hi, setSession_sessions_of_ne _ _ hi]
      rfl
  exact hrelink.trans (hstash.trans (.ite (.refl m) (sameSeats_rehandshake m s))).moves

theorem seatMoves_flexNetInitSession (n : Node) (l : LinkId) (port : ℕ) :
    n.SeatMoves (n.flexNetInitSession l port) := by
  unfold flexNetInitSession
  split
  · rename_i i hfind
    have hup := List.find?_some hfind
    rw [Bool.and_eq_true] at hup
    exact seatMoves_reenterSession n l hup.1
  · split
    · rename_i i hsame
      have hup := List.find?_some hsame
      simp only [sameCallSession, Bool.and_eq_true] at hup
      split
      · exact .refl n
      · rename_i old hold
        exact (sameSeats_flagLink n old false).moves.trans (seatMoves_reenterSession _ l hup.1.1)
    · split
      · exact .refl n
      · rename_i i hfree
        exact .one (.start i l port) hfree

/-- What ends a session, with the rows that were reached through it. -/
theorem seatMoves_ended (n : Node) (s : Slot) {x : Session} (hx : x.active = false) :
    n.SeatMoves (((n.setSession s x).flexDestReelectVia s).flexAdvertisePoisonSession s) :=
  (SeatMoves.one (.stop s x) hx).trans
    ((sameSeats_flexDestReelectVia _ s).trans (sameSeats_poisonSession _ s)).moves

theorem seatMoves_flexNetCloseSession (n : Node) (l : LinkId) :
    n.SeatMoves (n.flexNetCloseSession l) := by
  unfold flexNetCloseSession
  split
  · exact .refl n
  · rename_i s hfind
    have hdied := (sameSeats_setLearned n s { n.learned s with diedAt := n.now }).trans
      (sameSeats_flagLink _ l false)
    exact hdied.moves.trans
      (seatMoves_ended _ s (x := { n.sessions s with active := false, link := none }) rfl)

theorem seatMoves_reapSession (n : Node) (s : Slot) : n.SeatMoves (n.reapSession s) := by
  unfold reapSession
  extract_lets n₁ n₂ table n₃ sess n₄ n₅
  have h₁ : n.SameSeats n₁ := sameSeats_of_eq rfl rfl
  have h₂ : n.SameSeats n₂ := h₁.trans (sameSeats_unflagOldLink n₁ s)
  have h₃ : n₂.SameSeats n₃ := sameSeats_setLearned n₂ s _
  have h₅ : n₃.SeatMoves n₅ := seatMoves_ended n₃ s rfl
  have hzeroed : n₅.SeatMoves (n₅.setSession s {}) := .one (.stop s {}) rfl
  exact ((h₂.trans h₃).moves.trans h₅).trans (hzeroed.trans (sameSeats_setPeer _ s _).moves)

theorem seatMoves_migrateSession (n : Node) (li : LinkId) (hup : (n.sessions s).active = true) :
    n.SeatMoves (n.migrateSession s li) := by
  unfold migrateSession
  extract_lets n₁ sess n₂
  have hold := sameSeats_unflagOldLink n s
  have hrelink := SeatMoves.one (n := n₁) (.relink s li) ((hold.active s).trans hup)
  have hflag : (n₁.setSession s { n₁.sessions s with link := some li }).SameSeats n₂ :=
    sameSeats_of_eq rfl rfl
  exact hold.moves.trans (hrelink.trans (hflag.trans (sameSeats_of_eq (by rfl) (by rfl))).moves)

theorem seatMoves_reapTurn (n : Node) (s : Slot) : n.SeatMoves (n.reapTurn s) := by
  unfold reapTurn
  by_cases hup : (n.sessions s).active = true
  swap
  · simp only [hup, Bool.not_false, if_true]
    exact .refl n
  simp only [hup, Bool.not_true, Bool.false_eq_true, if_false]
  rcases flexReapDecide ((n.sessions s).link.map n.links) (n.reapBadSince s) n.now with
    ⟨verdict, badSince⟩
  dsimp only
  set m : Node := { n with reapBadSince := Function.update n.reapBadSince s badSince } with hm
  have hbad : n.SeatMoves m := (sameSeats_of_eq (by rfl) (by rfl)).moves
  generalize (if (n.sessions s).peerCallsign.isEmpty then none
    else (List.range n.cfg.maxLinks).find? (m.migrationTarget s)) = target
  cases verdict with
  | keep => exact hbad
  | wait =>
      cases target with
      | none => exact hbad
      | some li => exact hbad.trans (seatMoves_migrateSession m li hup)
  | now =>
      cases target with
      | none => exact hbad.trans (seatMoves_reapSession m s)
      | some li => exact hbad.trans (seatMoves_migrateSession m li hup)

theorem seatMoves_adoptSession (n : Node) (l : LinkId) (hup : (n.sessions s).active = true) :
    n.SeatMoves (n.adoptSession s l) := by
  unfold adoptSession
  extract_lets n₁ sess n₂ n₃ sess'
  have h₁ : n.SameSeats n₁ := .ite (.refl n) (sameSeats_unflagOldLink n s)
  have hrelink := SeatMoves.one (n := n₁) (.relink s l) ((h₁.active s).trans hup)
  have h₃ : (n₁.setSession s { n₁.sessions s with link := some l }).SameSeats n₃ :=
    sameSeats_of_eq rfl rfl
  exact h₁.moves.trans (hrelink.trans (h₃.trans (sameSeats_setSession n₃ (by rfl))).moves)

theorem seatMoves_flexNetTryAdoptSession (n : Node) (l : LinkId) (port : ℕ) :
    n.SeatMoves (n.flexNetTryAdoptSession l port).1 := by
  unfold flexNetTryAdoptSession
  dsimp only
  split_ifs
  · exact .refl n
  · dsimp only
    refine .foldl (fun n i => ?_) slots n
    unfold closeReplaced
    dsimp only
    split
    · exact .refl n
    · exact .ite (seatMoves_flexNetCloseSession n _) (.refl n)
  · exact .refl n
  · split
    · exact .refl n
    · rename_i i hfind
      have hup := List.find?_some hfind
      simp only [adoptsTo, Bool.and_eq_true] at hup
      exact seatMoves_adoptSession n l hup.1.1.1.1

theorem seatMoves_sabmAccepted (n : Node) (l : LinkId) (port : ℕ) :
    n.SeatMoves (n.sabmAccepted l port) := by
  have hadopt := (sameSeats_flagLink n l true).moves.trans
    (seatMoves_flexNetTryAdoptSession (n.flagLink l true) l port)
  unfold sabmAccepted
  dsimp only
  generalize (n.flagLink l true).flexNetTryAdoptSession l port = r at hadopt ⊢
  obtain ⟨m, adopted⟩ := r
  exact .ite (.refl n) (.ite hadopt (hadopt.trans (seatMoves_flexNetInitSession m l port)))

theorem seatMoves_flexSendLinkTime (n : Node) (s : Slot) : n.SeatMoves (n.flexSendLinkTime s) :=
  .one (.sendLinkTime s) trivial

theorem seatMoves_handleInit (n : Node) (s : Slot) (data : CStr) :
    n.SeatMoves (n.handleInit s data) := by
  unfold handleInit
  extract_lets sess reinit n₁ n₂
  have h₁ : n.SameSeats n₁ := sameSeats_setSession n (by rfl)
  have h₂ : n₁.SameSeats n₂ :=
    (sameSeats_flexAddNeighbourEntry n₁ s).trans (sameSeats_inferFamily _ s _)
  have h₃ := SameSeats.ite (c := reinit = true) (sameSeats_answerReinit n₂ s) (.refl n₂)
  exact (h₁.trans (h₂.trans (h₃.trans (sameSeats_seedIfUnsent _ s)))).moves

theorem seatMoves_handleKeepalive (n : Node) (s : Slot) (data : CStr) :
    n.SeatMoves (n.handleKeepalive s data) := by
  unfold handleKeepalive
  extract_lets sess n₁ n₂ n₃ n₄
  have h₁ : n.SameSeats n₁ := sameSeats_setSession n (by rfl)
  have h₂ : n₁.SameSeats n₂ :=
    (sameSeats_flexNotePeerEstablished n₁ s).trans (sameSeats_noteKeepalive _ s data)
  have h₃ : n₂.SeatMoves n₃ :=
    (sameSeats_echoKeepalive n₂ s).moves.trans (seatMoves_flexSendLinkTime _ s)
  have h₄ : n₃.SameSeats n₄ := .ite (sameSeats_seedIfUnsent n₃ s) (.refl n₃)
  exact (h₁.trans h₂).moves.trans (h₃.trans (h₄.trans (sameSeats_setSession n₄ (by rfl))).moves)

theorem seatMoves_handleLinkTime (n : Node) (s : Slot) (data : CStr) :
    n.SeatMoves (n.handleLinkTime s data) := by
  have hsample := SeatMoves.one (n := n.flexNotePeerEstablished s) (.linkTimeSample s) trivial
  exact (sameSeats_flexNotePeerEstablished n s).moves.trans (hsample.trans
    ((sameSeats_noteLinkTime _ s data).moves.trans (seatMoves_flexSendLinkTime _ s)))

theorem seatMoves_handleStatusPos (n : Node) (s : Slot) : n.SeatMoves (n.handleStatusPos s) := by
  unfold handleStatusPos
  extract_lets n₁ peer n₂ n₃ n₄
  have h₁ : n.SameSeats n₁ := sameSeats_flexNotePeerEstablished n s
  have h₂ : n₁.SameSeats n₂ := .ite (sameSeats_setPeer n₁ s _) (.refl n₁)
  have h₃ : n₂.SameSeats n₃ := sameSeats_setPeer n₂ s _
  have h₄ : n₃.SameSeats n₄ := .ite (sameSeats_answerStatusPos n₃ s) (.refl n₃)
  exact (h₁.trans (h₂.trans (h₃.trans (h₄.trans (sameSeats_setSession n₄ (by rfl)))))).moves

theorem seatMoves_handleFrame (n : Node) (s : Slot) (data : CStr) :
    n.SeatMoves (n.handleFrame s data) := by
  unfold handleFrame
  split
  · exact seatMoves_handleInit n s data
  · exact seatMoves_handleKeepalive n s data
  · exact seatMoves_handleLinkTime n s data
  · exact (sameSeats_setPeer n s _).moves
  · exact seatMoves_handleStatusPos n s
  · exact (sameSeats_flexNotePeerEstablished n s).moves.trans
      (.foldl (fun n r => (sameSeats_flexDtableMerge n r s).moves) _ _)
  · exact .refl n

theorem seatMoves_flexNetProcessCE (n : Node) (l : LinkId) (data : CStr) :
    n.SeatMoves (n.flexNetProcessCE l data) := by
  unfold flexNetProcessCE
  refine .ite (.refl n) ?_
  cases n.flexFindSession l with
  | some s => exact seatMoves_handleFrame n s data
  | none =>
      have hinit := seatMoves_flexNetInitSession n l ((n.links l).port.getD 0)
      dsimp only
      generalize n.flexNetInitSession l ((n.links l).port.getD 0) = m at hinit ⊢
      cases m.flexFindSession l with
      | some s => exact hinit.trans (seatMoves_handleFrame m s data)
      | none => exact hinit

theorem seatMoves_ceReceived (n : Node) (l : LinkId) (port : ℕ) (data : CStr) :
    n.SeatMoves (n.ceReceived l port data) := by
  unfold ceReceived
  extract_lets m
  have hm : n.SeatMoves m := .ite (seatMoves_flexNetInitSession n l port) (.refl n)
  exact hm.trans (.ite (seatMoves_flexNetProcessCE m l data) (.refl m))

theorem seatMoves_keepPortLink (n : Node) (i : ℕ) : n.SeatMoves (n.keepPortLink i) := by
  have hset : ∀ (n : Node) (pl : PortLink), n.SeatMoves (n.setPortLink i pl) := fun n pl =>
    (sameSeats_of_eq (by rfl) (by rfl)).moves
  unfold keepPortLink
  split
  · exact .refl n
  refine .ite (.refl n) ?_
  split
  · exact .ite (.refl n) (.ite ((hset n _).trans (seatMoves_flexNetInitSession _ _ _)) (hset n _))
  · refine .ite (hset n _) (.ite (.refl n) ?_)
    split
    · exact hset n _
    · exact (sameSeats_of_eq (by rfl) (by rfl)).moves.trans (hset _ _)

theorem seatMoves_serveSession (n : Node) (s : Slot) : n.SeatMoves (n.serveSession s) := by
  have hkeepalive : n.SeatMoves (n.serveKeepalive s) :=
    .ite (.refl n) ((sameSeats_sendKeepalive n s).moves.trans
      ((seatMoves_flexSendLinkTime _ s).trans (sameSeats_setSession _ (by rfl)).moves))
  exact .ite (.refl n) (hkeepalive.trans ((sameSeats_serveRefresh _ s).trans
    ((sameSeats_serveReseed _ s).trans (sameSeats_setPeer _ s _))).moves)

theorem seatMoves_flexLinkOptsPoll (n : Node) : n.SeatMoves n.flexLinkOptsPoll := by
  refine .ite (.refl n) (SeatMoves.trans (sameSeats_of_eq (by rfl) (by rfl)).moves
    (.foldl (fun n s => ?_) slots _))
  unfold pollLinkOpts
  dsimp only
  split
  · exact .refl n
  · exact .ite (.refl n) (.ite (.refl n) (sameSeats_flexLinkOptsChanged n s _).moves)

theorem seatMoves_flexNetTimer (n : Node) : n.SeatMoves n.flexNetTimer := by
  have hkeep : n.SeatMoves n.flexPortLinksKeep :=
    .ite (.refl n) (.ite (.refl n) (SeatMoves.trans (sameSeats_of_eq (by rfl) (by rfl)).moves
      (.foldl seatMoves_keepPortLink _ _)))
  have hinit : ∀ n : Node, n.SeatMoves n.proactiveInit := fun n =>
    .ite (.refl n) (SeatMoves.trans (sameSeats_of_eq (by rfl) (by rfl)).moves
      (.foldl (fun n li => .ite (seatMoves_flexNetInitSession n li _) (.refl n)) _ _))
  exact hkeep.trans
    ((seatMoves_flexLinkOptsPoll _).trans ((SeatMoves.foldl seatMoves_reapTurn slots _).trans
    ((hinit _).trans (.foldl seatMoves_serveSession slots _))))

/-- Every event of the node is a run of moves of the session table. -/
theorem event_seatMoves (n : Node) (e : Event) : n.SeatMoves (n.event e) := by
  have hpath : ∀ s pid data, n.SeatMoves (n.sendPath s pid data) := fun s pid data =>
    .ite (sameSeats_setPeer n s _).moves (.refl n)
  cases e with
  | clock seconds ticks => exact (sameSeats_of_eq (by rfl) (by rfl)).moves
  | row l x => exact (sameSeats_of_eq (by rfl) (by rfl)).moves
  | mapTable ports => exact (sameSeats_of_eq (by rfl) (by rfl)).moves
  | initSession l port => exact seatMoves_flexNetInitSession n l port
  | closeSession l => exact seatMoves_flexNetCloseSession n l
  | notePeerL2Restart call port => exact (sameSeats_flexNetNotePeerL2Restart n call port).moves
  | tryAdoptSession l port => exact seatMoves_flexNetTryAdoptSession n l port
  | sabm l port => exact seatMoves_sabmAccepted n l port
  | processCE l data => exact seatMoves_flexNetProcessCE n l data
  | ceReceived l port data => exact seatMoves_ceReceived n l port data
  | timer => exact seatMoves_flexNetTimer n
  | heal i => exact (sameSeats_of_eq (by rfl) (by rfl)).moves
  | pathCache rows =>
      exact .foldl (fun n (row : Key × List Callsign × ℤ) =>
        (sameSeats_loadPathRow n row.1 row.2.1 row.2.2).moves) rows n
  | pathFrame s reply body => exact hpath s pidCE _
  | l3Frame s data => exact hpath s pidCF data

theorem after_seatMoves (n : Node) (events : List Event) : n.SeatMoves (n.after events) :=
  .foldl event_seatMoves events n

end Node

end FlexNet
