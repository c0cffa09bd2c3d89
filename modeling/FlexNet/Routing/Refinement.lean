import FlexNet.Routing.Machine

/-!
# Every event is a run of moves

One lemma for each function of the node that changes the routes, from the writes of one session up
to `event_moves`.  Nothing here is about a particular invariant.
-/

namespace FlexNet

open Runs

namespace Node

variable {W : Node → LinkId → AxCall → Prop} {e : Event} {n m o : Node} {s : Slot} {l : LinkId}

/-! ## Link time and link options -/

theorem setSession_setSession (n : Node) (s : Slot) (x y : Session) :
    (n.setSession s x).setSession s y = n.setSession s y := by
  simp [setSession]

/-- A session rewritten up to its link time. -/
theorem moves_sampled (n : Node) {x : Session} (hlt : 1 ≤ x.ourLinkTime ∧ x.ourLinkTime ≤ 4095)
    (hx : x.identity =
      ({ n.sessions s with ourLinkTime := x.ourLinkTime } : Session).identity) :
    n.Moves W e (n.setSession s x) := by
  have hsample := Moves.one (W := W) (e := e) (n := n) (.sample s x.ourLinkTime) hlt
  refine hsample.trans (SameRoutes.moves ?_)
  have hserve := sameRoutes_setSession (s := s)
    (n.setSession s { n.sessions s with ourLinkTime := x.ourLinkTime }) (x := x)
    (by simpa [setSession] using hx)
  rwa [setSession_setSession] at hserve

theorem moves_flexLinkTimeSample (n : Node) (s : Slot) :
    n.Moves W e (n.flexLinkTimeSample s) := by
  unfold flexLinkTimeSample
  extract_lets sess sample smoothed wire wire' m
  have hwire : 1 ≤ (wire'.toNat : ℤ) ∧ (wire'.toNat : ℤ) ≤ 4095 := by
    have hbounds : 1 ≤ wire'.toNat ∧ wire'.toNat ≤ 4095 := by
      by_cases h₁ : wire < 1
      · simp [wire', h₁]
      · by_cases h₂ : 4095 < wire
        · simp [wire', h₁, h₂]
        · have h₁' : ¬ wire.toNat < 1 := h₁
          have h₂' : ¬ 4095 < wire.toNat := h₂
          simp only [wire', h₁, h₂, if_false]
          omega
    omega
  have hm : n.Moves W e m := moves_sampled n hwire (by rfl)
  refine .ite (.refl n) (.ite (sameRoutes_setSession n (by rfl)).moves ?_)
  exact .ite (hm.trans (sameRoutes_linkTimeMoved m s).moves) hm

theorem moves_flexLinkOptsChanged (n : Node) (s : Slot) (opts : LinkOpts)
    (hup : (n.sessions s).active = true) : n.Moves W e (n.flexLinkOptsChanged s opts) := by
  unfold flexLinkOptsChanged
  extract_lets old n₁ shift n₂ n₃
  have h₂ : n.Moves W e n₂ := .one (.opts s opts) hup
  have h₃ : n₂.SameRoutes n₃ := sameRoutes_triggerPeersAll n₂ s _
  refine .ite h₂ (h₂.trans (SameRoutes.moves (h₃.trans (.ite (.refl n₃) ?_))))
  exact (onlyPeers_walk n₃ s false false).sameRoutes.trans (sameRoutes_setPeer _ s _)

theorem moves_flexLinkOptsPoll (n : Node) : n.Moves W e n.flexLinkOptsPoll := by
  have hpolled : n.SameRoutes { n with linkOptsPolled := n.now } :=
    ⟨rfl, rfl, fun _ => rfl, fun _ => rfl, fun _ => rfl, rfl⟩
  refine .ite (.refl n) (hpolled.moves.trans (.foldl (fun n s => ?_) slots _))
  unfold pollLinkOpts
  dsimp only
  split
  · exact .refl n
  · by_cases hup : (n.sessions s).active = true
    · exact .ite (.refl n) (.ite (.refl n) (moves_flexLinkOptsChanged n s _ hup))
    · rw [if_pos (by simp [hup])]
      exact .refl n

/-! ## The session life cycle -/

theorem moves_flagLink (n : Node) (l : LinkId) (b : Bool) : n.Moves W e (n.flagLink l b) :=
  (sameRoutes_flagLink n l b).moves

/-- Flags of rows do not matter to the ways a session is found. -/
theorem flagLink_linkCall (n : Node) (l : LinkId) (b : Bool) (l' : LinkId) :
    ((n.flagLink l b).links l').linkCall = (n.links l').linkCall :=
  (sameRoutes_flagLink n l b).linkCall l'

theorem moves_reenterSession (n : Node) (h : (n.flagLink l true).Relinks e s l) :
    n.Moves W e (n.reenterSession s l) := by
  have hrelink : n.Moves W e ((n.flagLink l true).relink s l) :=
    (moves_flagLink n l true).trans (.one (.relink s l) h)
  have hsame : (n.flagLink l true).relink s l = (n.flagLink l true).setSession s
      { n.sessions s with link := some l, peerCallsign := (n.links l).linkCall } := by
    unfold relink
    rw [flagLink_linkCall]
    rfl
  rw [hsame] at hrelink
  exact .ite hrelink (hrelink.trans (sameRoutes_rehandshake _ s).moves)

theorem flagLink_sameCallSession (n : Node) (l l' : LinkId) (b : Bool) (port : ℕ) (i : Slot) :
    (n.flagLink l' b).sameCallSession l port i = n.sameCallSession l port i := by
  unfold sameCallSession
  simp only [flagLink_linkCall]
  rfl

theorem onRow_of_find? {i : Slot}
    (h : (slots.find? fun i => (n.sessions i).active && (n.sessions i).link == some l) = some i) :
    n.OnRow i l := by
  simpa [OnRow] using List.find?_some h

theorem not_onRow_of_find? (h : (slots.find? fun i =>
    (n.sessions i).active && (n.sessions i).link == some l) = none) : ∀ i, ¬ n.OnRow i l := by
  intro i hi
  have := List.find?_eq_none.mp h i (mem_slots i)
  simp [hi.1, hi.2] at this

theorem Sees.flagLink (h : n.Sees e l) (l' : LinkId) (b : Bool) : (n.flagLink l' b).Sees e l := by
  unfold Sees at h ⊢
  rwa [flagLink_linkCall]

theorem moves_flexNetInitSession (n : Node) (port : ℕ) (hl : n.Sees e l) :
    n.Moves W e (n.flexNetInitSession l port) := by
  unfold flexNetInitSession
  split
  · rename_i i hfind
    exact moves_reenterSession n ⟨hl.flagLink l true, .inl (onRow_of_find? hfind)⟩
  · rename_i hnone
    split
    · rename_i i hsame
      split
      · exact .refl n
      · refine (moves_flagLink n _ false).trans (moves_reenterSession _ ⟨?_, .inr (.inl ?_)⟩)
        · exact (hl.flagLink _ false).flagLink l true
        refine ⟨not_onRow_of_find? hnone, port, ?_⟩
        rw [flagLink_sameCallSession, flagLink_sameCallSession]
        exact List.find?_some hsame
    · rename_i hsame
      split
      · exact .refl n
      · rename_i i hfree
        refine .one (.start i l port) ⟨?_, not_onRow_of_find? hnone, fun j => ?_⟩
        · simpa using List.find?_some hfree
        · simpa using List.find?_eq_none.mp hsame j (mem_slots j)

/-- What ends a session, with the poison walk. -/
theorem moves_ended (n : Node) {x : Session} (hup : (n.sessions s).active = true)
    (hx : x.active = false) :
    n.Moves W e (((n.setSession s x).flexDestReelectVia s).flexAdvertisePoisonSession s) := by
  exact (Moves.one (.stop s x) ⟨hup, hx⟩).trans (sameRoutes_poisonSession _ s).moves

theorem moves_flexNetCloseSession (n : Node) (l : LinkId) :
    n.Moves W e (n.flexNetCloseSession l) := by
  unfold flexNetCloseSession
  split
  · exact .refl n
  · rename_i s hfind
    have hup : (n.sessions s).active = true := by
      have := List.find?_some hfind
      simp only [Bool.and_eq_true] at this
      exact this.1.2
    have hdied : n.SameRoutes (n.setLearned s { n.learned s with diedAt := n.now }) :=
      sameRoutes_setLearned n (by rfl)
    refine (hdied.trans (sameRoutes_flagLink _ l false)).moves.trans ?_
    exact moves_ended _ (x := { n.sessions s with active := false, link := none }) hup rfl

theorem moves_unflagOldLink (n : Node) (s : Slot) : n.Moves W e (n.unflagOldLink s) :=
  (sameRoutes_unflagOldLink n s).moves

theorem unflagOldLink_sessions (n : Node) (s : Slot) :
    (n.unflagOldLink s).sessions = n.sessions := by
  unfold unflagOldLink
  split <;> rfl

theorem moves_reapSession (n : Node) (s : Slot) (hup : (n.sessions s).active = true) :
    n.Moves W e (n.reapSession s) := by
  have hbad : n.SameRoutes { n with reapBadSince := Function.update n.reapBadSince s 0 } :=
    ⟨rfl, rfl, fun _ => rfl, fun _ => rfl, fun _ => rfl, rfl⟩
  unfold reapSession
  extract_lets n₁ n₂ table n₃ sess n₄ n₅
  have h₂ : n.Moves W e n₂ := hbad.moves.trans (moves_unflagOldLink n₁ s)
  have hup₂ : (n₂.sessions s).active = true := by rw [unflagOldLink_sessions]; exact hup
  have h₃ : n₂.Moves W e n₃ := (sameRoutes_setLearned n₂ (by rfl)).moves
  have h₅ : n₃.Moves W e n₅ := moves_ended n₃ hup₂ rfl
  have hdown : (n₅.sessions s).active = false := by
    have h₄ : (n₄.sessions s).active = false := by simp [n₄, setSession]
    have hserve : n₅.sessions = (n₄.flexDestReelectVia s).sessions := by
      have := congrArg Env.sessions (onlyPeers_poisonSession (n₄.flexDestReelectVia s) s).toEnv
      refine this.trans ?_
      split_ifs <;> rfl
    rw [hserve]
    exact h₄
  refine ((h₂.trans h₃).trans h₅).trans (SameRoutes.moves ?_)
  exact (sameRoutes_setSession_down n₅ hdown rfl).trans (sameRoutes_setPeer _ s _)

theorem unflagOldLink_migrationTarget (n : Node) (s : Slot) (li : LinkId) :
    (n.unflagOldLink s).migrationTarget s li = n.migrationTarget s li := by
  unfold unflagOldLink
  split
  · rfl
  · rename_i l hl
    by_cases hli : li = l
    · subst hli
      simp [migrationTarget, flagLink, setLink, hl]
    · have hrow : (n.flagLink l false).links li = n.links li := Function.update_of_ne hli ..
      unfold migrationTarget
      dsimp only
      rw [hrow]
      rfl

theorem moves_migrateSession (n : Node) (s : Slot) (li : LinkId)
    (hup : (n.sessions s).active = true) (htarget : n.migrationTarget s li = true) :
    n.Moves W e (n.migrateSession s li) := by
  unfold migrateSession
  extract_lets n₁ sess n₂
  have hmigrate : n₁.Moves W e (n₁.setSession s { n₁.sessions s with link := some li }) :=
    .one (.migrate s li) ⟨by rw [unflagOldLink_sessions]; exact hup,
      by rw [unflagOldLink_migrationTarget]; exact htarget⟩
  have hbad : n₂.SameRoutes { n₂ with reapBadSince := Function.update n₂.reapBadSince s 0 } :=
    ⟨rfl, rfl, fun _ => rfl, fun _ => rfl, fun _ => rfl, rfl⟩
  exact (moves_unflagOldLink n s).trans
    (hmigrate.trans ((moves_flagLink _ li true).trans hbad.moves))

theorem moves_reapTurn (n : Node) (s : Slot) : n.Moves W e (n.reapTurn s) := by
  unfold reapTurn
  by_cases hup : (n.sessions s).active = true
  · simp only [hup, Bool.not_true, Bool.false_eq_true, if_false]
    rcases flexReapDecide ((n.sessions s).link.map n.links) (n.reapBadSince s) n.now with
      ⟨verdict, badSince⟩
    dsimp only
    set m : Node := { n with reapBadSince := Function.update n.reapBadSince s badSince } with hm
    have hbad : n.Moves W e m :=
      SameRoutes.moves ⟨rfl, rfl, fun _ => rfl, fun _ => rfl, fun _ => rfl, rfl⟩
    have hmoved : ∀ li, (if (n.sessions s).peerCallsign.isEmpty then none
        else (List.range n.cfg.maxLinks).find? (m.migrationTarget s)) = some li →
        m.Moves W e (m.migrateSession s li) := fun li hli => by
      split_ifs at hli
      exact moves_migrateSession m s li hup (List.find?_some hli)
    cases verdict with
    | keep => exact hbad
    | wait =>
        dsimp only
        generalize (if (n.sessions s).peerCallsign.isEmpty then none
          else (List.range n.cfg.maxLinks).find? (m.migrationTarget s)) = target at hmoved ⊢
        cases target with
        | some li => exact hbad.trans (hmoved li rfl)
        | none => exact hbad
    | now =>
        dsimp only
        generalize (if (n.sessions s).peerCallsign.isEmpty then none
          else (List.range n.cfg.maxLinks).find? (m.migrationTarget s)) = target at hmoved ⊢
        cases target with
        | some li => exact hbad.trans (hmoved li rfl)
        | none => exact hbad.trans (moves_reapSession m s hup)
  · simp only [hup, Bool.not_false, if_true]
    exact .refl n

theorem moves_adoptSession (n : Node) (i : Slot) (l : LinkId) (port : ℕ) (hl : n.Sees e l)
    (h : n.adoptsTo l port i = true) : n.Moves W e (n.adoptSession i l) := by
  unfold adoptSession
  extract_lets n₁ sess n₂ n₃ sess'
  have hflags : n.SameRoutes (n₁.flagLink l true) := by
    refine SameRoutes.trans ?_ (sameRoutes_flagLink n₁ l true)
    exact .ite (.refl n) (sameRoutes_unflagOldLink n i)
  have hsess : n₁.sessions = n.sessions := by
    unfold n₁
    split_ifs
    exacts [rfl, unflagOldLink_sessions n i]
  have hcall : (n₁.links l).linkCall = (n.links l).linkCall := by
    rw [← flagLink_linkCall n₁ l true]
    exact hflags.linkCall l
  have hadopt : (n₁.flagLink l true).adoptsTo l port i = true := by
    unfold adoptsTo at h ⊢
    rw [flagLink_linkCall, hcall]
    rw [show (n₁.flagLink l true).sessions = n.sessions from hsess]
    exact h
  have hbad : ∀ m : Node,
      m.SameRoutes { m with reapBadSince := Function.update m.reapBadSince i 0 } := fun m =>
    ⟨rfl, rfl, fun _ => rfl, fun _ => rfl, fun _ => rfl, rfl⟩
  have hl' : (n₁.flagLink l true).Sees e l := by
    unfold Sees at hl ⊢
    rwa [hflags.linkCall]
  refine hflags.moves.trans ((Moves.one (.relink i l) ⟨hl', .inr (.inr ⟨port, hadopt⟩)⟩).trans ?_)
  refine (hbad _).moves.trans ?_
  have hsame : n₃.setSession i { n₃.sessions i with peerCallsign := (n₃.links l).linkCall } =
      { ((n₁.flagLink l true).relink i l) with
        reapBadSince := Function.update ((n₁.flagLink l true).relink i l).reapBadSince i 0 } := by
    simp [n₃, n₂, sess, relink, setSession, flagLink, setLink]
  rw [hsame]
  exact .refl _

theorem moves_flexNetTryAdoptSession (n : Node) (l : LinkId) (port : ℕ) :
    n.Moves W e (n.flexNetTryAdoptSession l port).1 := by
  unfold flexNetTryAdoptSession
  dsimp only
  split_ifs with hempty
  · exact .refl n
  · dsimp only
    refine .foldl (fun n i => ?_) slots n
    unfold closeReplaced
    dsimp only
    split
    · exact .refl n
    · exact .ite (moves_flexNetCloseSession n _) (.refl n)
  · exact .refl n
  · split
    · exact .refl n
    · rename_i i hfind
      exact moves_adoptSession n i l port (.inl (by simpa using hempty)) (List.find?_some hfind)

theorem moves_sabmAccepted (n : Node) (port : ℕ) (he : e.about = some l) :
    n.Moves W e (n.sabmAccepted l port) := by
  have hadopt := (moves_flagLink (W := W) (e := e) n l true).trans
    (moves_flexNetTryAdoptSession (n.flagLink l true) l port)
  unfold sabmAccepted
  dsimp only
  generalize (n.flagLink l true).flexNetTryAdoptSession l port = r at hadopt ⊢
  obtain ⟨m, adopted⟩ := r
  exact .ite (.refl n) (.ite hadopt (hadopt.trans (moves_flexNetInitSession m port (.inr he))))

/-! ## Frame handlers -/

/-- A session stays on its row through moves of an event. -/
def Serves (W : Node → LinkId → AxCall → Prop) (e : Event) (s : Slot) (l : LinkId) (n m : Node) :
    Prop :=
  n.OnRow s l → n.Moves W e m ∧ m.OnRow s l ∧ m.cfg = n.cfg

theorem Serves.trans (h₁ : n.Serves W e s l m) (h₂ : m.Serves W e s l o) : n.Serves W e s l o :=
  fun hon => by
    obtain ⟨hm, honm, hcfg⟩ := h₁ hon
    obtain ⟨ho, hono, hcfg'⟩ := h₂ honm
    exact ⟨hm.trans ho, hono, hcfg'.trans hcfg⟩

theorem Serves.refl (n : Node) : n.Serves W e s l n := fun hon => ⟨.refl n, hon, rfl⟩

theorem Serves.ite {c : Prop} [Decidable c] (h₁ : n.Serves W e s l m) (h₂ : n.Serves W e s l o) :
    n.Serves W e s l (if c then m else o) := by
  split_ifs
  exacts [h₁, h₂]

theorem SameRoutes.onRow (h : n.SameRoutes m) (hon : n.OnRow s l) : m.OnRow s l := by
  have hup : (m.sessions s).active = true := (h.active s).trans hon.1
  exact ⟨hup, (h.session hup).2.1.trans hon.2⟩

theorem SameRoutes.serves (h : n.SameRoutes m) : n.Serves W e s l m := fun hon =>
  ⟨h.moves, h.onRow hon, h.cfg⟩

theorem flexDtableMerge_tables (n : Node) (r : Record) (s : Slot) :
    (n.flexDtableMerge r s).sessions = n.sessions ∧ (n.flexDtableMerge r s).cfg = n.cfg ∧
      (n.flexDtableMerge r s).links = n.links ∧ (n.flexDtableMerge r s).linkOpts = n.linkOpts := by
  obtain ⟨dests, h | ⟨dests', h⟩⟩ := flexDtableMerge_cases n r s
  · rw [h]
    exact ⟨rfl, rfl, rfl, rfl⟩
  · rw [h]
    have henv := (onlyPeers_flexLearnedAdd ({ n with dests := dests } : Node) s r).toEnv
    dsimp only
    rw [henv]
    exact ⟨rfl, rfl, rfl, rfl⟩

theorem serves_flexDtableMerge (n : Node) (r : Record)
    (h : n.OnRow s l → n.Merges e s r) : n.Serves W e s l (n.flexDtableMerge r s) := fun hon => by
  obtain ⟨hsessions, hcfg, -, -⟩ := flexDtableMerge_tables n r s
  exact ⟨.one (.merge s r) (h hon), by rw [OnRow, hsessions]; exact hon, hcfg⟩

variable {data : CStr}

theorem serves_flexAddNeighbourEntry (n : Node) (he : e.frame = some (l, data)) :
    n.Serves W e s l (n.flexAddNeighbourEntry s) := by
  unfold flexAddNeighbourEntry
  extract_lets k n₁ n₂
  have h₁ : n.SameRoutes n₁ := ⟨rfl, rfl, fun _ => rfl, fun _ => rfl, fun _ => rfl, rfl⟩
  have h₂ : n₁.Serves W e s l n₂ := serves_flexDtableMerge n₁ _ fun hon =>
    ⟨l, data, he, hon, .inr rfl⟩
  have h₃ : n₂.SameRoutes (if n₂.cfg.transit then n₂.flagDirect s k else n₂) :=
    .ite (sameRoutes_flagDirect n₂ s k) (.refl n₂)
  exact .ite (.refl n) (.ite (.refl n) ((h₁.serves.trans h₂).trans h₃.serves))

theorem serves_flexNotePeerEstablished (n : Node) (he : e.frame = some (l, data)) :
    n.Serves W e s l (n.flexNotePeerEstablished s) := by
  unfold flexNotePeerEstablished
  refine .ite (.refl n) ?_
  split
  · exact .refl n
  · exact .ite (.refl n) ((sameRoutes_setSession n (by rfl)).serves.trans
      (serves_flexAddNeighbourEntry _ he))

theorem serves_flexLinkTimeSample (n : Node) (s : Slot) :
    n.Serves W e s l (n.flexLinkTimeSample s) := fun hon => by
  refine ⟨moves_flexLinkTimeSample n s, ?_⟩
  have hmoved : ∀ m : Node, (m.sessions s).active = true → (m.sessions s).link = some l →
      m.cfg = n.cfg → (if m.cfg.transit then m.linkTimeMoved s else m).OnRow s l ∧
        (if m.cfg.transit then m.linkTimeMoved s else m).cfg = n.cfg := fun m hup hl hcfg => by
    have hserve :=
      SameRoutes.ite (c := m.cfg.transit = true) (sameRoutes_linkTimeMoved m s) (.refl m)
    exact ⟨hserve.onRow ⟨hup, hl⟩, hserve.cfg.trans hcfg⟩
  unfold flexLinkTimeSample
  dsimp only
  by_cases hpending : (!(n.sessions s).ltTxPending) = true
  · rw [if_pos hpending]
    exact ⟨hon, rfl⟩
  rw [if_neg hpending]
  by_cases hsample : (n.ticks - (n.sessions s).ltTxTick == 0 ||
      decide (6000 < n.ticks - (n.sessions s).ltTxTick)) = true
  · rw [if_pos hsample]
    exact ⟨(sameRoutes_setSession n (by rfl)).onRow hon, rfl⟩
  · rw [if_neg hsample]
    exact hmoved _ (by simpa [setSession] using hon.1) (by simpa [setSession] using hon.2) rfl

theorem serves_handleInit (n : Node) (he : e.frame = some (l, data)) :
    n.Serves W e s l (n.handleInit s data) := by
  unfold handleInit
  extract_lets sess reinit n₁ n₂
  have h₁ : n.Serves W e s l n₁ := (sameRoutes_setSession n (by rfl)).serves
  have h₂ : n₁.Serves W e s l n₂ :=
    (serves_flexAddNeighbourEntry n₁ he).trans (sameRoutes_inferFamily _ s _).serves
  refine (h₁.trans h₂).trans (.trans ?_ (sameRoutes_seedIfUnsent _ s).serves)
  exact .ite (sameRoutes_answerReinit n₂ s).serves (.refl n₂)

theorem serves_handleKeepalive (n : Node) (he : e.frame = some (l, data)) :
    n.Serves W e s l (n.handleKeepalive s data) := by
  unfold handleKeepalive
  extract_lets sess n₁ n₂ n₃ n₄
  have h₁ : n.Serves W e s l n₁ := (sameRoutes_setSession n (by rfl)).serves
  have h₂ : n₁.Serves W e s l n₂ :=
    (serves_flexNotePeerEstablished n₁ he).trans (sameRoutes_noteKeepalive _ s _).serves
  have h₃ : n₂.SameRoutes n₃ :=
    (sameRoutes_echoKeepalive n₂ s).trans (sameRoutes_flexSendLinkTime _ s)
  have h₄ : n₃.SameRoutes n₄ := .ite (sameRoutes_seedIfUnsent n₃ s) (.refl n₃)
  exact ((h₁.trans h₂).trans (h₃.trans h₄).serves).trans
    (sameRoutes_setSession n₄ (by rfl)).serves

theorem serves_handleLinkTime (n : Node) (he : e.frame = some (l, data)) :
    n.Serves W e s l (n.handleLinkTime s data) :=
  (serves_flexNotePeerEstablished n he).trans <| (serves_flexLinkTimeSample _ s).trans <|
    ((sameRoutes_noteLinkTime _ s data).trans (sameRoutes_flexSendLinkTime _ s)).serves

theorem serves_handleStatusPos (n : Node) (he : e.frame = some (l, data)) :
    n.Serves W e s l (n.handleStatusPos s) := by
  unfold handleStatusPos
  extract_lets n₁ peer n₂ n₃ n₄
  have h₁ : n.Serves W e s l n₁ := serves_flexNotePeerEstablished n he
  have h₂ : n₁.SameRoutes n₂ := .ite (sameRoutes_setPeer n₁ s _) (.refl n₁)
  have h₃ : n₂.SameRoutes n₃ := sameRoutes_setPeer n₂ s _
  have h₄ : n₃.SameRoutes n₄ := .ite (sameRoutes_answerStatusPos n₃ s) (.refl n₃)
  exact h₁.trans (((h₂.trans h₃).trans h₄).trans (sameRoutes_setSession n₄ (by rfl))).serves

theorem serves_merges (rs : List Record) (n : Node) (he : e.frame = some (l, data))
    (hrs : ∀ r ∈ rs, r ∈ frameRecords n.cfg data) :
    n.Serves W e s l (rs.foldl (fun n r => n.flexDtableMerge r s) n) := by
  induction rs generalizing n with
  | nil => exact .refl n
  | cons r rs ih =>
      have hmerge : n.Serves W e s l (n.flexDtableMerge r s) := serves_flexDtableMerge n r
        fun hon => ⟨l, data, he, hon, .inl (hrs r List.mem_cons_self)⟩
      refine hmerge.trans (ih _ fun r' hr' => ?_)
      rw [(flexDtableMerge_tables n r s).2.1]
      exact hrs r' (List.mem_cons_of_mem r hr')

theorem serves_handleCompact (n : Node) (he : e.frame = some (l, data))
    (hcompact : flexParseCeFrame n.cfg.lt3byte data = some .compact) :
    n.Serves W e s l (n.handleCompact s data) := fun hon => by
  have hnoted := serves_flexNotePeerEstablished (W := W) (s := s) n he
  obtain ⟨-, -, hcfg⟩ := hnoted hon
  refine hnoted.trans (serves_merges _ _ he fun r hr => ?_) hon
  rwa [hcfg, frameRecords, if_pos hcompact]

theorem serves_handleFrame (n : Node) (he : e.frame = some (l, data)) :
    n.Serves W e s l (n.handleFrame s data) := by
  unfold handleFrame
  cases hframe : flexParseCeFrame n.cfg.lt3byte data with
  | none => exact .refl n
  | some type =>
      cases type with
      | init => exact serves_handleInit n he
      | keepalive => exact serves_handleKeepalive n he
      | linkTime => exact serves_handleLinkTime n he
      | token => exact (sameRoutes_setPeer n s _).serves
      | statusPos => exact serves_handleStatusPos n he
      | compact => exact serves_handleCompact n he hframe
      | _ => exact .refl n

theorem onRow_of_flexFindSession (h : n.flexFindSession l = some s) : n.OnRow s l := by
  have := List.find?_some h
  simp only [Bool.and_eq_true, beq_iff_eq] at this
  exact ⟨this.1.2, this.2⟩

theorem about_of_frame (he : e.frame = some (l, data)) : e.about = some l := by
  cases e <;> simp_all [Event.frame, Event.about]

theorem moves_flexNetProcessCE (n : Node) (he : e.frame = some (l, data)) :
    n.Moves W e (n.flexNetProcessCE l data) := by
  have habout := about_of_frame he
  unfold flexNetProcessCE
  refine .ite (.refl n) ?_
  cases hfind : n.flexFindSession l with
  | some s => exact (serves_handleFrame n he (onRow_of_flexFindSession hfind)).1
  | none =>
      dsimp only
      have hinit := moves_flexNetInitSession (W := W) n ((n.links l).port.getD 0) (.inr habout)
      generalize n.flexNetInitSession l ((n.links l).port.getD 0) = m at hinit ⊢
      refine hinit.trans ?_
      cases hfind : m.flexFindSession l with
      | some s => exact (serves_handleFrame m he (onRow_of_flexFindSession hfind)).1
      | none => exact .refl m

theorem moves_ceReceived (n : Node) (port : ℕ) (he : e.frame = some (l, data)) :
    n.Moves W e (n.ceReceived l port data) := by
  unfold ceReceived
  extract_lets m
  have hm : n.Moves W e m :=
    .ite (moves_flexNetInitSession n port (.inr (about_of_frame he))) (.refl n)
  exact hm.trans (.ite (moves_flexNetProcessCE m he) (.refl m))

/-! ## The timer -/

/-- The rows the keeper opens meet `W` in the state they are opened in. -/
def KeeperOpens (W : Node → LinkId → AxCall → Prop) (n : Node) : Prop :=
  Chain keepPortLink (fun m i => ∀ l pl, m.Opens i l pl → W m l pl.axcall)
    { n with portLinkScanned := n.now } (List.range n.portLinks.length)

theorem sameRoutes_setPortLink (n : Node) (i : ℕ) (pl : PortLink) :
    n.SameRoutes (n.setPortLink i pl) :=
  ⟨rfl, rfl, fun _ => rfl, fun _ => rfl, fun _ => rfl, rfl⟩

theorem moves_keepPortLink (n : Node) (i : ℕ) (hW : ∀ l pl, n.Opens i l pl → W n l pl.axcall) :
    n.Moves W e (n.keepPortLink i) := by
  unfold keepPortLink
  cases hpl : n.portLinks[i]? with
  | none => exact .refl n
  | some pl =>
      dsimp only
      by_cases husable : pl.usable = true
      swap
      · rw [if_pos (by simp [husable])]
        exact .refl n
      rw [if_neg (by simp [husable])]
      cases hfind : n.findLink pl.axcall n.cfg.myCall pl.port with
      | inl li =>
          have hnamed : (n.links li).linkCall.isEmpty = false := by
            unfold findLink at hfind
            split at hfind
            · rename_i li' hli'
              obtain rfl := Sum.inl.inj hfind
              have := List.find?_some hli'
              simp only [Bool.and_eq_true, Bool.not_eq_true'] at this
              exact this.1.1.1
            · cases hfind
          have hserve := sameRoutes_setPortLink n i { pl with wasUp := true, backoff := 0 }
          exact .ite (.refl n) (.ite (hserve.moves.trans
            (moves_flexNetInitSession _ pl.port (.inl hnamed))) hserve.moves)
      | inr spare =>
          dsimp only
          by_cases hwas : pl.wasUp = true
          · rw [if_pos hwas]
            exact (sameRoutes_setPortLink n i _).moves
          rw [if_neg hwas]
          by_cases hlater : n.now < pl.nextTry
          · rw [if_pos hlater]
            exact .refl n
          rw [if_neg hlater]
          cases spare with
          | none => exact (sameRoutes_setPortLink n i _).moves
          | some li =>
              have hfree : (n.links li).linkCall.isEmpty = true := by
                unfold findLink at hfind
                split at hfind
                · cases hfind
                · exact List.find?_some (p := fun li => (n.links li).linkCall.isEmpty)
                    (Sum.inr.inj hfind)
              have hopens : n.Opens i li pl :=
                ⟨hpl, husable, by simpa using hwas, by omega, hfind⟩
              exact (Moves.one (.row li _) (.inr ⟨hfree, hW li pl hopens⟩)).trans
                (sameRoutes_setPortLink _ i _).moves

theorem moves_flexPortLinksKeep (n : Node) (hW : n.KeeperOpens W) :
    n.Moves W e n.flexPortLinksKeep := by
  have hscanned : n.SameRoutes { n with portLinkScanned := n.now } :=
    ⟨rfl, rfl, fun _ => rfl, fun _ => rfl, fun _ => rfl, rfl⟩
  refine .ite (.refl n) (.ite (.refl n) (hscanned.moves.trans ?_))
  unfold KeeperOpens at hW
  generalize ({ n with portLinkScanned := n.now } : Node) = m at hW ⊢
  generalize List.range n.portLinks.length = is at hW ⊢
  induction is generalizing m with
  | nil => exact .refl m
  | cons i is ih => exact (moves_keepPortLink m i hW.1).trans (ih _ hW.2)

theorem moves_proactiveInit (n : Node) : n.Moves W e n.proactiveInit := by
  have hscanned : n.SameRoutes { n with lastProactiveInitScan := n.now } :=
    ⟨rfl, rfl, fun _ => rfl, fun _ => rfl, fun _ => rfl, rfl⟩
  refine .ite (.refl n) (hscanned.moves.trans (.foldl (fun n li => ?_) _ _))
  by_cases hwants : n.wantsInit li = true
  · have hnamed : (n.links li).linkCall.isEmpty = false := by
      simp only [wantsInit, Bool.and_eq_true, Bool.not_eq_true'] at hwants
      exact hwants.1.1.1.1.1
    rw [if_pos hwants]
    exact moves_flexNetInitSession n _ (.inl hnamed)
  · rw [if_neg hwants]
    exact .refl n

theorem moves_flexNetTimer (n : Node) (hW : n.KeeperOpens W) : n.Moves W e n.flexNetTimer := by
  refine (moves_flexPortLinksKeep n hW).trans ((moves_flexLinkOptsPoll _).trans ?_)
  refine (Moves.foldl moves_reapTurn slots _).trans ((moves_proactiveInit _).trans ?_)
  exact .foldl (fun n s => (sameRoutes_serveSession n s).moves) slots _

/-! ## Events -/

theorem sameRoutes_sendPath (n : Node) (s : Slot) (pid : UInt8) (data : CStr) :
    n.SameRoutes (n.sendPath s pid data) :=
  .ite (sameRoutes_setPeer n s _) (.refl n)

theorem sameRoutes_clock (n : Node) (seconds : ℕ) (ticks : UInt32) :
    n.SameRoutes (n.event (.clock seconds ticks)) :=
  ⟨rfl, rfl, fun _ => rfl, fun _ => rfl, fun _ => rfl, rfl⟩

theorem sameRoutes_mapTable (n : Node) (ports : List AxipPort) :
    n.SameRoutes (n.event (.mapTable ports)) :=
  ⟨rfl, rfl, fun _ => rfl, fun _ => rfl, fun _ => rfl, rfl⟩

/-- Every event of the node is a run of its moves. -/
theorem event_moves (n : Node) (e : Event) (hW : e = .timer → n.KeeperOpens W) :
    n.Moves W e (n.event e) := by
  cases e with
  | clock seconds ticks => exact (sameRoutes_clock n seconds ticks).moves
  | row l x => exact .one (.row l x) (.inl rfl)
  | mapTable ports => exact (sameRoutes_mapTable n ports).moves
  | initSession l port => exact moves_flexNetInitSession n port (.inr rfl)
  | closeSession l => exact moves_flexNetCloseSession n l
  | notePeerL2Restart call port => exact (sameRoutes_flexNetNotePeerL2Restart n call port).moves
  | tryAdoptSession l port => exact moves_flexNetTryAdoptSession n l port
  | sabm l port => exact moves_sabmAccepted n port rfl
  | processCE l data => exact moves_flexNetProcessCE n rfl
  | ceReceived l port data => exact moves_ceReceived n port rfl
  | timer => exact moves_flexNetTimer n (hW rfl)
  | heal i => exact .one (.heal i) trivial
  | pathCache rows =>
      exact .foldl (fun n (row : Key × List Callsign × ℤ) =>
        .one (.cache row.1 row.2.1 row.2.2) trivial) rows n
  | pathFrame s reply body => exact (sameRoutes_sendPath n s _ _).moves
  | l3Frame s data => exact (sameRoutes_sendPath n s _ _).moves

end Node

end FlexNet
