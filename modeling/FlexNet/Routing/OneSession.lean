import FlexNet.Routing.Effects

/-!
# One session for a neighbour, and for a row

Sessions are found again in four ways: by their row, by the octets in their row, by the callsign
they stashed, and by its text.  As long as a session's row names it whenever a row is taken, the
four ways agree, and no neighbour gets a second session.  `FlexNet_InitSession` reads the octets in
the rows and not the stashed callsigns, so a row zeroed by BPQ hides its session from it.
-/

namespace FlexNet

open Runs

namespace Node

variable {W : Node → LinkId → AxCall → Prop} {e : Event} {n m : Node} {s : Slot} {l : LinkId}

/-- The text of the callsign in a row. -/
def rowName (n : Node) (l : LinkId) : CStr := flexNormalizeCallsign (n.links l).linkCall

/-- The text of the callsign a session stashed. -/
def peerName (n : Node) (i : Slot) : CStr := flexNormalizeCallsign (n.sessions i).peerCallsign

/-- No two sessions that are up have one neighbour on one port, or one row. -/
structure SessionsUnique (n : Node) : Prop where
  peer : ∀ i j, (n.sessions i).active = true → (n.sessions j).active = true →
    (n.sessions i).port = (n.sessions j).port → n.peerName i = n.peerName j → i = j
  link : ∀ i j l, n.OnRow i l → n.OnRow j l → i = j

/-! ## The condition -/

/-- A row is taken from sessions of its own station only. -/
def OwnRow (n : Node) (l : LinkId) (port : ℕ) : Prop :=
  ∀ i, n.OnRow i l → n.peerName i = n.rowName l ∧ (n.sessions i).port = port

/-- A row is taken while the sessions concerned still have rows that name them: a session that is
pointed at it bears its callsign, as do those that point at it already; and every session of its
station is seen in its own row. -/
def Move.FindsOwn (n : Node) : Move → Prop
  | .relink s l => n.peerName s = n.rowName l ∧ n.OwnRow l (n.sessions s).port
  | .migrate s l => n.OwnRow l (n.sessions s).port
  | .start _ l port => ∀ i, (n.sessions i).active = true → (n.sessions i).port = port →
      n.peerName i = n.rowName l →
        ∃ l' ∈ (n.sessions i).link, (n.links l').linkCall = (n.links l).linkCall
  | _ => True

/-- Every move of an event finds such rows. -/
def FindsOwn (n : Node) (e : Event) : Prop :=
  ∃ ms, GuardedRun Move.apply
    (fun m mv => mv.Legal (fun _ _ _ => True) e m ∧ mv.FindsOwn m) n ms (n.event e)

/-! ## Steps -/

/-- Sessions that are up, up to their stashed octets. -/
theorem SessionsUnique.of_same (hn : n.SessionsUnique)
    (h : ∀ i, (m.sessions i).active = true → (n.sessions i).active = true ∧
      (m.sessions i).link = (n.sessions i).link ∧ (m.sessions i).port = (n.sessions i).port ∧
        m.peerName i = n.peerName i) : m.SessionsUnique where
  peer i j hi hj hport hname := by
    obtain ⟨hi', -, hpi, hni⟩ := h i hi
    obtain ⟨hj', -, hpj, hnj⟩ := h j hj
    exact hn.peer i j hi' hj' (hpi ▸ hpj ▸ hport) (hni ▸ hnj ▸ hname)
  link i j l hi hj := by
    obtain ⟨hi', hli, -⟩ := h i hi.1
    obtain ⟨hj', hlj, -⟩ := h j hj.1
    exact hn.link i j l ⟨hi', hli ▸ hi.2⟩ ⟨hj', hlj ▸ hj.2⟩

theorem SameRoutes.sessionsUnique (h : n.SameRoutes m) (hn : n.SessionsUnique) :
    m.SessionsUnique :=
  hn.of_same fun i hi => by
    obtain ⟨hup, hlink, hcall, hport, -⟩ := h.session hi
    exact ⟨hup, hlink, hport, congrArg flexNormalizeCallsign hcall⟩

/-- A session moved to a row that no other session is on. -/
theorem sessionsUnique_setSession (hn : n.SessionsUnique) {x : Session}
    (hup : (n.sessions s).active = true) (hport : x.port = (n.sessions s).port)
    (hname : flexNormalizeCallsign x.peerCallsign = n.peerName s) (hlink : x.link = some l)
    (hrow : ∀ i, n.OnRow i l → i = s) : (n.setSession s x).SessionsUnique := by
  have hself : (n.setSession s x).sessions s = x := setSession_sessions_self n s x
  have hother : ∀ i, i ≠ s → (n.setSession s x).sessions i = n.sessions i := fun i hi =>
    setSession_sessions_of_ne n x hi
  have hkept : ∀ i, ((n.setSession s x).sessions i).active = true →
      (n.sessions i).active = true ∧
        ((n.setSession s x).sessions i).port = (n.sessions i).port ∧
        (n.setSession s x).peerName i = n.peerName i := fun i hi => by
    unfold peerName
    by_cases his : i = s
    · subst his
      rw [hself]
      exact ⟨hup, hport, hname⟩
    · rw [hother i his] at hi ⊢
      exact ⟨hi, rfl, rfl⟩
  refine ⟨fun i j hi hj hp hname => ?_, fun i j l' hi hj => ?_⟩
  · obtain ⟨hi', hpi, hni⟩ := hkept i hi
    obtain ⟨hj', hpj, hnj⟩ := hkept j hj
    exact hn.peer i j hi' hj' (hpi ▸ hpj ▸ hp) (hni ▸ hnj ▸ hname)
  · -- a session on the new row, or two sessions that have not moved
    have hmoved : ∀ i, (n.setSession s x).OnRow i l → i = s := fun i hi => by
      by_contra his
      exact his (hrow i (by rwa [OnRow, hother i his] at hi))
    by_cases hl : l' = l
    · exact (hmoved i (hl ▸ hi)).trans (hmoved j (hl ▸ hj)).symm
    · have hne : ∀ i, (n.setSession s x).OnRow i l' → n.OnRow i l' := fun i hi => by
        have his : i ≠ s := by
          rintro rfl
          rw [OnRow, hself, hlink] at hi
          exact hl (Option.some.inj hi.2).symm
        rwa [OnRow, hother i his] at hi
      exact hn.link i j l' (hne i hi) (hne j hj)

/-- Only the session itself is on the row it is pointed at. -/
theorem OwnRow.eq (hn : n.SessionsUnique) (hup : (n.sessions s).active = true)
    (hown : n.OwnRow l (n.sessions s).port) (hname : n.peerName s = n.rowName l) :
    ∀ i, n.OnRow i l → i = s := fun i hi => by
  obtain ⟨hpeer, hport⟩ := hown i hi
  exact hn.peer i s hi.1 hup hport (hpeer.trans hname.symm)

theorem Relinks.up (h : n.Relinks e s l) : (n.sessions s).active = true := by
  obtain ⟨-, hon | ⟨-, port, hsame⟩ | ⟨port, hadopts⟩⟩ := h
  · exact hon.1
  · simp only [sameCallSession, Bool.and_eq_true] at hsame
    exact hsame.1.1
  · simp only [adoptsTo, Bool.and_eq_true] at hadopts
    exact hadopts.1.1.1.1

theorem sessionsUnique_relink (hn : n.SessionsUnique) (hs : n.Relinks e s l)
    (hown : (Move.relink s l).FindsOwn n) : (n.relink s l).SessionsUnique :=
  sessionsUnique_setSession hn hs.up rfl hown.1.symm rfl (hown.2.eq hn hs.up hown.1)

theorem sessionsUnique_migrate (hn : n.SessionsUnique) (hup : (n.sessions s).active = true)
    (htarget : n.migrationTarget s l = true) (hown : n.OwnRow l (n.sessions s).port) :
    (n.setSession s { n.sessions s with link := some l }).SessionsUnique := by
  simp only [migrationTarget, Bool.and_eq_true, beq_iff_eq] at htarget
  exact sessionsUnique_setSession hn hup rfl rfl rfl (hown.eq hn hup htarget.2.symm)

/-- A session is started only where none of its station is up. -/
theorem sessionsUnique_startSession {port : ℕ} (hn : n.SessionsUnique)
    (hstarts : n.Starts s l port) (hown : (Move.start s l port).FindsOwn n) :
    (n.startSession s l port).SessionsUnique := by
  obtain ⟨hdown, hfree, hsame⟩ := hstarts
  have hstart := startSession_started n s l port hdown
  generalize n.startSession s l port = m at hstart ⊢
  have hnobody : ∀ i, (n.sessions i).active = true → (n.sessions i).port = port →
      n.peerName i ≠ n.rowName l := fun i hi hport hname => by
    obtain ⟨l', hl', hcall⟩ := hown i hi hport hname
    have hne : l' ≠ l := fun heq => hfree i ⟨hi, heq ▸ hl'⟩
    have := hsame i
    simp [sameCallSession, hi, hport, Option.mem_def.mp hl', hne, hcall] at this
  have hself : m.peerName s = n.rowName l := congrArg flexNormalizeCallsign hstart.peerCallsign
  have hother : ∀ i, i ≠ s → (m.sessions i).active = true → (n.sessions i).active = true ∧
      (m.sessions i).link = (n.sessions i).link ∧ (m.sessions i).port = (n.sessions i).port ∧
        m.peerName i = n.peerName i := fun i hi hup => by
    have hid := hstart.identity i hi
    unfold Session.identity at hid
    rw [if_pos hup] at hid
    split_ifs at hid with hupn
    simp only [Option.some.injEq, Prod.mk.injEq] at hid
    exact ⟨hupn, hid.1, hid.2.2.1, congrArg flexNormalizeCallsign hid.2.1⟩
  have hnewPeer : ∀ i, i ≠ s → (m.sessions i).active = true →
      (m.sessions i).port = (m.sessions s).port → m.peerName i ≠ m.peerName s :=
    fun i hi hup hport hname => by
      obtain ⟨hupn, -, hportn, hnamen⟩ := hother i hi hup
      exact hnobody i hupn (hportn ▸ hport.trans hstart.port) (hnamen ▸ hname.trans hself)
  have hnewLink : ∀ i, i ≠ s → ¬ m.OnRow i l := fun i hi hon => by
    obtain ⟨hupn, hlinkn, -⟩ := hother i hi hon.1
    exact hfree i ⟨hupn, hlinkn ▸ hon.2⟩
  refine ⟨fun i j hi hj hport hname => ?_, fun i j l' hi hj => ?_⟩
  · by_cases his : i = s
    · by_contra hij
      subst his
      exact hnewPeer j (Ne.symm hij) hj hport.symm hname.symm
    · by_cases hjs : j = s
      · subst hjs
        exact absurd hname (hnewPeer i his hi hport)
      · obtain ⟨hi', -, hpi, hni⟩ := hother i his hi
        obtain ⟨hj', -, hpj, hnj⟩ := hother j hjs hj
        exact hn.peer i j hi' hj' (hpi ▸ hpj ▸ hport) (hni ▸ hnj ▸ hname)
  · have hrow : ∀ i, m.OnRow i l' → i = s → l' = l := fun i hi his => by
      subst his
      exact Option.some.inj (hi.2.symm.trans hstart.onRow.2)
    by_cases his : i = s
    · by_contra hij
      have hl := hrow i hi his
      exact hnewLink j (fun hjs => hij (his.trans hjs.symm)) (hl ▸ hj)
    · by_cases hjs : j = s
      · have hl := hrow j hj hjs
        exact absurd (hl ▸ hi) (hnewLink i his)
      · obtain ⟨hi', hli, -⟩ := hother i his hi.1
        obtain ⟨hj', hlj, -⟩ := hother j hjs hj.1
        exact hn.link i j l' ⟨hi', hli ▸ hi.2⟩ ⟨hj', hlj ▸ hj.2⟩

/-- The step lemma. -/
theorem Move.sessionsUnique (n : Node) (mv : Move) (hn : n.SessionsUnique)
    (hmv : mv.Legal W e n ∧ mv.FindsOwn n) : (mv.apply n).SessionsUnique := by
  obtain ⟨hlegal, hown⟩ := hmv
  have hpeers : ∀ m : Node, m.sessions = n.sessions → m.SessionsUnique := fun m hm =>
    hn.of_same fun i hi => by
      unfold peerName
      rw [hm] at hi ⊢
      exact ⟨hi, rfl, rfl, rfl⟩
  cases mv with
  | serve m =>
      have hsame : n.SameRoutes m := hlegal
      exact hsame.sessionsUnique hn
  | row l x => exact hpeers _ rfl
  | merge s r => exact hpeers _ (flexDtableMerge_tables n r s).1
  | relink s l => exact sessionsUnique_relink hn hlegal hown
  | migrate s l => exact sessionsUnique_migrate hn hlegal.1 hlegal.2 hown
  | start s l port => exact sessionsUnique_startSession hn hlegal hown
  | stop s x =>
      refine hn.of_same fun i hi => ?_
      have his : i ≠ s := by
        rintro rfl
        change ((n.setSession i x).sessions i).active = true at hi
        rw [setSession_sessions_self, hlegal.2] at hi
        cases hi
      have hsame : ((Move.stop s x).apply n).sessions i = n.sessions i :=
        setSession_sessions_of_ne n x his
      unfold peerName
      rw [hsame] at hi ⊢
      exact ⟨hi, rfl, rfl, rfl⟩
  | opts s o =>
      refine hpeers _ ?_
      change (n.setLinkOpts s o).sessions = n.sessions
      unfold setLinkOpts
      extract_lets shift m
      by_cases hshift : shift = 0
      · rw [if_pos hshift]
      · rw [if_neg hshift]
  | sample s value =>
      refine hn.of_same fun i hi => ?_
      by_cases his : i = s
      · subst his
        simpa [Move.apply, peerName] using hi
      · have hsame : ((Move.sample s value).apply n).sessions i = n.sessions i :=
          setSession_sessions_of_ne n _ his
        unfold peerName
        rw [hsame] at hi ⊢
        exact ⟨hi, rfl, rfl, rfl⟩
  | heal i => exact hpeers _ rfl
  | cache k path updated =>
      refine hpeers _ ?_
      change (n.loadPathRow k path updated).sessions = n.sessions
      unfold loadPathRow
      split
      · rfl
      · split_ifs <;> rfl

/-! ## Every run -/

/-- In every run whose moves find the rows of the sessions they are about, no neighbour has two
sessions on a port, and no row has two sessions. -/
theorem after_sessionsUnique {cfg : Config} {axipPorts : List AxipPort} {portLinks : List PortLink}
    {links : LinkId → Link} {now : ℤ} {events : List Event}
    (hown : Chain Node.event FindsOwn (boot cfg axipPorts portLinks links now) events) :
    ((boot cfg axipPorts portLinks links now).after events).SessionsUnique := by
  have hboot : (boot cfg axipPorts portLinks links now).SessionsUnique :=
    ⟨fun _ _ hi => (by cases hi), fun _ _ _ hi => (by cases hi.1)⟩
  generalize boot cfg axipPorts portLinks links now = n at hown hboot ⊢
  induction events generalizing n with
  | nil => exact hboot
  | cons e events ih =>
      obtain ⟨⟨ms, hms⟩, hrest⟩ := hown
      exact ih _ hrest (hms.invariant Move.sessionsUnique hboot)

/-- Two neighbours, and a row of one of them zeroed. -/
theorem sessionsUnique_zeroed :
    ((boot (Bench.config false) [] [] Bench.links 1000).after
      [.initSession 0 1, .initSession 1 1, .row 0 {}]).SessionsUnique := by
  refine after_sessionsUnique ⟨⟨[Move.start Bench.slotA 0 1], ?_⟩,
    ⟨[Move.start Bench.slotB 1 1], ?_⟩, ⟨[Move.row 0 {}], ?_⟩, trivial⟩
  · have hlegal : (boot (Bench.config false) [] [] Bench.links 1000).Starts Bench.slotA 0 1 :=
      ⟨rfl, fun _ hi => (by cases hi.1), fun _ => rfl⟩
    exact GuardedRun.start.step (Move.start Bench.slotA 0 1) ⟨hlegal, fun _ hi => (by cases hi)⟩
  · have hlegal : ((boot (Bench.config false) [] [] Bench.links 1000).event
        (.initSession 0 1)).Starts Bench.slotB 1 1 := by
      unfold Starts OnRow
      decide +kernel
    refine GuardedRun.start.step (Move.start Bench.slotB 1 1) ⟨hlegal, ?_⟩
    unfold Move.FindsOwn
    decide +kernel
  · exact GuardedRun.start.step (Move.row 0 {}) ⟨.inl rfl, trivial⟩

/-- The row of `A` is zeroed and `A` comes back in another row before the reaper runs: the octets in
the old row do not match, and `A` gets a second session. -/
theorem not_sessionsUnique_moved :
    ¬ ((boot (Bench.config false) [] [] Bench.links 1000).after
      [.initSession 0 1, .row 0 {}, .row 2 (Bench.row (Bench.addr 0x41)),
        .initSession 2 1]).SessionsUnique := by
  intro hunique
  have hpeer := hunique.peer Bench.slotA Bench.slotB
  revert hpeer
  decide +kernel

end Node

end FlexNet
