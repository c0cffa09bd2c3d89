import FlexNet.Lib.Backoff
import FlexNet.Links.Timers

/-!
# The link keeper

`flex_port_links_keep` looks at every declared link once a scan and opens the ones that are gone.
What it remembers of a link is a `Backoff.State`, and its turn on the link is one `look` of that
machine, at what `FindLink` answers.  So what the machine promises of every history holds of every
run of the node: a link is opened only while no row is there, failed opens wait longer and longer,
and a link that was lost is left alone for a while.
-/

namespace FlexNet

open Backoff

/-- The keeper's three numbers. -/
def keeperTimes : Times ℤ where
  retry := Node.portLinkRetry
  cap := Node.portLinkRetryMax
  reopen := Node.portLinkReopen
  retry_pos := by decide
  retry_le_cap := by decide

/-- What the keeper remembers of a declared link. -/
def PortLink.memory (pl : PortLink) : State ℤ := ⟨pl.wasUp, pl.backoff, pl.nextTry⟩

/-- A declaration that the keeper has not looked at. -/
def PortLink.Fresh (pl : PortLink) : Prop := pl.wasUp = false ∧ pl.backoff = 0

/-- Two states of one declaration. -/
def PortLink.SameDeclared (pl pl' : PortLink) : Prop :=
  pl'.port = pl.port ∧ pl'.axcall = pl.axcall ∧ pl'.usable = pl.usable

theorem PortLink.SameDeclared.trans {pl pl' pl'' : PortLink} (h : pl.SameDeclared pl')
    (h' : pl'.SameDeclared pl'') : pl.SameDeclared pl'' :=
  ⟨h'.1.trans h.1, h'.2.1.trans h.2.1, h'.2.2.trans h.2.2⟩

theorem PortLink.Fresh.valid {pl : PortLink} (h : pl.Fresh) : pl.memory.Valid keeperTimes :=
  ⟨.inl h.2, fun _ => h.2⟩

namespace Node

variable {n m : Node} {i : ℕ} {pl : PortLink} {e : Event} {events : List Event}

/-! ## What a turn sees and does -/

/-- What `FindLink` tells the keeper. -/
def sight (n : Node) (call : AxCall) (port : ℕ) : Sight :=
  match n.findLink call n.cfg.myCall port with
  | .inl li => if (n.links li).flexL2Connected then .up else .busy
  | .inr spare => .gone spare.isSome

/-- A row of the link table is a link of the node call to a station on a port, in whatever
state. -/
def HasLink (n : Node) (call : AxCall) (port : ℕ) : Prop :=
  ∃ li < n.cfg.maxLinks, (n.links li).linkCall.isEmpty = false ∧ (n.links li).port = some port ∧
    (n.links li).linkCall.same call = true ∧ (n.links li).ourCall.same n.cfg.myCall = true

/-- The turn of entry `i` opens its link: it sets up a spare row (`keepPortLink_opens`). -/
def opensNow (n : Node) (i : ℕ) : Bool :=
  match n.portLinks[i]? with
  | none => false
  | some pl => pl.usable && pl.memory.tries n.now (n.sight pl.axcall pl.port)

theorem sight_gone_iff {call : AxCall} {port : ℕ} :
    (∃ means, n.sight call port = .gone means) ↔ ¬ n.HasLink call port := by
  unfold sight findLink HasLink
  cases hfind : (List.range n.cfg.maxLinks).find? fun li =>
      !(n.links li).linkCall.isEmpty && (n.links li).port == some port &&
        (n.links li).linkCall.same call && (n.links li).ourCall.same n.cfg.myCall with
  | none =>
      simp only [List.find?_eq_none, List.mem_range, Bool.and_eq_true, Bool.not_eq_true',
        beq_iff_eq] at hfind
      refine iff_of_true ⟨_, rfl⟩ ?_
      rintro ⟨li, hli, hnamed, hport, hcall, hown⟩
      exact hfind li hli ⟨⟨⟨hnamed, hport⟩, hcall⟩, hown⟩
  | some li =>
      have hli := List.mem_range.mp (List.mem_of_find?_eq_some hfind)
      have hrow := List.find?_some hfind
      simp only [Bool.and_eq_true, Bool.not_eq_true', beq_iff_eq] at hrow
      refine iff_of_false ?_ (not_not.mpr ⟨li, hli, hrow.1.1.1, hrow.1.1.2, hrow.1.2, hrow.2⟩)
      rintro ⟨means, hgone⟩
      dsimp only at hgone
      split_ifs at hgone

theorem sight_gone_true_iff {call : AxCall} {port : ℕ} :
    n.sight call port = .gone true ↔ ∃ li, n.findLink call n.cfg.myCall port = .inr (some li) := by
  unfold sight
  cases n.findLink call n.cfg.myCall port with
  | inl li =>
      dsimp only
      split_ifs <;> simp
  | inr spare => cases spare <;> simp

/-- An open is a turn that finds no link, and a spare row. -/
theorem opensNow_iff : n.opensNow i = true ↔ ∃ li pl, n.Opens i li pl := by
  unfold opensNow Opens
  cases n.portLinks[i]? with
  | none => simp
  | some pl =>
      dsimp only
      rw [Bool.and_eq_true, State.tries_iff, sight_gone_true_iff]
      constructor
      · rintro ⟨husable, ⟨li, hli⟩, hdown, hdue⟩
        exact ⟨li, pl, rfl, husable, hdown, hdue, hli⟩
      · rintro ⟨li, pl', hpl', husable, hdown, hdue, hli⟩
        obtain rfl := Option.some.inj hpl'
        exact ⟨husable, ⟨li, hli⟩, hdown, hdue⟩

/-- A turn is a look of the back-off machine. -/
theorem keepPortLink_portLinks (hpl : n.portLinks[i]? = some pl) (husable : pl.usable = true) :
    ∃ pl', (n.keepPortLink i).portLinks = n.portLinks.set i pl' ∧ pl.SameDeclared pl' ∧
      pl'.memory = pl.memory.look keeperTimes n.now (n.sight pl.axcall pl.port) := by
  have hsame : n.portLinks.set i pl = n.portLinks := by
    obtain ⟨hlt, hget⟩ := List.getElem?_eq_some_iff.mp hpl
    rw [← hget]
    exact List.set_getElem_self hlt
  unfold keepPortLink sight
  rw [hpl]
  dsimp only
  rw [if_neg (by simp [husable])]
  cases n.findLink pl.axcall n.cfg.myCall pl.port with
  | inl li =>
      dsimp only
      cases hup : (n.links li).flexL2Connected with
      | false => exact ⟨pl, by simp [hsame], ⟨rfl, rfl, rfl⟩, by simp [State.look]⟩
      | true =>
          have hinit := (n.setPortLink i { pl with wasUp := true, backoff := 0 }
            ).untouched_flexNetInitSession li pl.port
          refine ⟨{ pl with wasUp := true, backoff := 0 }, ?_, ⟨rfl, rfl, rfl⟩, rfl⟩
          simp only [Bool.not_true, Bool.false_eq_true, if_false]
          split_ifs
          · exact hinit.portLinks
          · rfl
  | inr spare =>
      dsimp only
      by_cases hwas : pl.wasUp = true
      · refine
          ⟨{ pl with wasUp := false, nextTry := n.now + portLinkReopen }, ?_, ⟨rfl, rfl, rfl⟩, ?_⟩
        · rw [if_pos hwas]
          rfl
        · rw [State.look_lost (s := pl.memory) _ hwas]
          rfl
      have hdown : pl.wasUp = false := by simpa using hwas
      by_cases hearly : n.now < pl.nextTry
      · refine ⟨pl, ?_, ⟨rfl, rfl, rfl⟩, (State.look_early (s := pl.memory) _ hdown hearly).symm⟩
        rw [if_neg hwas, if_pos hearly, hsame]
      have hdue : pl.memory.nextTry ≤ n.now := not_lt.mp hearly
      rw [if_neg hwas, if_neg hearly, State.look_due _ hdown hdue]
      cases spare with
      | none => exact ⟨{ pl with nextTry := n.now + portLinkRetry }, rfl, ⟨rfl, rfl, rfl⟩, rfl⟩
      | some li =>
          exact ⟨{ pl with
            backoff := keeperTimes.longer pl.backoff
            nextTry := n.now + keeperTimes.longer pl.backoff }, rfl, ⟨rfl, rfl, rfl⟩, rfl⟩

/-! ## Scans -/

/-- The node as entry `i`'s turns of one event find it. -/
def keeperTurn (n : Node) (i : ℕ) : Event → List Node
  | .timer =>
    if n.portLinks.isEmpty ∨ n.now - n.portLinkScanned < 1 ∨ n.portLinks.length ≤ i then []
    else [(List.range i).foldl keepPortLink { n with portLinkScanned := n.now }]
  | _ => []

/-- The node as entry `i`'s turns of a run find it, in order. -/
def keeperTurns (i : ℕ) : Node → List Event → List Node
  | _, [] => []
  | n, e :: es => n.keeperTurn i e ++ keeperTurns i (n.event e) es

/-- What a turn sees of a declaration, and when. -/
def lookAt (pl : PortLink) (t : Node) : ℤ × Sight := (t.now, t.sight pl.axcall pl.port)

/-- A turn leaves the other entries alone. -/
theorem keepPortLink_other (n : Node) {i j : ℕ} (h : j ≠ i) :
    (n.keepPortLink j).portLinks[i]? = n.portLinks[i]? := by
  cases hpl : n.portLinks[j]? with
  | none => rw [show n.keepPortLink j = n from by unfold keepPortLink; rw [hpl]]
  | some pl =>
      by_cases husable : pl.usable = true
      · obtain ⟨pl', hset, -⟩ := keepPortLink_portLinks hpl husable
        rw [hset, List.getElem?_set_ne h]
      · rw [show n.keepPortLink j = n from by
          unfold keepPortLink; rw [hpl]; exact if_pos (by simpa using husable)]

/-- The turns of other entries. -/
theorem foldl_keepPortLink (is : List ℕ) (n : Node) (h : i ∉ is) :
    (is.foldl keepPortLink n).portLinks[i]? = n.portLinks[i]? ∧
      (is.foldl keepPortLink n).now = n.now := by
  induction is generalizing n with
  | nil => exact ⟨rfl, rfl⟩
  | cons j is ih =>
      obtain ⟨hj, his⟩ := not_or.mp (List.mem_cons.not.mp h)
      obtain ⟨hlinks, hnow⟩ := ih (n.keepPortLink j) his
      exact ⟨hlinks.trans (n.keepPortLink_other (Ne.symm hj)),
        hnow.trans (n.graced_keepPortLink j).now⟩

/-- The declared links after a reaper's pass. -/
theorem reapSessions_portLinks (n : Node) : n.reapSessions.portLinks = n.portLinks := by
  unfold reapSessions
  generalize slots = is
  induction is generalizing n with
  | nil => rfl
  | cons s is ih => exact (ih _).trans (n.untouched_reapTurn s).portLinks

theorem flexNetTimer_portLinks (n : Node) :
    n.flexNetTimer.portLinks = n.flexPortLinksKeep.portLinks := by
  have hserve : ∀ m : Node, (slots.foldl serveSession m).portLinks = m.portLinks := fun m =>
    (Untouched.foldl untouched_serveSession slots m).portLinks
  have hpoll := (n.flexPortLinksKeep.untouched_flexLinkOptsPoll).portLinks
  unfold flexNetTimer
  dsimp only
  rw [hserve, (untouched_proactiveInit _).portLinks, reapSessions_portLinks, hpoll]

/-- The turns a scan gives entry `i`. -/
theorem flexPortLinksKeep_memory (hpl : n.portLinks[i]? = some pl) (husable : pl.usable = true) :
    ∃ pl', n.flexPortLinksKeep.portLinks[i]? = some pl' ∧ pl.SameDeclared pl' ∧
      pl'.memory = pl.memory.after keeperTimes ((n.keeperTurn i .timer).map (lookAt pl)) ∧
      ∀ t ∈ n.keeperTurn i .timer, t.portLinks[i]? = some pl ∧ t.now = n.now := by
  have hlt : i < n.portLinks.length := (List.getElem?_eq_some_iff.mp hpl).1
  unfold flexPortLinksKeep keeperTurn
  by_cases hempty : n.portLinks.isEmpty
  · rw [if_pos hempty, if_pos (.inl hempty)]
    exact ⟨pl, hpl, ⟨rfl, rfl, rfl⟩, rfl, by simp⟩
  by_cases hscanned : n.now - n.portLinkScanned < 1
  · rw [if_neg hempty, if_pos hscanned, if_pos (.inr (.inl hscanned))]
    exact ⟨pl, hpl, ⟨rfl, rfl, rfl⟩, rfl, by simp⟩
  rw [if_neg hempty, if_neg hscanned, if_neg (by simp [hempty, hscanned]; omega)]
  generalize hm : ({ n with portLinkScanned := n.now } : Node) = m
  have hmi : m.portLinks[i]? = some pl := by rw [← hm]; exact hpl
  have hmnow : m.now = n.now := by rw [← hm]
  -- the turns before, the turn of the entry, the turns after
  obtain ⟨rest, hrest⟩ : ∃ rest, List.range n.portLinks.length =
      List.range i ++ i :: rest ∧ i ∉ rest := by
    refine ⟨(List.range (n.portLinks.length - i - 1)).map (i + 1 + ·), ?_, by simp; omega⟩
    have hlen : n.portLinks.length = i + (1 + (n.portLinks.length - i - 1)) := by omega
    conv_lhs => rw [hlen, List.range_add, Nat.add_comm 1, List.range_succ_eq_map]
    simp [Function.comp_def, Nat.add_assoc, Nat.add_comm 1]
  obtain ⟨hbefore, hnow⟩ := foldl_keepPortLink (i := i) (List.range i) m (by simp)
  set t := (List.range i).foldl keepPortLink m with ht
  have hti : t.portLinks[i]? = some pl := hbefore.trans hmi
  obtain ⟨pl', hset, hsame, hmemory⟩ := keepPortLink_portLinks hti husable
  have hafter := (foldl_keepPortLink rest (t.keepPortLink i) hrest.2).1
  have hlt' : i < t.portLinks.length := (List.getElem?_eq_some_iff.mp hti).1
  refine ⟨pl', ?_, hsame, hmemory, ?_⟩
  · rw [hrest.1, List.foldl_append, List.foldl_cons, ← ht, hafter, hset,
      List.getElem?_set_self hlt']
  · intro u hu
    rw [List.mem_singleton.mp hu]
    exact ⟨hti, hnow.trans hmnow⟩

/-! ## Runs -/

theorem event_now_le (n : Node) (e : Event) : n.now ≤ (n.event e).now := by
  by_cases hclock : ∃ t k, e = .clock t k
  · obtain ⟨t, k, rfl⟩ := hclock
    exact le_add_of_nonneg_right (Int.natCast_nonneg t)
  by_cases htimer : e = .timer
  · subst htimer
    have hserve : ∀ m : Node, (slots.foldl serveSession m).now = m.now := fun m =>
      (Untouched.foldl untouched_serveSession slots m).now
    have hreap : ∀ m : Node, m.reapSessions.now = m.now := fun m => by
      unfold reapSessions
      generalize slots = is
      induction is generalizing m with
      | nil => rfl
      | cons s is ih => exact (ih _).trans (m.untouched_reapTurn s).now
    change _ ≤ n.flexNetTimer.now
    unfold flexNetTimer
    dsimp only
    rw [hserve, (untouched_proactiveInit _).now, hreap, (untouched_flexLinkOptsPoll _).now,
      n.graced_flexPortLinksKeep.now]
  · rw [(n.event_untouched e (fun t k h => hclock ⟨t, k, h⟩) htimer).now]

/-- What an event's turns do to what is remembered of an entry. -/
theorem event_memory (e : Event) (hpl : n.portLinks[i]? = some pl) (husable : pl.usable = true) :
    ∃ pl', (n.event e).portLinks[i]? = some pl' ∧ pl.SameDeclared pl' ∧
      pl'.memory = pl.memory.after keeperTimes ((n.keeperTurn i e).map (lookAt pl)) ∧
      ∀ t ∈ n.keeperTurn i e, t.portLinks[i]? = some pl ∧ t.now = n.now := by
  by_cases htimer : e = .timer
  · subst htimer
    obtain ⟨pl', hpl', hrest⟩ := flexPortLinksKeep_memory hpl husable
    exact ⟨pl', by rw [← hpl']; exact congrArg (·[i]?) n.flexNetTimer_portLinks, hrest⟩
  have hnone : n.keeperTurn i e = [] := by
    unfold keeperTurn
    split
    · exact absurd rfl htimer
    · rfl
  have hlinks : (n.event e).portLinks = n.portLinks := by
    by_cases hclock : ∃ t k, e = .clock t k
    · obtain ⟨t, k, rfl⟩ := hclock
      rfl
    · exact (n.event_untouched e (fun t k h => hclock ⟨t, k, h⟩) htimer).portLinks
  rw [hnone, hlinks]
  exact ⟨pl, hpl, ⟨rfl, rfl, rfl⟩, rfl, by simp⟩

theorem keeperTurn_cases (n : Node) (i : ℕ) (e : Event) :
    n.keeperTurn i e = [] ∨ ∃ t, n.keeperTurn i e = [t] := by
  unfold keeperTurn
  split
  · split_ifs
    · exact .inl rfl
    · exact .inr ⟨_, rfl⟩
  · exact .inl rfl

theorem lookAt_same {pl' : PortLink} (h : pl.SameDeclared pl') : lookAt pl' = lookAt pl := by
  funext t
  rw [lookAt, lookAt, h.1, h.2.1]

/-- What is remembered of an entry at its turns. -/
theorem keeperTurns_memory (events : List Event) {pre post : List Node} {t : Node}
    (hpl : n.portLinks[i]? = some pl) (husable : pl.usable = true)
    (hturns : n.keeperTurns i events = pre ++ t :: post) :
    n.now ≤ t.now ∧ ∃ pl', t.portLinks[i]? = some pl' ∧ pl.SameDeclared pl' ∧
      pl'.memory = pl.memory.after keeperTimes (pre.map (lookAt pl)) := by
  induction events generalizing n pl pre with
  | nil => cases pre <;> cases hturns
  | cons e events ih =>
      obtain ⟨pl', hpl', hsame, hmemory, hat⟩ := event_memory e hpl husable
      have hle := n.event_now_le e
      rw [keeperTurns] at hturns
      rcases n.keeperTurn_cases i e with hnone | ⟨u, hone⟩
      · rw [hnone, List.nil_append] at hturns
        rw [hnone] at hmemory
        obtain ⟨hnow, pl'', hpl'', hsame', hmemory'⟩ := ih hpl' (hsame.2.2.trans husable) hturns
        refine ⟨hle.trans hnow, pl'', hpl'', hsame.trans hsame', ?_⟩
        rw [hmemory', hmemory, lookAt_same hsame]
        rfl
      · rw [hone, List.singleton_append] at hturns
        rw [hone] at hmemory hat
        obtain ⟨hu, hunow⟩ := hat u (List.mem_singleton_self u)
        cases pre with
        | nil =>
            obtain ⟨rfl, -⟩ := List.cons.inj hturns
            exact ⟨hunow.ge, pl, hu, ⟨rfl, rfl, rfl⟩, rfl⟩
        | cons v pre =>
            obtain ⟨rfl, hrest⟩ := List.cons.inj hturns
            obtain ⟨hnow, pl'', hpl'', hsame', hmemory'⟩ :=
              ih hpl' (hsame.2.2.trans husable) hrest
            refine ⟨hle.trans hnow, pl'', hpl'', hsame.trans hsame', ?_⟩
            rw [hmemory', hmemory, lookAt_same hsame]
            rfl

/-- The turns of a run are in the order of the clock. -/
theorem keeperTurns_sorted (events : List Event) (hpl : n.portLinks[i]? = some pl)
    (husable : pl.usable = true) :
    (n.keeperTurns i events).Pairwise fun a b => a.now ≤ b.now := by
  induction events generalizing n pl with
  | nil => exact .nil
  | cons e events ih =>
      obtain ⟨pl', hpl', hsame, -, hat⟩ := event_memory e hpl husable
      have husable' := hsame.2.2.trans husable
      have hrest := ih hpl' husable'
      rw [keeperTurns]
      rcases n.keeperTurn_cases i e with hnone | ⟨u, hone⟩
      · rwa [hnone]
      rw [hone, List.singleton_append, List.pairwise_cons]
      refine ⟨fun t ht => ?_, hrest⟩
      obtain ⟨pre, post, hsplit⟩ := List.append_of_mem ht
      have hlater := (keeperTurns_memory events hpl' husable' hsplit).1
      exact ((hat u (by simp [hone])).2.le.trans (n.event_now_le e)).trans hlater

/-- Whether a turn opens is whether the machine tries. -/
theorem opensNow_eq_tries (events : List Event) {pre post : List Node} {t : Node}
    (hpl : n.portLinks[i]? = some pl) (husable : pl.usable = true)
    (hturns : n.keeperTurns i events = pre ++ t :: post) :
    (pl.memory.after keeperTimes (pre.map (lookAt pl))).tries (lookAt pl t).1 (lookAt pl t).2 =
      t.opensNow i := by
  obtain ⟨-, pl', hpl', hsame, hmemory⟩ := keeperTurns_memory events hpl husable hturns
  unfold opensNow
  rw [hpl', ← hmemory, ← lookAt_same hsame]
  simp [lookAt, hsame.2.2, husable]

/-- What an open does: a spare row becomes a link to the station that is being set up. -/
theorem keepPortLink_opens (h : n.opensNow i = true) :
    ∃ li pl, n.portLinks[i]? = some pl ∧ (n.links li).linkCall.isEmpty = true ∧
      (n.keepPortLink i).links li = { n.links li with
        port := some pl.port, l2State := 2, linkCall := pl.axcall, ourCall := n.cfg.myCall } := by
  obtain ⟨li, pl, hpl, husable, hdown, hdue, hfind⟩ := opensNow_iff.mp h
  refine ⟨li, pl, hpl, ?_, ?_⟩
  · unfold findLink at hfind
    split at hfind
    · cases hfind
    · exact List.find?_some (p := fun li => (n.links li).linkCall.isEmpty) (Sum.inr.inj hfind)
  · unfold keepPortLink
    rw [hpl]
    dsimp only
    rw [if_neg (by simp [husable]), hfind]
    dsimp only
    rw [if_neg (by simp [hdown]), if_neg (not_lt.mpr hdue)]
    exact Function.update_self ..

/-- An open finds no link. -/
theorem not_hasLink_of_opensNow (hpl : n.portLinks[i]? = some pl) (h : n.opensNow i = true) :
    ¬ n.HasLink pl.axcall pl.port := by
  unfold opensNow at h
  rw [hpl] at h
  dsimp only at h
  rw [Bool.and_eq_true, State.tries_iff] at h
  exact sight_gone_iff.mp ⟨true, h.2.1⟩

section Run

variable {before turns between waiting later : List Node} {a b u l : Node}

/-- Opens in a row, with no sight of the link up, are spaced by what they have earned. -/
theorem opens_spaced (hpl : n.portLinks[i]? = some pl) (husable : pl.usable = true)
    (hvalid : pl.memory.Valid keeperTimes)
    (hturns : n.keeperTurns i events = before ++ (turns ++ a :: between ++ b :: later))
    (hup : ∀ t ∈ turns ++ a :: between, t.sight pl.axcall pl.port ≠ .up)
    (ha : a.opensNow i = true) (hb : b.opensNow i = true) :
    a.now + keeperTimes.floor ((turns ++ [a]).countP fun t => t.opensNow i) ≤ b.now := by
  set s := pl.memory.after keeperTimes (before.map (lookAt pl)) with hs
  -- the flag of a turn that comes after `before`
  have hflag : ∀ pre t post, turns ++ a :: between ++ b :: later = pre ++ t :: post →
      (s.after keeperTimes (pre.map (lookAt pl))).tries (lookAt pl t).1 (lookAt pl t).2 =
        t.opensNow i := by
    intro pre t post hsplit
    have hturns' : n.keeperTurns i events = (before ++ pre) ++ t :: post := by
      rw [hturns, hsplit, List.append_assoc]
    rw [hs, ← State.after_append, ← List.map_append]
    exact opensNow_eq_tries events hpl husable hturns'
  have hcount : s.triesIn keeperTimes ((turns ++ [a]).map (lookAt pl)) =
      (turns ++ [a]).countP fun t => t.opensNow i :=
    s.triesIn_eq_countP (lookAt pl) _ _ fun pre t post hsplit =>
      hflag pre t (post ++ between ++ b :: later) (by
        rw [← List.singleton_append, ← List.append_assoc turns, hsplit]
        simp)
  have hfirst := hflag turns a (between ++ b :: later) (by simp)
  have hnext := hflag (turns ++ a :: between) b later rfl
  have hsame : turns.map (lookAt pl) ++ lookAt pl a :: between.map (lookAt pl) =
      (turns ++ a :: between).map (lookAt pl) := by
    rw [List.map_append, List.map_cons]
  have hups : ∀ look ∈ turns.map (lookAt pl) ++ lookAt pl a :: between.map (lookAt pl),
      look.2 ≠ .up := by
    intro look hlook
    rw [hsame] at hlook
    obtain ⟨t, ht, rfl⟩ := List.mem_map.mp hlook
    exact hup t ht
  rw [← hcount, List.map_append]
  refine State.spaced (b := lookAt pl b) (hvalid.after _) hups (hfirst.trans ha) ?_
  rw [hsame]
  exact hnext.trans hb

/-- A link that was seen up and is gone is left alone for a while. -/
theorem loss_pause (hpl : n.portLinks[i]? = some pl) (husable : pl.usable = true)
    (hvalid : pl.memory.Valid keeperTimes)
    (hturns : n.keeperTurns i events = before ++ u :: between ++ l :: later)
    (hup : u.sight pl.axcall pl.port = .up)
    (hthere : ∀ t ∈ between, t.HasLink pl.axcall pl.port) (hgone : ¬ l.HasLink pl.axcall pl.port) :
    l.opensNow i = false ∧ ((l.keepPortLink i).portLinks[i]?).map PortLink.backoff = some 0 ∧
      ∀ waiting b rest, later = waiting ++ b :: rest → b.opensNow i = true →
        l.now + portLinkReopen ≤ b.now := by
  set s := pl.memory.after keeperTimes ((before ++ u :: between).map (lookAt pl)) with hs
  have hvalids : s.Valid keeperTimes := hvalid.after _
  obtain ⟨means, hmeans⟩ := sight_gone_iff.mpr hgone
  have hwas : s.wasUp = true := by
    rw [hs, List.map_append, List.map_cons, State.after_append]
    refine State.up_after (s := State.look keeperTimes _ (lookAt pl u).1 (lookAt pl u).2) ?_ ?_
    · rw [show (lookAt pl u).2 = .up from hup]
      rfl
    · intro look hlook means hgone
      obtain ⟨t, ht, rfl⟩ := List.mem_map.mp hlook
      exact sight_gone_iff.mp ⟨means, hgone⟩ (hthere t ht)
  obtain ⟨hwait, hnever, hpause⟩ := State.pause (a := lookAt pl l) hvalids hwas hmeans
  obtain ⟨-, pl', hpl', hsame, hmemory⟩ := keeperTurns_memory events hpl husable hturns
  refine ⟨(opensNow_eq_tries events hpl husable hturns).symm.trans hnever, ?_, ?_⟩
  · obtain ⟨pl'', hset, -, hmemory'⟩ := keepPortLink_portLinks hpl' (hsame.2.2.trans husable)
    have hlt := (List.getElem?_eq_some_iff.mp hpl').1
    rw [hset, List.getElem?_set_self hlt, Option.map_some]
    have hlook : pl''.memory = s.look keeperTimes (lookAt pl l).1 (lookAt pl l).2 := by
      rw [hmemory', hmemory, hsame.1, hsame.2.1]
      rfl
    exact congrArg some ((congrArg State.wait hlook).trans hwait)
  · intro waiting b rest hlater hb
    subst hlater
    have hsplit :
        n.keeperTurns i events = (before ++ u :: between ++ l :: waiting) ++ b :: rest := by
      rw [hturns]
      simp
    have hsorted := keeperTurns_sorted events hpl husable
    rw [hturns] at hsorted
    have hlast := hpause (waiting.map (lookAt pl)) (lookAt pl b) ?_ ?_
    · exact hlast
    · intro look hlook
      obtain ⟨t, ht, rfl⟩ := List.mem_map.mp hlook
      exact (List.pairwise_cons.mp (List.pairwise_append.mp hsorted).2.1).1 t (by simp [ht])
    · have htries := opensNow_eq_tries events hpl husable hsplit
      rw [List.map_append, State.after_append] at htries
      exact htries.trans hb

end Run

/-- The keeper backs off and recovers.  An open finds no link and sets up a spare row for the
station.  Consecutive opens are opens between which no turn sees the link up. -/
theorem portLink_backs_off (n : Node) (i : ℕ) (pl : PortLink) (hpl : n.portLinks[i]? = some pl)
    (husable : pl.usable = true) (hfresh : pl.Fresh) (events : List Event) :
    (∀ t ∈ n.keeperTurns i events, t.opensNow i = true → ¬ t.HasLink pl.axcall pl.port ∧
      ∃ li, (t.links li).linkCall.isEmpty = true ∧ (t.keepPortLink i).links li = { t.links li with
        port := some pl.port, l2State := 2, linkCall := pl.axcall, ourCall := t.cfg.myCall }) ∧
    (∀ before turns a between b later,
      n.keeperTurns i events = before ++ (turns ++ a :: between ++ b :: later) →
      (∀ t ∈ turns ++ a :: between, t.sight pl.axcall pl.port ≠ .up) →
      a.opensNow i = true → b.opensNow i = true →
      a.now + min (portLinkRetry * 2 ^ ((turns ++ [a]).countP (fun t => t.opensNow i) - 1))
        portLinkRetryMax ≤ b.now) ∧
    ∀ before u between l later,
      n.keeperTurns i events = before ++ u :: between ++ l :: later →
      u.sight pl.axcall pl.port = .up → (∀ t ∈ between, t.HasLink pl.axcall pl.port) →
      ¬ l.HasLink pl.axcall pl.port →
      l.opensNow i = false ∧ ((l.keepPortLink i).portLinks[i]?).map PortLink.backoff = some 0 ∧
        ∀ waiting b rest, later = waiting ++ b :: rest → b.opensNow i = true →
          l.now + portLinkReopen ≤ b.now := by
  refine ⟨fun t ht hopens => ?_, ?_, ?_⟩
  · obtain ⟨pre, post, hsplit⟩ := List.append_of_mem ht
    obtain ⟨-, pl', hpl', hsame, -⟩ := keeperTurns_memory events hpl husable hsplit
    rw [← hsame.1, ← hsame.2.1]
    obtain ⟨li, pl'', hpl'', hspare, hsetUp⟩ := keepPortLink_opens hopens
    obtain rfl := Option.some.inj (hpl'.symm.trans hpl'')
    exact ⟨not_hasLink_of_opensNow hpl' hopens, li, hspare, hsetUp⟩
  · intro before turns a between b later hturns hup ha hb
    have hspaced := opens_spaced hpl husable hfresh.valid hturns hup ha hb
    have hone : (turns ++ [a]).countP (fun t => t.opensNow i) ≠ 0 := by
      rw [List.countP_append, List.countP_singleton, if_pos ha]
      omega
    rwa [Times.floor, if_neg hone] at hspaced
  · intro before u between l later hturns hup hthere hgone
    exact loss_pause hpl husable hfresh.valid hturns hup hthere hgone

end Node

namespace Bench

/-- `A`, declared on port 1. -/
def declaredA : PortLink := ⟨1, addr 0x41, {}, true, false, 0, 5⟩

/-- The node with `A` declared, and no link up. -/
def declared : Node := Node.boot (config true) [] [declaredA] (fun _ => {}) 0

/-- A SABM run that is not answered, a second one that is, and the loss of that link. -/
def retries : List Event :=
  [.clock 5 0, .timer, .row 0 {}, .clock 30 0, .timer, .clock 30 0, .timer,
    .row 0 (row (addr 0x41)), .clock 10 0, .timer, .row 0 {}, .clock 10 0, .timer,
    .clock 10 0, .timer]

set_option maxRecDepth 10000 in
-- opens at 5, 65 and 95 s: a minute after the first, ten seconds after the loss seen at 85 s
example :
    (declared.keeperTurns 0 retries).map (fun t => (t.now, t.opensNow 0)) =
      [(5, true), (35, false), (65, true), (75, false), (85, false), (95, true)] := by
  decide +kernel

/-- No open of that run finds a link. -/
theorem portLink_backs_off_retries :
    ¬ ∃ t ∈ declared.keeperTurns 0 retries, t.opensNow 0 = true ∧
      t.HasLink declaredA.axcall declaredA.port := by
  rintro ⟨t, ht, hopens, hlink⟩
  have hbacks := Node.portLink_backs_off declared 0 declaredA rfl rfl ⟨rfl, rfl⟩ retries
  exact (hbacks.1 t ht hopens).1 hlink

end Bench

end FlexNet
