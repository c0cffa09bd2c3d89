import FlexNet.Network.Told
import FlexNet.Routing.Attribution
import FlexNet.Routing.Offers

/-!
# What a session has learned

`learned_last`: as long as a session is not taken down, its learned table has for a destination the
cost of the last record for it that the session heard, in whatever order the node takes its other
events, ticks of the timer and frames of other sessions among them.  Records wait for nothing but
room in the two tables, and the neighbour's own entry is the only cost a table has that no record
said.
-/

namespace FlexNet

open Runs

/-! ## Records -/

/-- A refresh marker says nothing about the cost. -/
def Record.isMarker (r : Record) : Bool := r.rtt == 0 && !r.isInfinity

/-- The cost the last record for a destination says. -/
def lastSaid (rs : List Record) (k : Key) : Option ℤ :=
  (rs.reverse.find? fun r => r.key = k).map Record.rtt

/-- The cost a session hears last for a destination: refresh markers are none. -/
def lastHeard (rs : List Record) (k : Key) : Option ℤ :=
  lastSaid (rs.filter fun r => !r.isMarker) k

@[simp] theorem lastSaid_nil (k : Key) : lastSaid [] k = none := rfl

theorem lastSaid_append (rs rs' : List Record) (k : Key) :
    lastSaid (rs ++ rs') k = (lastSaid rs' k).or (lastSaid rs k) := by
  simp [lastSaid, List.find?_append, Option.map_or]

theorem lastSaid_singleton (r : Record) (k : Key) :
    lastSaid [r] k = if r.key = k then some r.rtt else none := by
  unfold lastSaid
  split_ifs with hk <;> simp [hk]

/-! ## Room -/

/-- The table has the destination, or room for it. -/
def LearnedState.Room (st : LearnedState) (k : Key) : Prop :=
  k ∈ st.routes.map LearnedRoute.key ∨ st.routes.length < maxLearned

/-- Some row has the destination, or there is room for one. -/
def DestRoom (dests : List DestEntry) (k : Key) : Prop :=
  (flexFindDest dests k).isSome = true ∨ dests.length < maxDests

instance (st : LearnedState) (k : Key) : Decidable (st.Room k) :=
  inferInstanceAs (Decidable (_ ∨ _))

instance (dests : List DestEntry) (k : Key) : Decidable (DestRoom dests k) :=
  inferInstanceAs (Decidable (_ ∨ _))

namespace LearnedState

variable {st : LearnedState} {r : Record} {now : ℤ} {k : Key}

theorem find_isSome : (st.find k).isSome = true ↔ k ∈ st.routes.map LearnedRoute.key := by
  simp [find, KeyedTable.lookup, List.find?_isSome]

/-- A table that has room after a record had it before. -/
theorem Room.of_heard (h : (st.heard r now).Room k) : st.Room k := by
  by_cases hfull : st.routes.length < maxLearned
  · exact .inr hfull
  have hkeys : (st.heard r now).routes.map LearnedRoute.key = st.routes.map LearnedRoute.key := by
    unfold heard
    by_cases hempty : r.key.call.isEmpty
    · rw [if_pos hempty]
    rw [if_neg hempty]
    cases hfind : st.find r.key with
    | none =>
        dsimp only
        rw [if_pos (not_lt.mp hfull)]
    | some lr =>
        obtain hkey : lr.key = r.key := KeyedTable.lookup_key hfind
        rw [← hkey] at hfind
        exact KeyedTable.map_store_of_lookup hfind rfl
  have hlength := congrArg List.length hkeys
  rw [List.length_map, List.length_map] at hlength
  rcases h with h | h
  · exact .inl (hkeys ▸ h)
  · exact .inr (hlength ▸ h)

theorem cost_heard_self (hcall : r.key.call.isEmpty = false) (h : st.Room r.key) :
    (st.heard r now).cost r.key = some r.rtt := by
  obtain ⟨lr, hfind, hrtt⟩ := @find_heard_self st r now ⟨hcall, h.imp_left find_isSome.mpr⟩
  rw [cost, hfind, Option.map_some, hrtt]

theorem cost_heard_of_ne (hk : k ≠ r.key) : (st.heard r now).cost k = st.cost k := by
  unfold cost
  rw [find_heard_of_not fun h => hk h.1]

end LearnedState

theorem DestRoom.of_keys {dests dests' : List DestEntry} {added : List Key} {k : Key}
    (hkeys : dests'.map DestEntry.key = dests.map DestEntry.key ++ added)
    (hadded : added = [] ∨ dests.length < maxDests) (h : DestRoom dests' k) : DestRoom dests k := by
  rcases hadded with rfl | hroom
  · rw [List.append_nil] at hkeys
    have hlength := congrArg List.length hkeys
    rw [List.length_map, List.length_map] at hlength
    have hfind : ∀ rows : List DestEntry, (flexFindDest rows k).isSome =
        (rows.map DestEntry.key).any fun key =>
          strcasecmp key.call.bytes k.call.bytes && key.lo == k.lo && key.hi == k.hi := by
      intro rows
      rw [flexFindDest, List.findIdx?_isSome, List.any_map]
      rfl
    unfold DestRoom
    rw [hfind, ← hkeys, ← hfind, ← hlength]
    exact h
  · exact .inr hroom

namespace Node

/-! ## One record -/

variable {n m : Node} {s : Slot} {r : Record} {k : Key}

/-- Both tables have the destination, or room for it. -/
structure Room (n : Node) (s : Slot) (k : Key) : Prop where
  dests : DestRoom n.dests k
  learned : (n.learned s).Room k

theorem key_flexDestReelect (e : Env) (d : DestEntry) : (e.flexDestReelect d).key = d.key := by
  unfold Env.flexDestReelect
  extract_lets best
  split <;> rfl

theorem map_key_modify {dests : List DestEntry} {i : ℕ} {f : DestEntry → DestEntry}
    (hf : ∀ d, (f d).key = d.key) :
    (dests.modify i f).map DestEntry.key = dests.map DestEntry.key := by
  refine List.ext_getElem? fun j => ?_
  rw [List.getElem?_map, List.getElem?_map, List.getElem?_modify]
  split_ifs
  · cases dests[j]? with
    | none => rfl
    | some d => exact congrArg some (hf d)
  · cases dests[j]? <;> rfl

/-- A merge keeps the rows, and may add one where there is room. -/
theorem flexDtableMerge_keys (n : Node) (r : Record) (s : Slot) :
    ∃ added, (n.flexDtableMerge r s).dests.map DestEntry.key =
      n.dests.map DestEntry.key ++ added ∧ (added = [] ∨ n.dests.length < maxDests) := by
  have hrewrite : ∀ eff d, (n.rewriteDest s r eff d).key = d.key := fun _ _ => rfl
  unfold flexDtableMerge
  by_cases hlocal : n.cfg.localCovers r.key
  · rw [if_pos hlocal]
    exact ⟨[], by simp, .inl rfl⟩
  rw [if_neg hlocal]
  by_cases hmarker : r.rtt = 0 ∧ r.isInfinity = false
  · rw [if_pos hmarker]
    refine ⟨[], ?_, .inl rfl⟩
    rw [List.append_nil]
    split
    · rfl
    · exact map_key_modify fun _ => rfl
  rw [if_neg hmarker]
  extract_lets eff fresh n₀
  split
  · extract_lets d isCurrent isBetter n₁ n₂
    have h₁ : n₁.dests.map DestEntry.key = n.dests.map DestEntry.key := by
      simp only [n₁]
      split_ifs
      · exact map_key_modify (hrewrite eff)
      · rfl
    have h₂ : n₂.dests = n₁.dests := flexLearnedAdd_dests n₁ s r
    refine ⟨[], ?_, .inl rfl⟩
    rw [List.append_nil, ← h₁]
    split_ifs
    · rfl
    · rw [← h₂]
      exact map_key_modify fun d => key_flexDestReelect _ d
    · rw [h₂]
  · by_cases hroom : n.dests.length < maxDests
    · rw [if_pos hroom]
      refine ⟨[r.key], ?_, .inr hroom⟩
      split_ifs
      · rw [flexLearnedAdd_dests]
        simp [n₀, fresh, rewriteDest]
      · simp [n₀, fresh, rewriteDest]
    · rw [if_neg hroom]
      exact ⟨[], by simp, .inl rfl⟩

/-- What a merge leaves room for had room before. -/
theorem Room.of_merge (h : (n.flexDtableMerge r s).Room s k) : n.Room s k := by
  obtain ⟨added, hkeys, hadded⟩ := n.flexDtableMerge_keys r s
  refine ⟨h.dests.of_keys hkeys hadded, ?_⟩
  have hlearned := h.learned
  rcases n.flexDtableMerge_learned r s with heq | heq
  · rwa [heq] at hlearned
  · rw [heq, Function.update_self] at hlearned
    exact hlearned.of_heard

/-- A record that is no marker is learned where there is room for its row. -/
theorem flexDtableMerge_heard (htransit : n.cfg.transit = true)
    (hforeign : n.cfg.localCovers r.key = false) (hcost : r.isMarker = false)
    (hroom : DestRoom n.dests r.key) :
    (n.flexDtableMerge r s).learned s = (n.learned s).heard r n.now := by
  have hadd : ∀ m : Node, m.toEnv = n.toEnv →
      (m.flexLearnedAdd s r).learned s = (n.learned s).heard r n.now := fun m hm => by
    rw [flexLearnedAdd_toEnv, hm]
    exact Function.update_self ..
  have hmarker : ¬ (r.rtt = 0 ∧ r.isInfinity = false) := by
    simpa [Record.isMarker] using hcost
  unfold flexDtableMerge
  rw [if_neg (by simp [hforeign]), if_neg hmarker]
  extract_lets eff fresh n₀
  split
  · extract_lets d isCurrent isBetter n₁ n₂
    have h₁ : n₁.toEnv = n.toEnv := by
      simp only [n₁]
      split_ifs <;> rfl
    have h₂ : n₂.learned s = (n.learned s).heard r n.now := hadd n₁ h₁
    rw [if_neg (by simp [h₁, htransit])]
    split_ifs <;> exact h₂
  · rename_i hnone
    rw [DestRoom, hnone] at hroom
    rw [if_pos (hroom.resolve_left (by simp)), if_pos htransit]
    exact hadd n₀ rfl

theorem flexDtableMerge_marker (hmarker : r.isMarker = true) :
    (n.flexDtableMerge r s).learned = n.learned := by
  have hzero : r.rtt = 0 ∧ r.isInfinity = false := by simpa [Record.isMarker] using hmarker
  unfold flexDtableMerge
  split_ifs
  · rfl
  · split <;> rfl

/-- What a session has learned once it has heard a record. -/
theorem cost_merge (htransit : n.cfg.transit = true) (hforeign : n.cfg.localCovers k = false)
    (hcall : r.key.call.isEmpty = false) (hroom : (n.flexDtableMerge r s).Room s k) :
    ((n.flexDtableMerge r s).learned s).cost k =
      (lastSaid ([r].filter fun r => !r.isMarker) k).or ((n.learned s).cost k) := by
  cases hmarker : r.isMarker with
  | true =>
      rw [flexDtableMerge_marker hmarker]
      simp [hmarker]
  | false =>
      have hfilter : [r].filter (fun r => !r.isMarker) = [r] := by simp [hmarker]
      rw [hfilter, lastSaid_singleton]
      by_cases hk : r.key = k
      · subst hk
        have hbefore : n.Room s r.key := hroom.of_merge
        rw [flexDtableMerge_heard htransit hforeign hmarker hbefore.dests, if_pos rfl]
        exact LearnedState.cost_heard_self hcall hbefore.learned
      · rw [if_neg hk, Option.none_or]
        rcases n.flexDtableMerge_learned r s with heq | heq <;> rw [heq]
        rw [Function.update_self]
        exact LearnedState.cost_heard_of_ne (Ne.symm hk)

/-- What a session has learned once it has heard the records of a frame. -/
theorem cost_merges (rs : List Record) (n : Node) (htransit : n.cfg.transit = true)
    (hforeign : n.cfg.localCovers k = false) (hcall : ∀ r ∈ rs, r.key.call.isEmpty = false)
    (hroom : (rs.foldl (fun n r => n.flexDtableMerge r s) n).Room s k) :
    ((rs.foldl (fun n r => n.flexDtableMerge r s) n).learned s).cost k =
      (lastSaid (rs.filter fun r => !r.isMarker) k).or ((n.learned s).cost k) := by
  have hcfg : ∀ (n : Node) (r : Record), (n.flexDtableMerge r s).cfg = n.cfg := fun n r =>
    (flexDtableMerge_tables n r s).2.1
  have hback : ∀ (rs : List Record) (n : Node),
      (rs.foldl (fun n r => n.flexDtableMerge r s) n).Room s k → n.Room s k := by
    intro rs
    induction rs with
    | nil => exact fun _ h => h
    | cons r rs ih => exact fun n h => (ih _ h).of_merge
  induction rs generalizing n with
  | nil => rfl
  | cons r rs ih =>
      obtain ⟨hr, hrs⟩ := List.forall_mem_cons.mp hcall
      have hone := cost_merge (n := n) htransit hforeign hr (hback rs _ hroom)
      have hrest := ih (n.flexDtableMerge r s) (by rwa [hcfg]) (by rwa [hcfg]) hrs hroom
      rw [List.foldl_cons, hrest, hone, ← Option.or_assoc, ← lastSaid_append, ← List.filter_append,
        List.singleton_append]

end Node

/-! ## What else an event does -/

/-- The callsign a neighbour of this address is entered under. -/
def AxCall.entered (a : AxCall) : Callsign :=
  .ofCStr (splitFirstDash ((flexNormalizeCallsign a).take 9)).1

namespace Node

variable {c : Scope} {n m : Node} {s : Slot} {k : Key} {e : Event}

/-- No neighbour of the node is entered under the callsign of the destination. -/
structure Far (n : Node) (k : Key) : Prop where
  rows : ∀ l, (n.links l).linkCall.entered ≠ k.call
  declared : ∀ a ∈ n.portLinks.map PortLink.axcall, a.entered ≠ k.call

/-- A row BPQ writes is for no neighbour of the destination's callsign. -/
def KeepsFar (k : Key) (e : Event) : Prop :=
  ∀ l x, e = .row l x → x.linkCall.entered ≠ k.call

theorem Far.write (h : n.Far k) (he : KeepsFar k c.event) (hwrite : n.Write c m) : m.Far k := by
  cases hwrite with
  | other hsame =>
      refine ⟨fun l => ?_, hsame.declared ▸ h.declared⟩
      rw [hsame.linkCall]
      exact h.rows l
  | row l x hx =>
      refine ⟨fun i => ?_, h.declared⟩
      by_cases hil : i = l
      · subst hil
        rw [show ((n.setLink i x).links i) = x from Function.update_self ..]
        rcases hx with hrow | ⟨pl, hpl, hcall⟩
        · exact he i x hrow
        · rw [hcall]
          exact h.declared _ (List.mem_map_of_mem hpl)
      · rw [show (n.setLink l x).links i = n.links i from Function.update_of_ne hil ..]
        exact h.rows i
  | _ => exact ⟨h.rows, h.declared⟩

theorem Far.writes (h : n.Far k) (he : KeepsFar k c.event) (hwrites : n.Writes c m) : m.Far k :=
  hwrites.invariant (I := fun m => m.Far k) (fun _ _ hn hwrite => hn.write he hwrite) h

theorem Far.event (h : n.Far k) (he : KeepsFar k e) : (n.event e).Far k :=
  h.writes (c := n.scope e) he (n.event_writes e)

/-- The neighbour's own entry is for another callsign. -/
theorem Far.neighbourKey (h : n.Far k) (hcall : (n.neighbourKey s).call.isEmpty = false) :
    n.neighbourKey s ≠ k := by
  rintro rfl
  obtain ⟨l, hlink, -⟩ := link_of_neighbourKey hcall
  refine h.rows l ?_
  unfold Node.neighbourKey Env.sessPeerCall
  rw [hlink]
  rfl

/-- A session that is not taken down stays up. -/
theorem Write.up (hwrite : n.Write c m) (hcloses : ¬ c.closes s)
    (hup : (n.sessions s).active = true) : (m.sessions s).active = true := by
  cases hwrite with
  | other hsame => rw [hsame.active, hup]
  | declare i x hx hkeeps =>
      by_cases hi : s = i
      · subst hi
        rw [setSession_sessions_self]
        exact hkeeps hup
      · rwa [setSession_sessions_of_ne n x hi]
  | down i x hx hdown =>
      by_cases hi : s = i
      · exact absurd (hi ▸ hdown) hcloses
      · rwa [setSession_sessions_of_ne n x hi]
  | _ => exact hup

theorem Writes.up (hwrites : n.Writes c m) (hcloses : ¬ c.closes s)
    (hup : (n.sessions s).active = true) : (m.sessions s).active = true :=
  hwrites.invariant (I := fun m => (m.sessions s).active = true)
    (fun _ _ hn hwrite => hwrite.up hcloses hn) hup

/-- What a session has learned for a destination that is far, when it hears nothing of it. -/
theorem Write.cost (hwrite : n.Write c m) (hup : (n.sessions s).active = true) (hfar : n.Far k)
    (heard : ∀ r ∈ c.heard s, r.key ≠ k) : (m.learned s).cost k = (n.learned s).cost k := by
  have hset : ∀ (i : Slot) (st : LearnedState), (s = i → st.cost k = (n.learned s).cost k) →
      ((n.setLearned i st).learned s).cost k = (n.learned s).cost k := fun i st hst => by
    by_cases hi : s = i
    · rw [← hst hi, ← hi, show (n.setLearned s st).learned s = st from Function.update_self ..]
    · rw [show (n.setLearned i st).learned s = n.learned s from Function.update_of_ne hi ..]
  cases hwrite with
  | other hsame => simp only [LearnedState.cost, LearnedState.find, hsame.routes]
  | hear i st r hr hcall hroutes hcosts =>
      refine hset i st fun hi => ?_
      subst hi
      refine hcosts k (Ne.symm ?_)
      rcases hr with hmem | rfl
      · exact heard r hmem
      · exact hfar.neighbourKey hcall
  | hand i st hst hdown =>
      refine hset i st fun hi => ?_
      rw [← hi, hup] at hdown
      cases hdown
  | keep i st hst hcosts => exact hset i st fun hi => hi ▸ hcosts k
  | _ => rfl

theorem Writes.cost (hwrites : n.Writes c m) (hup : (n.sessions s).active = true) (hfar : n.Far k)
    (he : KeepsFar k c.event) (hcloses : ¬ c.closes s) (heard : ∀ r ∈ c.heard s, r.key ≠ k) :
    (m.learned s).cost k = (n.learned s).cost k := by
  induction hwrites with
  | refl => rfl
  | tail hwrites hwrite ih =>
      rw [← ih]
      exact hwrite.cost (Writes.up hwrites hcloses hup) (hfar.writes he hwrites) heard

/-! ## A frame of records -/

theorem frameRecords_ne_nil {cfg : Config} {data : CStr} (h : frameRecords cfg data ≠ []) :
    flexParseCeFrame cfg.lt3byte data = some .compact ∧
      frameRecords cfg data = flexParseCompactRecords data 64 := by
  unfold frameRecords at h ⊢
  split_ifs at h ⊢ with htype
  · exact ⟨htype, rfl⟩
  · exact absurd rfl h

/-- A frame with records is a run of merges, once the session is there. -/
theorem flexNetProcessCE_merges (n : Node) (l : LinkId) {data : CStr}
    (hs : n.ceSession l = some s) (hne : frameRecords n.cfg data ≠ []) :
    ∃ m, (∀ c, n.Writes c m) ∧ n.flexNetProcessCE l data =
      (frameRecords n.cfg data).foldl (fun n r => n.flexDtableMerge r s) m := by
  obtain ⟨htype, hrecords⟩ := frameRecords_ne_nil hne
  have hdata : data.isEmpty = false := by
    cases data with
    | nil => exact absurd hrecords hne
    | cons b rest => rfl
  have hcfg : (n.ceNode l).cfg = n.cfg := (n.writes_ceNode (c := n.scope .timer) l).cfg
  refine ⟨(n.ceNode l).flexNotePeerEstablished s,
    fun c => (n.writes_ceNode l).trans (writes_flexNotePeerEstablished _ s), ?_⟩
  rw [n.flexNetProcessCE_handles l hdata, hs, hrecords]
  change (n.ceNode l).handleFrame s data = _
  unfold handleFrame
  rw [hcfg, htype]
  rfl

/-- An event at which a session hears records is a run of merges, after writes by which it hears
nothing and no session is taken down. -/
theorem event_merges (h : n.heardBy s e ≠ []) :
    ∃ m, (∀ c, n.Writes c m) ∧
      n.event e = (n.heardBy s e).foldl (fun n r => n.flexDtableMerge r s) m := by
  unfold heardBy at h ⊢
  split_ifs at h ⊢ with hearer
  · cases e with
    | processCE l data => exact n.flexNetProcessCE_merges l hearer h
    | ceReceived l port data =>
        have hdispatch : ∀ c, n.Writes c (n.dispatchCE l port) := fun c =>
          n.writes_dispatchCE l port
        have hcfg : (n.dispatchCE l port).cfg = n.cfg := (hdispatch (n.scope .timer)).cfg
        change (if ((n.dispatchCE l port).links l).flexNetLink = true
          then (n.dispatchCE l port).ceSession l else none) = some s at hearer
        split_ifs at hearer with hflag
        change frameRecords n.cfg data ≠ [] at h
        rw [← hcfg] at h
        obtain ⟨m, hm, heq⟩ := (n.dispatchCE l port).flexNetProcessCE_merges l hearer h
        refine ⟨m, fun c => (hdispatch c).trans (hm c), ?_⟩
        rw [hcfg] at heq
        exact (if_pos hflag).trans heq
    | _ => cases hearer
  · exact absurd rfl h

theorem call_of_heardBy {r : Record} (hr : r ∈ n.heardBy s e) : r.key.call.isEmpty = false := by
  obtain ⟨data, hmem⟩ : ∃ data, r ∈ flexParseCompactRecords data 64 := by
    unfold heardBy at hr
    split_ifs at hr
    · cases hframe : e.frame with
      | none =>
          rw [hframe] at hr
          cases hr
      | some frame =>
          rw [hframe] at hr
          change r ∈ frameRecords n.cfg frame.2 at hr
          have hne : frameRecords n.cfg frame.2 ≠ [] := List.ne_nil_of_mem hr
          rw [(frameRecords_ne_nil hne).2] at hr
          exact ⟨frame.2, hr⟩
    · cases hr
  obtain ⟨b, hb, -⟩ := (encodable_flexParseCompactRecords hmem).head
  unfold Callsign.isEmpty
  cases hbytes : r.key.call.bytes with
  | nil =>
      rw [hbytes] at hb
      cases hb
  | cons b rest => rfl

/-! ## Runs -/

/-- A session listens for a destination: the event does not take it down, makes no station of the
destination's callsign a neighbour, and leaves room in the tables. -/
structure Listens (n : Node) (s : Slot) (k : Key) (e : Event) : Prop where
  stays : ¬ n.TakesDown s e
  far : KeepsFar k e
  room : (n.event e).Room s k

/-- The records a session hears in a run, in order. -/
def heardIn (s : Slot) : Node → List Event → List Record
  | _, [] => []
  | n, e :: es => n.heardBy s e ++ heardIn s (n.event e) es

theorem heardIn_append (n : Node) (es : List Event) (e : Event) :
    heardIn s n (es ++ [e]) = heardIn s n es ++ (n.after es).heardBy s e := by
  induction es generalizing n with
  | nil => simp [heardIn, after]
  | cons e' es ih =>
      rw [List.cons_append, heardIn, heardIn, ih, List.append_assoc]
      rfl

/-- What one event does to what a session has learned. -/
theorem cost_event (htransit : n.cfg.transit = true) (hforeign : n.cfg.localCovers k = false)
    (hup : (n.sessions s).active = true) (hfar : n.Far k) (he : n.Listens s k e) :
    ((n.event e).learned s).cost k =
      (lastHeard (n.heardBy s e) k).or ((n.learned s).cost k) := by
  by_cases hnone : n.heardBy s e = []
  · have hwrites := (n.event_writes e).cost hup hfar he.far he.stays
      (by simp [show (n.scope e).heard s = [] from hnone])
    rw [hwrites, hnone]
    rfl
  · obtain ⟨m, hm, heq⟩ := event_merges hnone
    have hquiet : n.Writes ⟨e, fun _ => [], fun _ => False⟩ m := hm _
    have hcost := hquiet.cost hup hfar he.far id (by simp)
    have hroom := he.room
    rw [heq] at hroom ⊢
    rw [cost_merges _ m (by rw [hquiet.cfg, htransit]) (by rw [hquiet.cfg, hforeign])
      (fun r hr => call_of_heardBy hr) hroom, hcost]
    rfl

/-- **What a session has learned is what it last heard.**  In every run in which the session is not
taken down, no station of the destination's callsign becomes a neighbour, and the tables have the
destination or room for it: whatever else happens, and in whatever order, the session's learned
table has the cost of the last record it heard for the destination, or the one it had before. -/
theorem learned_last {es : List Event} (htransit : n.cfg.transit = true)
    (hforeign : n.cfg.localCovers k = false) (hup : (n.sessions s).active = true) (hfar : n.Far k)
    (hrun : GuardedRun event (fun n e => n.Listens s k e) n es m) :
    (m.learned s).cost k = (lastHeard (heardIn s n es) k).or ((n.learned s).cost k) := by
  suffices hend : m.cfg = n.cfg ∧ (m.sessions s).active = true ∧ m.Far k ∧
      (m.learned s).cost k = (lastHeard (heardIn s n es) k).or ((n.learned s).cost k) from
    hend.2.2.2
  induction hrun with
  | start => exact ⟨rfl, hup, hfar, rfl⟩
  | @step es t e hprev he ih =>
      obtain ⟨hcfg, hupt, hfart, hcost⟩ := ih
      have hwrites := t.event_writes e
      refine ⟨(event_cfg t e).trans hcfg, hwrites.up he.stays hupt, hfart.event he.far, ?_⟩
      have hone := cost_event (by rw [hcfg, htransit]) (by rw [hcfg, hforeign]) hupt hfart he
      rw [hone, hcost, heardIn_append, hprev.eq_foldl]
      unfold lastHeard after
      rw [List.filter_append, lastSaid_append, Option.or_assoc]

end Node

namespace Bench

/-- `A` tells of `K` twice, `B` once in between, and time passes. -/
def toldTwice : List Event :=
  [record 0 0x4B 10, record 1 0x4B 7, .clock 30 0, .timer, record 0 0x4B 12]

/-- A node that has just booted without declarations knows the neighbours of its rows. -/
theorem far_boot {cfg : Config} {rows : LinkId → Link} {now : ℤ} {k : Key}
    (h : ∀ l, (rows l).linkCall.entered ≠ k.call) : (Node.boot cfg [] [] rows now).Far k :=
  ⟨h, fun _ ha => absurd ha List.not_mem_nil⟩

/-- A handshake writes no row of BPQ's. -/
theorem keepsFar_initSession {k : Key} (l : LinkId) (port : ℕ) :
    Node.KeepsFar k (.initSession l port) := fun _ _ h => by cases h

theorem far_node : (node false).Far (dest 0x4B) := by
  have hboot : (Node.boot (config false) [] [] links 1000).Far (dest 0x4B) := by
    refine far_boot fun l => ?_
    match l with
    | 0 => decide +kernel
    | 1 => decide +kernel
    | _ + 2 =>
        change ({} : Link).linkCall.entered ≠ (dest 0x4B).call
        decide +kernel
  rw [node, Node.after, List.foldl_cons, List.foldl_cons, List.foldl_nil]
  exact (hboot.event (keepsFar_initSession 0 1)).event (keepsFar_initSession 1 1)

/-- A frame with one record only needs room. -/
theorem listens_record {n : Node} {s : Slot} {k : Key} {l : LinkId} {letter : UInt8} {cost : ℤ}
    (hdests : DestRoom (n.event (record l letter cost)).dests k)
    (hlearned : ((n.event (record l letter cost)).learned s).Room k) :
    n.Listens s k (record l letter cost) :=
  ⟨id, fun _ _ h => (by cases h), ⟨hdests, hlearned⟩⟩

theorem toldTwice_run :
    GuardedRun Node.event (fun n e => n.Listens slotA (dest 0x4B) e) (node false) toldTwice
      ((node false).after toldTwice) := by
  refine .of_chain ⟨listens_record ?_ ?_, listens_record ?_ ?_,
    ⟨id, fun _ _ h => (by cases h), ⟨?_, ?_⟩⟩,
    ⟨fun h => absurd h.2 ?_, fun _ _ h => (by cases h), ⟨?_, ?_⟩⟩, listens_record ?_ ?_, trivial⟩
  all_goals decide +kernel

/-- The session with `A` has learned what `A` said last. -/
theorem learned_toldTwice :
    (((node false).after toldTwice).learned slotA).cost (dest 0x4B) =
      (lastHeard (Node.heardIn slotA (node false) toldTwice) (dest 0x4B)).or
        (((node false).learned slotA).cost (dest 0x4B)) ∧
    lastHeard (Node.heardIn slotA (node false) toldTwice) (dest 0x4B) = some 12 :=
  ⟨Node.learned_last rfl (by decide +kernel) (by decide +kernel) far_node toldTwice_run,
    by decide +kernel⟩

end Bench

end FlexNet
