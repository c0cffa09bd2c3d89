import FlexNet.Path.Answers
import FlexNet.Routing.LiveHops

/-!
# Rows that wait for a record

The path cache makes rows at infinity without a next hop, whose `is_infinity` is nevertheless 0.
Nothing but a record for such a row, merged, changes that: `Sleeping` is kept by every event that
merges none, and by the path layer.
-/

namespace FlexNet

/-! ## A row nobody takes -/

namespace DestEntry

/-- No test takes the row for a way to its destination: not `rtt < FLEXNET_RTT_INFINITY`, and not
the one of `flex_link_opts_changed`, which looks at `is_infinity` too. -/
structure Unreachable (d : DestEntry) : Prop where
  infinite : ¬ d.rtt < rttInfinity
  unshifted : ¬ (d.isInfinity = false ∧ 0 < d.rtt ∧ d.rtt < rttInfinity)

/-- A row at infinity that no session is asked for. -/
structure Dormant (d : DestEntry) : Prop where
  rtt : d.rtt = rttInfinity
  via : d.viaSession = none
  call : d.viaCallsign = .empty

theorem Dormant.unreachable {d : DestEntry} (h : d.Dormant) : d.Unreachable := by
  have hnot : ¬ d.rtt < rttInfinity := by
    rw [h.rtt]
    exact lt_irrefl _
  exact ⟨hnot, fun hall => hnot hall.2.2⟩

end DestEntry

namespace Node

variable {W : Node → LinkId → AxCall → Prop} {e : Event} {n m : Node} {i : ℕ} {k : Key}

/-- Row `i` is the dormant row of a key. -/
def Sleeping (n : Node) (i : ℕ) (k : Key) : Prop :=
  ∃ d, n.dests[i]? = some d ∧ d.key = k ∧ d.Dormant

/-- In the course of an event a record for the key is merged. -/
def Promotes (n : Node) (e : Event) (k : Key) : Prop :=
  ∃ m s r, n.Moves (fun _ _ _ => True) e m ∧ m.Merges e s r ∧ SameDest k r.key

theorem sleeping_congr (hdests : m.dests = n.dests) (h : n.Sleeping i k) : m.Sleeping i k := by
  unfold Sleeping
  rw [hdests]
  exact h

theorem sleeping_ite {c : Prop} [Decidable c] {o : Node} (h : m.Sleeping i k)
    (h' : o.Sleeping i k) :
    (if c then m else o).Sleeping i k := by
  split_ifs
  exacts [h, h']

/-- Rows written in a way that leaves dormant ones alone. -/
theorem Sleeping.map (h : n.Sleeping i k) {f : DestEntry → DestEntry}
    (hf : ∀ d, d.Dormant → (f d).key = d.key ∧ (f d).Dormant) (hdests : m.dests = n.dests.map f) :
    m.Sleeping i k := by
  obtain ⟨d, hd, hkey, hdormant⟩ := h
  obtain ⟨hkey', hdormant'⟩ := hf d hdormant
  refine ⟨f d, ?_, hkey'.trans hkey, hdormant'⟩
  rw [hdests, List.getElem?_map, hd, Option.map_some]

theorem Sleeping.modify (h : n.Sleeping i k) {j : ℕ} {f : DestEntry → DestEntry}
    (hf : j = i → ∀ d, d.Dormant → (f d).key = d.key ∧ (f d).Dormant)
    (hdests : m.dests = n.dests.modify j f) : m.Sleeping i k := by
  obtain ⟨d, hd, hkey, hdormant⟩ := h
  by_cases hij : j = i
  · obtain ⟨hkey', hdormant'⟩ := hf hij d hdormant
    refine ⟨f d, ?_, hkey'.trans hkey, hdormant'⟩
    rw [hdests, hij, List.getElem?_modify_eq, hd]
    rfl
  · refine ⟨d, ?_, hkey, hdormant⟩
    rw [hdests, List.getElem?_modify_ne _ _ hij, hd]

theorem Sleeping.append (h : n.Sleeping i k) {dests : List DestEntry}
    (hdests : m.dests = n.dests ++ dests) : m.Sleeping i k := by
  obtain ⟨d, hd, hkey, hdormant⟩ := h
  refine ⟨d, ?_, hkey, hdormant⟩
  rw [hdests, List.getElem?_append_left (List.getElem?_eq_some_iff.mp hd).1, hd]

/-- The same next hops are the same dormant rows. -/
theorem Sleeping.of_hops (h : n.Sleeping i k)
    (hops : m.dests.map DestEntry.hop = n.dests.map DestEntry.hop) : m.Sleeping i k := by
  obtain ⟨d, hd, hkey, hdormant⟩ := h
  have hrow := congrArg (fun rows => rows[i]?) hops
  simp only [List.getElem?_map, hd, Option.map_some] at hrow
  obtain ⟨d', hd', hop⟩ := Option.map_eq_some_iff.mp hrow
  unfold DestEntry.hop at hop
  simp only [DestEntry.mk.injEq] at hop
  obtain ⟨hkey', hrtt, -, hcall, -, hvia, -⟩ := hop
  exact ⟨d', hd', hkey'.trans hkey, hrtt.trans hdormant.rtt, hvia.trans hdormant.via,
    hcall.trans hdormant.call⟩

/-- Nobody heals a dormant row. -/
theorem healedVia_dormant (n : Node) {d : DestEntry} (h : d.Dormant) : n.healedVia d = none := by
  unfold healedVia
  rw [h.via, h.call]
  rfl

/-- A record that is merged elsewhere leaves the row alone. -/
theorem Sleeping.merge (h : n.Sleeping i k) (s : Slot) {r : Record} (hr : ¬ SameDest k r.key) :
    (n.flexDtableMerge r s).Sleeping i k := by
  have helse : ∀ {j}, flexFindDest n.dests r.key = some j → j ≠ i := by
    rintro j hj rfl
    obtain ⟨d, hd, hkey, -⟩ := h
    exact hr (hkey ▸ sameDest_of_flexFindDest hj hd)
  unfold flexDtableMerge
  refine sleeping_ite h (sleeping_ite ?_ ?_)
  · split
    · exact h
    · rename_i j hj
      exact h.modify (fun hij => absurd hij (helse hj)) rfl
  extract_lets eff fresh n₀
  split
  · rename_i j hj
    extract_lets d isCurrent isBetter n₁ n₂
    have h₁ : n₁.Sleeping i k := sleeping_ite (h.modify (fun hij => absurd hij (helse hj)) rfl) h
    have h₂ : n₂.Sleeping i k := sleeping_congr (flexLearnedAdd_dests n₁ s r) h₁
    exact sleeping_ite h₁ (sleeping_ite (h₂.modify (fun hij => absurd hij (helse hj)) rfl) h₂)
  · have h₀ : n₀.Sleeping i k := h.append rfl
    exact sleeping_ite (sleeping_ite (sleeping_congr (flexLearnedAdd_dests n₀ s r) h₀) h₀) h

theorem Sleeping.loadPathRow (h : n.Sleeping i k) (k' : Key) (path : List Callsign) (updated : ℤ) :
    (n.loadPathRow k' path updated).Sleeping i k := by
  unfold Node.loadPathRow
  split
  · refine Sleeping.modify (f := fun d => { d with path := path, pathUpdated := updated }) h ?_ rfl
    exact fun _ d hd => ⟨rfl, hd.rtt, hd.via, hd.call⟩
  · exact sleeping_ite (h.append rfl) h

/-- The step lemma: only the merge of a record for the row wakes it. -/
theorem Sleeping.move (h : n.Sleeping i k) {mv : Move} (hmv : mv.Legal W e n)
    (hquiet : ∀ s r, n.Merges e s r → ¬ SameDest k r.key) : (mv.apply n).Sleeping i k := by
  cases mv with
  | serve m =>
      have hsame : n.SameRoutes m := hmv
      exact h.of_hops hsame.hops
  | row l x => exact h
  | merge s r => exact h.merge s (hquiet s r hmv)
  | relink s l => exact h
  | migrate s l => exact h
  | start s l port => exact h.of_hops (startSession_started n s l port hmv.1).hops
  | stop s x =>
      refine h.map (fun d hd => ?_) rfl
      have hkept : ¬ (d.viaSession = some s ∨ d.viaSession = none ∧ d.rtt < rttInfinity) := by
        rw [hd.via, hd.rtt]
        simp
      rw [if_neg hkept]
      exact ⟨rfl, hd⟩
  | opts s o =>
      have hshift : ∀ shift : ℤ, ∀ d : DestEntry, d.Dormant →
          (shiftDest s shift d).key = d.key ∧ (shiftDest s shift d).Dormant := by
        intro shift d hd
        have hkept : ¬ (d.viaSession = some s ∧ d.isInfinity = false ∧ 0 < d.rtt ∧
            d.rtt < rttInfinity) := by
          rw [hd.via]
          simp
        rw [shiftDest, if_neg hkept]
        exact ⟨rfl, hd⟩
      change (n.setLinkOpts s o).Sleeping i k
      unfold setLinkOpts
      extract_lets shift m
      have hm : m.Sleeping i k := h
      exact sleeping_ite hm (hm.map (hshift shift) rfl)
  | sample s value => exact h
  | heal j =>
      refine h.modify (fun _ d hd => ?_) rfl
      rw [n.healedVia_dormant hd]
      exact ⟨rfl, hd⟩
  | cache k' path updated => exact h.loadPathRow k' path updated

/-- An event that merges no record for the row lets it sleep. -/
theorem Sleeping.event (h : n.Sleeping i k) (hquiet : ¬ n.Promotes e k) :
    (n.event e).Sleeping i k := by
  have hmoves : n.Moves (fun _ _ _ => True) e (n.event e) :=
    event_moves n e fun _ => .of_forall fun _ _ _ _ _ => trivial
  have hkept := hmoves.invariant (I := fun m => n.Moves (fun _ _ _ => True) e m ∧ m.Sleeping i k)
    (fun m mv hm hmv => ⟨hm.1.trans (.one mv hmv), hm.2.move hmv fun s r hmerge hsame =>
      hquiet ⟨m, s, r, hm.1, hmerge, hsame⟩⟩) ⟨.refl n, h⟩
  exact hkept.2

end Node

/-! ## The path layer -/

namespace PathNode

open Node

variable {n m : PathNode} {i : ℕ} {k : Key} {s : Slot} {data : CStr}

/-- A probe heals a row that has somebody to be healed from. -/
theorem sleeping_flexProbeSession (h : n.Sleeping i k) (dest : Option ℕ) (target : CStr) :
    (n.flexProbeSession dest target).1.Sleeping i k := by
  unfold flexProbeSession
  dsimp only
  split
  · rename_i j d hrow
    split
    · exact h
    split
    · rename_i via hvia
      refine h.modify (fun hij => ?_) rfl
      obtain ⟨d', hd', -, hdormant⟩ := h
      obtain rfl : d' = d := by
        rw [Option.bind_some, hij, hd'] at hrow
        exact Option.some.inj hrow
      rw [hdormant.call] at hvia
      cases hvia
    · exact h
  · exact h

theorem sleeping_flexSendPathReqEx (h : n.Sleeping i k) (dest : Option ℕ) (call : Callsign)
    (ssid : ℤ) : (n.flexSendPathReqEx dest call ssid).1.Sleeping i k := by
  have hvia := sleeping_flexProbeSession h dest (probeTarget call ssid)
  rcases n.flexSendPathReqEx_cases dest call ssid with
    ⟨_, hc⟩ | ⟨_, _, hc⟩ | ⟨_, _, _, _, _, hc⟩ <;>
    rw [hc]
  exacts [h, hvia, hvia]

theorem sleeping_flexOndemandProbe (h : n.Sleeping i k) (dest : ℕ) (target : CStr) :
    (n.flexOndemandProbe dest target).1.Sleeping i k := by
  unfold flexOndemandProbe
  dsimp only
  split
  · exact h
  split
  · exact h
  split
  · exact h
  · rename_i d _
    have hsent := sleeping_flexSendPathReqEx h (some dest) d.key.call d.key.lo
    generalize n.flexSendPathReqEx (some dest) d.key.call d.key.lo = r at hsent
    obtain ⟨m, _ | p⟩ := r
    · exact hsent
    · exact hsent

theorem Handles.sleeping (hm : Handles n s data m) (h : n.Sleeping i k) : m.Sleeping i k := by
  have hdefer : ∀ (o : PathNode) target, o.Sleeping i k →
      (o.flexDeferPathReq s target data).Sleeping i k := by
    intro o target ho
    unfold flexDeferPathReq
    split
    · exact ho
    split
    · exact ho
    split
    · exact ho
    · exact ho
  cases hm with
  | nothing => exact h
  | frame via frame => exact h
  | probe dest target => exact sleeping_flexOndemandProbe h dest target
  | parked dest target => exact hdefer _ target (sleeping_flexOndemandProbe h dest target)

theorem sleeping_replayDeferred (base : CStr) (h : n.Sleeping i k) (j : DeferredSlot) :
    (replayDeferred base n j).Sleeping i k := by
  unfold replayDeferred
  extract_lets d o
  split
  · exact h
  split
  · exact h
  split
  · exact h
  split
  · exact h
  · exact (handles_flexHandlePathReq { o with replaying := true } d.peer d.frame).sleeping h

/-- An answer writes a chain, no next hop. -/
theorem sleeping_flexHandlePathRep (h : n.Sleeping i k) (data : CStr) :
    (n.flexHandlePathRep data).Sleeping i k := by
  unfold flexHandlePathRep
  split
  · exact h
  split
  · exact h
  split
  · unfold flexRelayPathRep
    split
    · exact h
    split
    · exact h
    split
    · exact h
    split
    · exact h
    · exact h
  · rename_i f _ _ _ p _
    have hcached : (n.cacheAnswer (n.probes p) f.hops).Sleeping i k := by
      unfold cacheAnswer
      split
      · exact h
      split
      · exact h
      split
      · exact h
      · refine Sleeping.modify
          (f := fun d => { d with path := f.hops, pathUpdated := n.now }) h ?_ rfl
        exact fun _ d hd => ⟨rfl, hd.rtt, hd.via, hd.call⟩
    have hreplayed : ∀ (base : CStr) (is : List DeferredSlot) (o : PathNode), o.Sleeping i k →
        (is.foldl (replayDeferred base) o).Sleeping i k := by
      intro base is
      induction is with
      | nil => exact fun o ho => ho
      | cons j is ih => exact fun o ho => ih _ (sleeping_replayDeferred base ho j)
    exact hreplayed _ _ _ hcached

/-- A frame, the path layer included, that brings no record for the row. -/
theorem sleeping_flexNetProcessCE (h : n.Sleeping i k) (l : LinkId) (data : CStr)
    (hquiet : ¬ n.Promotes (.processCE l data) k) : (n.flexNetProcessCE l data).Sleeping i k := by
  have hframe : (n.toNode.flexNetProcessCE l data).Sleeping i k := h.event hquiet
  unfold flexNetProcessCE
  extract_lets received o
  split
  · exact hframe
  split
  · exact (handles_flexHandlePathReq o _ data).sleeping hframe
  · exact sleeping_flexHandlePathRep (n := o) hframe data
  · exact hframe

end PathNode

end FlexNet
