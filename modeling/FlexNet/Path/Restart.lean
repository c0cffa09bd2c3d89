import FlexNet.Lib.Runs
import FlexNet.Path.Dormant
import FlexNet.Path.RoundTrip
import FlexNet.Path.Table
import FlexNet.Routing.Refinement

/-!
# The path cache across a restart

A `Life` is a node with the file of its path cache, over any number of restarts.  Every table it
reaches is a `Table`, so what its file gives back is decided by the chains alone: `survives_iff`
says that a table comes back row by row exactly when no chain that is written has a tab or a newline
in it.  Answers may bring such chains, as their reader ends a callsign at a blank only.
-/

namespace FlexNet

open Runs

namespace PathNode

variable {n m : PathNode} {s : Slot} {l : LinkId} {data : CStr}

/-! ## What path frames do to the tables -/

/-- Handling a request leaves the charts alone. -/
theorem Kept.tends (h : n.Kept m) : n.toNode.Tends m.toNode := by
  obtain ⟨henv, -, -, hchains, -⟩ := h
  have hcfg : m.cfg = n.cfg := congrArg Env.cfg henv
  have hlearned : m.learned = n.learned := congrArg Env.learned henv
  have hsessions : m.sessions = n.sessions := congrArg Env.sessions henv
  intro ht
  refine ⟨hcfg, ?_, ?_, ?_⟩
  · rw [hcfg]
    exact ht.table.of_charts hchains
  · rw [hlearned]
    exact ht.learned
  · rw [hsessions]
    exact ht.declared

theorem tends_replayDeferred (base : CStr) (n : PathNode) (i : DeferredSlot) :
    n.toNode.Tends (replayDeferred base n i).toNode := by
  unfold replayDeferred
  extract_lets d k
  split_ifs
  · exact .refl _
  · exact .refl _
  · exact .refl _
  · exact .refl _
  · exact (handles_flexHandlePathReq { k with replaying := true } d.peer d.frame).kept.tends

/-- The hops of a path frame have no blank and no NUL in them. -/
theorem hops_flexParsePathFrame {f : PathFrame} (h : flexParsePathFrame data = some f) :
    f.hops.length ≤ maxPathHops ∧
      ∀ hop ∈ f.hops, hop.bytes ≠ [] ∧ ∀ b ∈ hop.bytes, b ≠ 0x20 ∧ b ≠ 0 := by
  unfold flexParsePathFrame at h
  split_ifs at h
  obtain rfl := Option.some.inj h
  constructor
  · have hlen := length_parseCalls_le (maxPathHops + 1) (data.drop pathHeaderLen)
    dsimp only
    rw [List.length_tail]
    omega
  · intro hop hmem
    obtain ⟨hne, -, hin⟩ := parseCalls_pathCall hop (List.mem_of_mem_tail hmem)
    refine ⟨hne, ?_⟩
    intro b hb
    have hcall := hin b hb
    simp only [inCall, Bool.and_eq_true, bne_iff_ne] at hcall
    exact ⟨hcall.1.1, hcall.2⟩

/-- The chain of an answer is cached at the row it leads to. -/
theorem tends_cacheAnswer (n : PathNode) (probe : PathProbe) {f : PathFrame}
    (hf : flexParsePathFrame data = some f) (hnow : FitsLong n.now) :
    n.toNode.Tends (n.cacheAnswer probe f.hops).toNode := by
  obtain ⟨hshort, hhops⟩ := hops_flexParsePathFrame hf
  unfold cacheAnswer
  split
  · exact .refl _
  split
  · exact .refl _
  rename_i i _ d hd
  split_ifs with hrefused
  · exact .refl _
  simp only [Bool.or_eq_true, Bool.not_eq_true', not_or, Bool.not_eq_true,
    Bool.not_eq_false] at hrefused
  intro ht
  refine ⟨rfl, ht.table.modify (fun _ => rfl) ?_, ht.learned, ht.declared⟩
  intro d' hd' _
  obtain rfl : d' = d := Option.some.inj (hd'.symm.trans hd)
  exact ⟨hhops, hshort, hrefused.1, hrefused.2, hnow⟩

theorem tends_flexHandlePathRep (n : PathNode) (data : CStr) (hnow : FitsLong n.now) :
    n.toNode.Tends (n.flexHandlePathRep data).toNode := by
  unfold flexHandlePathRep
  split
  · exact .refl _
  rename_i f hf
  split
  · exact .refl _
  split
  · have hrelayed : n.flexRelayPathRep f data = n ∨
        ∃ via, n.flexRelayPathRep f data = n.sendCe via data := by
      unfold flexRelayPathRep
      split
      · exact .inl rfl
      split
      · exact .inl rfl
      split
      · exact .inl rfl
      split
      · exact .inl rfl
      · exact .inr ⟨_, rfl⟩
    rcases hrelayed with h | ⟨via, h⟩
    · rw [h]
      exact .refl _
    · rw [h]
      exact (kept_sendCe n via data).tends
  · rename_i p _
    have hcached := n.tends_cacheAnswer (n.probes p) hf hnow
    unfold acceptAnswer
    extract_lets probe n₁ done n₂
    have hreplayed : ∀ (is : List DeferredSlot) (k : PathNode),
        k.toNode.Tends
          (is.foldl (replayDeferred (flexBaseCall probe.targetCall.bytes)) k).toNode := by
      intro is
      induction is with
      | nil => exact fun k => .refl k.toNode
      | cons i is ih => exact fun k => (tends_replayDeferred _ k i).trans (ih _)
    exact hcached.trans (hreplayed _ n₂)

/-- A frame, the path layer included, keeps the tables. -/
theorem tends_flexNetProcessCE (n : PathNode) (l : LinkId) (data : CStr) (hnow : FitsLong n.now) :
    n.toNode.Tends (n.flexNetProcessCE l data).toNode := by
  have hframe := n.toNode.tends_flexNetProcessCE l data
  have hsame := (n.toNode.untouched_flexNetProcessCE l data).now
  unfold flexNetProcessCE
  extract_lets received k
  have hk : FitsLong k.now := by
    change FitsLong (n.toNode.flexNetProcessCE l data).now
    rw [hsame]
    exact hnow
  split
  · exact hframe
  · split
    · exact hframe.trans (handles_flexHandlePathReq k _ data).kept.tends
    · exact hframe.trans (k.tends_flexHandlePathRep data hk)
    · exact hframe

/-! ## Reading the file -/

/-- The tables of a node that has just started. -/
structure Fresh (n : PathNode) : Prop where
  dests : n.dests = []
  learned : ∀ s, (n.learned s).routes = []
  declared : ∀ s, (n.sessions s).peerMaxSsid = 0

/-- The file a node writes. -/
def cacheFile (n : PathNode) : CStr := (flexPathCacheSave n.now n.dests).1

/-- A node after it has read a file. -/
def readCache (n : PathNode) (file : Option CStr) : PathNode :=
  { n with toNode := (n.toNode.flexPathCacheLoad file).1 }

end PathNode

/-! ## Lives -/

/-- A node and the file of its path cache. -/
structure Life where
  node : PathNode
  file : Option CStr := none

/-- What happens to them. -/
inductive LifeStep
  /-- an event of the node -/
  | event (e : Event)
  /-- a frame of a neighbour, path frames included -/
  | frame (l : LinkId) (data : CStr)
  /-- a probe is sent -/
  | probe (dest : Option ℕ) (call : Callsign) (ssid : ℤ)
  /-- the file is written -/
  | save
  /-- the file is read -/
  | load
  /-- the node starts again -/
  | restart (m : PathNode)

/-- The rows of the path cache are those of the file, and a node starts without tables. -/
def LifeStep.Allowed : LifeStep → Prop
  | .event e => ∀ rows, e ≠ .pathCache rows
  | .restart m => m.Fresh
  | _ => True

namespace Life

/-- One step. -/
def apply (r : Life) : LifeStep → Life
  | .event e => { r with node := { r.node with toNode := r.node.toNode.event e } }
  | .frame l data => { r with node := r.node.flexNetProcessCE l data }
  | .probe dest call ssid => { r with node := (r.node.flexSendPathReqEx dest call ssid).1 }
  | .save => { r with file := some r.node.cacheFile }
  | .load => { r with node := r.node.readCache r.file }
  | .restart m => { r with node := m }

/-- A step that can be taken; the clock stays a `time_t`. -/
def Legal (r : Life) (step : LifeStep) : Prop :=
  step.Allowed ∧ FitsLong (r.apply step).node.now

/-- A life begins without tables and without a file. -/
structure Begins (r : Life) : Prop where
  fresh : r.node.Fresh
  now : FitsLong r.node.now
  file : r.file = none

/-- What holds all along. -/
structure Sound (r : Life) : Prop where
  tabled : r.node.toNode.Tabled
  now : FitsLong r.node.now

variable {r r' : Life} {step : LifeStep} {steps : List LifeStep}

theorem tabled_of_fresh {n : PathNode} (h : n.Fresh) : n.toNode.Tabled where
  table := by
    rw [h.dests]
    exact ⟨Nat.zero_le _, List.Pairwise.nil, fun d hd => absurd hd List.not_mem_nil,
      fun d hd => absurd hd List.not_mem_nil⟩
  learned s lr hlr := absurd (h.learned s ▸ hlr) List.not_mem_nil
  declared s := h.declared s ▸ Node.fitsInt_zero

theorem Begins.sound (h : r.Begins) : r.Sound := ⟨tabled_of_fresh h.fresh, h.now⟩

/-- Every step keeps the tables. -/
theorem Sound.apply (h : r.Sound) (hlegal : r.Legal step) : (r.apply step).Sound := by
  refine ⟨?_, hlegal.2⟩
  cases step with
  | event e => exact (r.node.toNode.event_tends e hlegal.1 h.tabled).2
  | frame l data => exact (r.node.tends_flexNetProcessCE l data h.now h.tabled).2
  | probe dest call ssid => exact ((r.node.kept_flexSendPathReqEx dest call ssid).tends h.tabled).2
  | save => exact h.tabled
  | load => exact (r.node.toNode.tends_flexPathCacheLoad r.file h.tabled).2
  | restart m => exact tabled_of_fresh hlegal.1

theorem Begins.sound_run (h : r.Begins) (hrun : GuardedRun apply Legal r steps r') : r'.Sound :=
  hrun.invariant (fun _ _ hs hlegal => hs.apply hlegal) h.sound

end Life

/-! ## What comes back -/

/-- A step that merges no record for a key, in the same life. -/
def Life.Quiet (k : Key) (r : Life) : LifeStep → Prop
  | .event e => ¬ r.node.Promotes e k
  | .frame l data => ¬ r.node.Promotes (.processCE l data) k
  | .restart _ => False
  | _ => True

namespace PathNode

/-- What a node without rows gets from the file of another: every row whose chain is young enough,
does not lead through the reader and ends at its row, as it was but for its next hop; no row and no
chain besides; and rows that stay unreachable until a record for them is merged. -/
structure Restores (n m : PathNode) : Prop where
  rows : ∀ d ∈ n.dests, d.path ≠ [] → m.now - d.pathUpdated < pathCachePersistTtl →
    flexChainHasCall d.path m.cfg.pathCall = false → flexChainEndsAt d.path d.key = true →
      ∃ i, flexFindDest (m.readCache (some n.cacheFile)).dests d.key = some i ∧
        (m.readCache (some n.cacheFile)).dests[i]? = some (placeholder d.chart)
  only : ((m.readCache (some n.cacheFile)).dests.map DestEntry.chart).Sublist
    (n.dests.map DestEntry.chart)
  unreachable : ∀ (i : ℕ) (d : DestEntry), (m.readCache (some n.cacheFile)).dests[i]? = some d →
    ∀ steps r,
      GuardedRun Life.apply (Life.Quiet d.key)
        ⟨m.readCache (some n.cacheFile), some n.cacheFile⟩ steps r →
      ∃ d', r.node.dests[i]? = some d' ∧ d'.key = d.key ∧ d'.Unreachable

/-- The cached chains survive a restart, whenever and by whatever node the file is read. -/
def Survives (n : PathNode) : Prop := ∀ m : PathNode, m.dests = [] → n.now ≤ m.now → n.Restores m

/-- No chain that is written has a tab or a newline in it. -/
def SavesClean (n : PathNode) : Prop := ∀ d ∈ n.dests, d.isSaved n.now = true → d.Clean

instance (n : PathNode) : Decidable n.SavesClean :=
  inferInstanceAs (Decidable (∀ d ∈ n.dests, d.isSaved n.now = true → d.Clean))

end PathNode

namespace Life

variable {r r' : Life} {step : LifeStep} {steps : List LifeStep} {i : ℕ} {k : Key}

/-- A quiet step lets the row sleep. -/
theorem Quiet.sleeping (hquiet : r.Quiet k step) (h : r.node.Sleeping i k) :
    (r.apply step).node.Sleeping i k := by
  cases step with
  | event e => exact h.event hquiet
  | frame l data => exact PathNode.sleeping_flexNetProcessCE h l data hquiet
  | probe dest call ssid => exact PathNode.sleeping_flexSendPathReqEx h dest call ssid
  | save => exact h
  | load =>
      have hnone : ∀ rows, ¬ r.node.Promotes (.pathCache rows) k := by
        rintro rows ⟨m, s, x, -, ⟨l, data, hframe, -⟩, -⟩
        cases hframe
      change (r.node.toNode.flexPathCacheLoad r.file).1.Sleeping i k
      rw [Node.flexPathCacheLoad_fst]
      exact h.event (hnone _)
  | restart m => exact hquiet.elim

theorem sleeping_run (hrun : GuardedRun apply (Quiet k) r steps r') (h : r.node.Sleeping i k) :
    r'.node.Sleeping i k :=
  hrun.invariant (I := fun r => r.node.Sleeping i k)
    (fun _ _ hs hquiet => Quiet.sleeping hquiet hs) h

end Life

namespace PathNode

variable {n m : PathNode} {us : CStr}

/-- The row of a key is found where it is. -/
theorem find_of_distinct {dests : List DestEntry}
    (h : dests.Pairwise fun d d' => ¬ SameDest d.key d'.key) {d : DestEntry} (hd : d ∈ dests) :
    ∃ i, flexFindDest dests d.key = some i ∧ dests[i]? = some d := by
  cases hfind : flexFindDest dests d.key with
  | none => exact absurd ⟨rfl, rfl, rfl⟩ (flexFindDest_eq_none.mp hfind d hd)
  | some i =>
      refine ⟨i, rfl, ?_⟩
      obtain ⟨hi, -, -⟩ := List.findIdx?_eq_some_iff_getElem.mp hfind
      obtain ⟨j, hj, rfl⟩ := List.getElem_of_mem hd
      have hsame : SameDest dests[i].key dests[j].key :=
        sameDest_of_flexFindDest hfind (List.getElem?_eq_getElem hi)
      have hpairs := List.pairwise_iff_getElem.mp h
      rcases lt_trichotomy i j with hlt | rfl | hgt
      · exact absurd hsame (hpairs i j hi hj hlt)
      · exact List.getElem?_eq_getElem hi
      · exact absurd ⟨hsame.1.symm, hsame.2.1.symm, hsame.2.2.symm⟩ (hpairs j i hj hi hgt)

/-- A clean table comes back. -/
theorem restores_of_savesClean (ht : Table us n.dests) (hclean : n.SavesClean)
    (hempty : m.dests = [])
    (hlater : n.now ≤ m.now) : n.Restores m := by
  have hread : (m.readCache (some n.cacheFile)).dests =
      ((n.dests.filter fun d => d.isSaved n.now).filter m.takesBack).map fun d =>
          placeholder d.chart :=
    congrArg Node.dests (flexPathCacheLoad_saved ht hclean m.toNode hempty)
  have hsub : ((n.dests.filter fun d => d.isSaved n.now).filter m.takesBack).Sublist n.dests :=
    List.filter_sublist.trans List.filter_sublist
  have hdistinct : (m.readCache (some n.cacheFile)).dests.Pairwise
      fun d d' => ¬ SameDest d.key d'.key := by
    rw [hread]
    exact List.pairwise_map.mpr (ht.distinct.sublist hsub)
  refine ⟨?_, ?_, ?_⟩
  · intro d hd hpath hyoung hapart hends
    have hsaved : d.isSaved n.now = true := by
      have hcall := (isBase_of_flexChainEndsAt hends).nonempty
      have hage : n.now - d.pathUpdated < pathCachePersistTtl := by omega
      simp [DestEntry.isSaved, Callsign.isEmpty, hpath, hcall, hage]
    have hback : m.takesBack d = true := by
      simp [Node.takesBack, hyoung, hapart]
    refine find_of_distinct hdistinct (d := placeholder d.chart) ?_
    rw [hread]
    exact List.mem_map_of_mem (List.mem_filter.mpr ⟨List.mem_filter.mpr ⟨hd, hsaved⟩, hback⟩)
  · rw [hread, List.map_map]
    exact hsub.map DestEntry.chart
  · intro i d hd steps r hrun
    have hmem : d ∈ (m.readCache (some n.cacheFile)).dests := List.mem_of_getElem? hd
    rw [hread] at hmem
    obtain ⟨old, -, rfl⟩ := List.mem_map.mp hmem
    obtain ⟨d', hd', hkey, hdormant⟩ := Life.sleeping_run hrun ⟨_, hd, rfl, rfl, rfl, rfl⟩
    exact ⟨d', hd', hkey, hdormant.unreachable⟩

/-- A table that comes back is clean: what is read has no tab and no newline in it. -/
theorem Survives.savesClean (ht : Table n.cfg.pathCall n.dests) (h : n.Survives) :
    n.SavesClean := by
  intro d hd hsaved
  have hyoung := hsaved
  simp only [DestEntry.isSaved, Bool.and_eq_true, decide_eq_true_eq, Bool.not_eq_true',
    List.isEmpty_eq_false_iff] at hyoung
  obtain ⟨⟨hpath, -⟩, hyoung⟩ := hyoung
  have hchart := ht.chains d hd hpath
  let m : PathNode := { n with dests := [] }
  obtain ⟨i, -, hi⟩ := (h m rfl le_rfl).rows d hd hpath hyoung hchart.apart hchart.ends
  have hmem : placeholder d.chart ∈ (m.readCache (some n.cacheFile)).dests :=
    List.mem_of_getElem? hi
  have hread := Node.clean_flexPathCacheLoad (n := m.toNode)
    (fun _ hx => absurd hx List.not_mem_nil) (some n.cacheFile) _ hmem
  exact hread

end PathNode

/-- In every life, however often the node starts again, its table survives a restart exactly when no
chain it would write has a tab or a newline in it. -/
theorem Life.survives_iff {r r' : Life} {steps : List LifeStep} (hbegins : r.Begins)
    (hrun : GuardedRun Life.apply Life.Legal r steps r') :
    r'.node.Survives ↔ r'.node.SavesClean := by
  have htable := (hbegins.sound_run hrun).tabled.table
  constructor
  · intro hsurvives
    exact hsurvives.savesClean htable
  · intro hclean m hempty hlater
    exact PathNode.restores_of_savesClean htable hclean hempty hlater

/-! ## A chain with a tab in it -/

namespace Bench

/-- The small node before anything has happened. -/
def born : Life where
  node := { Node.boot (config true) [] [] links 1000 with
    pathForward := true, portMaxDigis := fun _ => 0 }

/-- `A` teaches the node `K`, and answers its probe for it with one more hop. -/
def probesK (hop : CStr) : List LifeStep :=
  [.event (.initSession 0 1), .event (.initSession 1 1), .event (record 0 0x4B 10),
    .probe (some 1) (.ofCStr [0x4B]) 0,
    .frame 0 (pathFrame 0x37 0x22 (qsoField 1 false) [[0x4E], hop, [0x4B]] [])]

theorem born_begins : born.Begins where
  fresh := ⟨rfl, fun _ => rfl, fun _ => rfl⟩
  now := by decide
  file := rfl

theorem probesK_run (hop : CStr)
    (hnow : FitsLong ((probesK hop).foldl Life.apply born).node.now) :
    GuardedRun Life.apply Life.Legal born (probesK hop) ((probesK hop).foldl Life.apply born) := by
  refine GuardedRun.of_chain ⟨⟨nofun, by decide +kernel⟩,
    ⟨nofun, by decide +kernel⟩, ⟨nofun, by decide +kernel⟩,
    ⟨trivial, by decide +kernel⟩, ⟨trivial, hnow⟩, trivial⟩

/-- The chain `A K` comes back. -/
theorem plain_chain_survives :
    ((probesK [0x41]).foldl Life.apply born).node.Survives :=
  (Life.survives_iff born_begins (probesK_run _ (by decide +kernel))).mpr (by decide +kernel)

/-- The chain of a hop `A<TAB>K` and `K` does not: it is read back as `A K`. -/
theorem tabbed_chain_mangled :
    ¬ ∀ (r r' : Life) (steps : List LifeStep), r.Begins →
      GuardedRun Life.apply Life.Legal r steps r' → r'.node.Survives := by
  intro hall
  have hrun := probesK_run [0x41, 0x09, 0x4B] (by decide +kernel)
  have hsurvives := hall _ _ _ born_begins hrun
  have htable := (born_begins.sound_run hrun).tabled.table
  have hclean := hsurvives.savesClean htable
  revert hclean
  decide +kernel

end Bench

end FlexNet
