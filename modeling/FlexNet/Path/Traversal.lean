import FlexNet.Path.Probes

/-!
# What one node does with a traversal

A node that is not adjacent to the target puts its next hop before the target and sends the request
on (`flexHandlePathReq_forwards`).  A node that is adjacent answers, and the chain of its answer is
the asker, itself and the target (`flexHandlePathReq_answers`): the nodes in between are not in it.
A node that does not find itself in the chain of an answer drops it (`flexHandlePathRep_drops`).
-/

namespace FlexNet

/-- The path frames are known by their first octet. -/
theorem frameType_path {data : CStr} {lt3byte : Bool} :
    (data.head? = some 0x36 → flexParseCeFrame lt3byte data = some .pathReq) ∧
      (data.head? = some 0x37 → flexParseCeFrame lt3byte data = some .pathRep) := by
  have hneither : ∀ c rest, c = 0x36 ∨ c = 0x37 → data = c :: rest →
      shortLinkTime (c :: rest) = false ∧ statusFrame (c :: rest) = none := by
    rintro c rest hc -
    constructor
    · unfold shortLinkTime
      split
      · rename_i heq
        cases heq
        rcases hc with rfl | rfl <;> rfl
      · rfl
    · unfold statusFrame
      split
      · rename_i heq
        cases heq
        rcases hc with rfl | rfl <;> simp
      · rfl
  cases data with
  | nil => exact ⟨nofun, nofun⟩
  | cons c rest =>
      constructor
      · intro h
        obtain rfl : c = 0x36 := by simpa using h
        obtain ⟨hshort, hstatus⟩ := hneither 0x36 rest (.inl rfl) rfl
        simp [flexParseCeFrame, hshort, hstatus]
      · intro h
        obtain rfl : c = 0x37 := by simpa using h
        obtain ⟨hshort, hstatus⟩ := hneither 0x37 rest (.inr rfl) rfl
        simp [flexParseCeFrame, hshort, hstatus]

namespace PathNode

variable {n : PathNode} {s via : Slot} {l : LinkId} {hop : UInt8} {field tail origin target : CStr}
  {calls mids hops : List CStr} {row : ℕ} {d : DestEntry} {qso : ℤ} {trace : Bool}

/-! ## Dispatch -/

theorem pathFrame_cons (type hop : UInt8) (field : CStr) (calls : List CStr) (tail : CStr) :
    pathFrame type hop field calls tail =
      type :: hop :: (field ++ (callsText calls).drop 1 ++ tail) := by
  simp [pathFrame]

/-- The type octet decides. -/
theorem frameType_pathFrame {type : UInt8} {lt3byte : Bool} (htype : type = 0x36 ∨ type = 0x37) :
    flexParseCeFrame lt3byte (pathFrame type hop field calls tail) =
      some (if type = 0x36 then .pathReq else .pathRep) := by
  rw [pathFrame_cons]
  rcases htype with rfl | rfl
  · exact frameType_path.1 rfl
  · exact frameType_path.2 rfl

/-- A path frame of a session goes to its handler. -/
theorem flexNetProcessCE_pathFrame {type : UInt8} (htype : type = 0x36 ∨ type = 0x37)
    (hs : n.flexFindSession l = some s) :
    n.flexNetProcessCE l (pathFrame type hop field calls tail) =
      if type = 0x36 then n.flexHandlePathReq s (pathFrame type hop field calls tail)
      else n.flexHandlePathRep (pathFrame type hop field calls tail) := by
  have hnode : n.toNode.flexNetProcessCE l (pathFrame type hop field calls tail) = n.toNode := by
    unfold Node.flexNetProcessCE
    rw [if_neg (by simp [pathFrame_cons]), hs]
    dsimp only
    unfold Node.handleFrame
    rw [frameType_pathFrame htype]
    rcases htype with rfl | rfl <;> rfl
  unfold flexNetProcessCE
  dsimp only
  rw [hnode, hs]
  dsimp only
  rw [frameType_pathFrame htype]
  rcases htype with rfl | rfl <;> rfl

/-! ## Requests -/

theorem bytes_ofCStr {call : CStr} (h : PathCall call) : (Callsign.ofCStr call).bytes = call :=
  List.take_of_length_le (by have := h.2.1; omega)

theorem map_bytes_ofCStr {calls : List CStr} (h : ∀ call ∈ calls, PathCall call) :
    (calls.map Callsign.ofCStr).map Callsign.bytes = calls := by
  rw [List.map_map]
  exact (List.map_congr_left fun call hcall => bytes_ofCStr (h call hcall)).trans (List.map_id _)

/-- What a node that handles a request for a target beyond it reads and finds. -/
structure Routes (n : PathNode) (target : CStr) (row : ℕ) (d : DestEntry) : Prop where
  transit : n.cfg.transit = true
  notOurs : n.cfg.flexTargetIsUs target = none
  found : n.flexFindDestForTarget target = some row
  row : n.dests[row]? = some d

/-- The header of a traversal that goes on. -/
theorem header_pathFrame (hfield : field.length = pathQsoFieldLen) :
    ((pathFrame 0x36 hop field calls tail).take pathHeaderLen).modify 1 (· + 1) =
      [0x36, hop + 1] ++ field := by
  have htake : (pathFrame 0x36 hop field calls tail).take pathHeaderLen = 0x36 :: hop :: field := by
    rw [pathFrame, List.append_assoc]
    refine List.take_left' ?_
    simp [hfield, pathHeaderLen]
    omega
  rw [htake]
  rfl

/-- A request for a target that is not ours. -/
theorem flexHandlePathReq_transit (hours : n.cfg.flexTargetIsUs target = none)
    (hcalls : ∀ call ∈ origin :: (mids ++ [target]), PathCall call)
    (hfield : field.length = pathQsoFieldLen) (hlen : mids.length + 2 < maxPathHops)
    (htail : EndsCalls tail) :
    n.flexHandlePathReq s (pathFrame 0x36 hop field (origin :: (mids ++ [target])) tail) =
      n.transitPathReq s target (readFrame 0x36 hop field origin (mids ++ [target]))
        (pathFrame 0x36 hop field (origin :: (mids ++ [target])) tail) := by
  have hparse := @parse_pathFrame _ hop _ _ _ _ (.inl rfl) hfield hcalls
    (by simp only [List.length_append, List.length_singleton]; omega) htail
  have hlast : (readFrame 0x36 hop field origin (mids ++ [target])).hops.getLast? =
      some (.ofCStr target) := by
    rw [readFrame, List.map_append, List.map_singleton, List.getLast?_concat]
  unfold flexHandlePathReq
  rw [hparse]
  dsimp only
  rw [if_neg (by simp [readFrame]), hlast]
  dsimp only
  rw [bytes_ofCStr (hcalls target (by simp)), hours]

/-- A node that is not adjacent to the target puts its next hop before the target and sends the
request on. -/
theorem flexHandlePathReq_forwards (hr : n.Routes target row d)
    (hcalls : ∀ call ∈ origin :: (mids ++ [target]), PathCall call)
    (hfield : field.length = pathQsoFieldLen) (hlen : mids.length + 2 < maxPathHops)
    (htail : EndsCalls tail) (hforward : n.pathForward = true)
    (hdirect : n.flexTargetIsDirectPeer target = false) (hcache : n.cacheUsable d = false)
    (hvia : n.healedVia d = some via) (hlive : n.live via = true) (hasker : via ≠ s)
    (hnext : PathCall (n.sessPeerCall via))
    (hnew : ∀ call ∈ origin :: (mids ++ [target]), strcasecmp call (n.sessPeerCall via) = false) :
    n.flexHandlePathReq s (pathFrame 0x36 hop field (origin :: (mids ++ [target])) tail) =
      n.sendCe via (pathFrame 0x36 (hop + 1) field
        (origin :: (mids ++ [n.sessPeerCall via, target])) [0x0D]) := by
  have hparse := @parse_pathFrame _ hop _ _ _ _ (.inl rfl) hfield hcalls
    (by simp only [List.length_append, List.length_singleton]; omega) htail
  have htarget : PathCall target := hcalls target (by simp)
  have hmids : ∀ call ∈ mids, PathCall call := fun call h => hcalls call (by simp [h])
  have hsent : forwardedFrame (n.sessPeerCall via) target
      (readFrame 0x36 hop field origin (mids ++ [target]))
      (pathFrame 0x36 hop field (origin :: (mids ++ [target])) tail) =
      some (pathFrame 0x36 (hop + 1) field (origin :: (mids ++ [n.sessPeerCall via, target]))
        [0x0D]) := by
    have hall : ∀ call ∈ origin :: (mids ++ [n.sessPeerCall via, target]), PathCall call := by
      intro call hcall
      simp only [List.mem_cons, List.mem_append, List.not_mem_nil, or_false] at hcall
      rcases hcall with rfl | hcall | rfl | rfl
      exacts [hcalls _ (by simp), hmids _ hcall, hnext, htarget]
    have hsize := length_callsText_le hall
    unfold forwardedFrame
    rw [readFrame, header_pathFrame hfield, bytes_ofCStr (hcalls origin (by simp)), List.map_append,
      List.map_singleton, List.dropLast_concat, map_bytes_ofCStr hmids, appendCalls_first]
    · rfl
    · exact fun call hcall => (hall call hcall).1
    · simp only [List.length_append, List.length_cons, List.length_nil, hfield, pathQsoFieldLen,
        maxCallsign, maxPathHops] at hsize hlen ⊢
      omega
  have hgo : n.flexForwardPathReq s target (some row)
      (readFrame 0x36 hop field origin (mids ++ [target]))
      (pathFrame 0x36 hop field (origin :: (mids ++ [target])) tail) =
      (n.sendCe via (pathFrame 0x36 (hop + 1) field
        (origin :: (mids ++ [n.sessPeerCall via, target])) [0x0D]), true) := by
    have hclear : ((readFrame 0x36 hop field origin (mids ++ [target])).hops.any fun h =>
        strcasecmp h.bytes (n.sessPeerCall via)) = false := by
      rw [readFrame, List.any_map, List.any_eq_false]
      intro call hcall
      have hmem : call ∈ origin :: (mids ++ [target]) := List.mem_cons_of_mem _ hcall
      rw [Function.comp_apply, bytes_ofCStr (hcalls call hmem), hnew call hmem]
      decide
    unfold flexForwardPathReq
    dsimp only
    rw [if_neg (by simp [hforward]), if_neg, Option.bind_some, hr.row]
    · dsimp only
      rw [hvia, Option.filter_some, if_pos hlive]
      dsimp only
      have horigin : (readFrame 0x36 hop field origin (mids ++ [target])).origin.bytes = origin :=
        bytes_ofCStr (hcalls origin (by simp))
      rw [if_neg hasker, if_neg (by simp [hnext.1]), horigin,
        if_neg (by simp [hnew origin (by simp)]), hclear, if_neg (by decide), if_neg, hsent]
      simp only [readFrame, List.length_map, List.length_append, List.length_singleton]
      omega
    · simp only [readFrame, pathFrame, pathHeaderLen, hfield, List.length_append, List.length_cons,
        List.length_nil, List.length_map]
      omega
  rw [flexHandlePathReq_transit hr.notOurs hcalls hfield hlen htail]
  unfold transitPathReq
  rw [if_neg (by simp [hr.transit]), hr.found]
  dsimp only
  rw [hr.row]
  dsimp only
  rw [if_neg (by simp [hdirect]), if_neg (by simp [hcache])]
  unfold passPathReq
  rw [hgo]

/-- A node that is adjacent to the target answers with the asker, itself and the target, whatever
the chain that the request came through. -/
theorem flexHandlePathReq_answers (hr : n.Routes target row d)
    (hcalls : ∀ call ∈ origin :: (mids ++ [target]), PathCall call)
    (hours : PathCall n.cfg.pathCall)
    (h₀ : 0 ≤ qso) (h₁ : qso < 100000) (hlen : mids.length + 2 < maxPathHops)
    (htail : EndsCalls tail) (hdirect : n.flexTargetIsDirectPeer target = true)
    (hcap : 1 ≤ n.digiCap s) :
    n.flexHandlePathReq s
        (pathFrame 0x36 hop (qsoField qso trace) (origin :: (mids ++ [target])) tail) =
      n.sendCe s
        (pathFrame 0x37 0x23 (qsoField qso trace) [origin, n.cfg.pathCall, target] []) := by
  obtain ⟨hqso, htrace⟩ := parseQso_qsoField trace h₀ h₁
  have hall : ∀ call ∈ [origin, n.cfg.pathCall, target], PathCall call := by
    intro call hcall
    simp only [List.mem_cons, List.not_mem_nil, or_false] at hcall
    rcases hcall with rfl | rfl | rfl
    exacts [hcalls _ (by simp), hours, hcalls _ (by simp)]
  rw [flexHandlePathReq_transit hr.notOurs hcalls (length_qsoField qso trace) hlen htail]
  unfold transitPathReq
  rw [if_neg (by simp [hr.transit]), hr.found]
  dsimp only
  rw [hr.row]
  dsimp only
  rw [if_pos hdirect]
  unfold answerPathReq
  rw [if_neg (by simp only [List.length_cons, List.length_nil]; omega)]
  simp only [readFrame, hqso, htrace, bytes_ofCStr (hcalls origin (by simp))]
  rw [flexBuildPathRep_eq hall (by simp [maxPathHops])
    (by simp [pathHeaderLen, pathQsoFieldLen, maxCallsign, maxPathHops])]
  dsimp only
  rw [if_neg (by simp [pathFrame])]
  rfl

/-! ## Answers -/

/-- An answer that nobody here waits for, with a chain we are not in, is dropped. -/
theorem flexHandlePathRep_drops (hcalls : ∀ call ∈ origin :: hops, PathCall call)
    (h₀ : 0 ≤ qso) (h₁ : qso < 100000) (hlen : hops.length ≤ maxPathHops) (htail : EndsCalls tail)
    (hpending : n.pendingQso qso = false)
    (habsent : ∀ call ∈ hops, strcasecmp call n.cfg.pathCall = false) :
    n.flexHandlePathRep (pathFrame 0x37 hop (qsoField qso trace) (origin :: hops) tail) = n := by
  have hparse :=
    @parse_pathFrame _ hop _ _ _ _ (.inr rfl) (length_qsoField qso trace) hcalls hlen htail
  have hmatch :
      n.matchedProbe (readFrame 0x37 hop (qsoField qso trace) origin hops).qso = none := by
    rw [matchedProbe_eq_none, readFrame, (parseQso_qsoField trace h₀ h₁).1, hpending]
  have hnobody : n.relayTo (readFrame 0x37 hop (qsoField qso trace) origin hops) = none := by
    unfold relayTo
    split
    · rfl
    · rw [Option.map_eq_none_iff, List.findIdx?_eq_none_iff, readFrame]
      intro call hcall
      obtain ⟨c, hc, rfl⟩ := List.mem_map.mp hcall
      rw [bytes_ofCStr (hcalls c (List.mem_cons_of_mem _ hc)), habsent c hc]
  unfold flexHandlePathRep
  rw [hparse]
  dsimp only
  rw [if_neg (by simp [readFrame]), hmatch]
  dsimp only
  unfold flexRelayPathRep
  split
  · rfl
  split
  · rfl
  rw [hnobody]

/-- An answer to a probe of ours, whose number no other probe has. -/
theorem flexHandlePathRep_accepts {p : ProbeSlot}
    (hcalls : ∀ call ∈ origin :: hops, PathCall call) (h₀ : 0 ≤ qso) (h₁ : qso < 100000)
    (hlen : hops.length ≤ maxPathHops) (htail : EndsCalls tail)
    (hactive : (n.probes p).active = true)
    (hqso : (n.probes p).qso = qso)
    (hown : ∀ i, (n.probes i).active = true → (n.probes i).qso = (n.probes p).qso → i = p) :
    n.flexHandlePathRep (pathFrame 0x37 hop (qsoField qso trace) (origin :: hops) tail) =
      n.acceptAnswer p (readFrame 0x37 hop (qsoField qso trace) origin hops) := by
  have hparse :=
    @parse_pathFrame _ hop _ _ _ _ (.inr rfl) (length_qsoField qso trace) hcalls hlen htail
  have hmatch :
      n.matchedProbe (readFrame 0x37 hop (qsoField qso trace) origin hops).qso = some p := by
    rw [readFrame, (parseQso_qsoField trace h₀ h₁).1, matchedProbe]
    cases hfind : (List.finRange 8).find? fun i =>
        (n.probes i).active && decide ((n.probes i).qso = qso) with
    | none =>
        have hnone := List.find?_eq_none.mp hfind p (List.mem_finRange p)
        simp [hactive, hqso] at hnone
    | some i =>
        have hi := List.find?_some hfind
        rw [Bool.and_eq_true, decide_eq_true_eq] at hi
        rw [hown i hi.1 (hi.2.trans hqso.symm)]
  unfold flexHandlePathRep
  rw [hparse]
  dsimp only
  rw [if_neg (by simp [readFrame]), hmatch]

end PathNode

end FlexNet
