import FlexNet.L3.Rtt
import FlexNet.Lib.Ownership
import FlexNet.Exchange.Inits
import FlexNet.Links.Seats
import FlexNet.Routing.Refinement

/-!
# Received buffers

`L2Code.c` hands the buffer of a CE frame to `FlexNet_ProcessCE` and never looks at it again.  The
buffer of a CF frame it keeps when `FlexNet_ProcessCF` returns 0.  What the two functions do with
the buffer is written down beside what they do to the node, one touch for each statement that reads
the payload or hands it on; `buffers_released` says which frames are released.
-/

namespace FlexNet

open Ownership

/-! ## Where a session is found or started -/

namespace Node

variable {n m : Node} {l : LinkId} {port : ℕ} {s : Slot}

/-- The row has a session. -/
def HasSession (n : Node) (l : LinkId) : Prop := (n.flexFindSession l).isSome

/-- A row without a session can be given one: a session of the same callsign on its port moves to
it, or else a slot is free. -/
def HasRoom (n : Node) (l : LinkId) (port : ℕ) : Prop :=
  (∀ i, ¬ n.OnRow i l) ∧
    match slots.find? (n.sameCallSession l port) with
    | some i => i.val < n.sessionCount
    | none =>
      match slots.find? fun i => !(n.sessions i).active with
      | some i => i.val < n.sessionCount + 1
      | none => False

theorem flexFindSession_isSome :
    (n.flexFindSession l).isSome ↔ ∃ i : Slot, i.val < n.sessionCount ∧ n.OnRow i l := by
  unfold flexFindSession OnRow
  rw [List.find?_isSome]
  simp [and_assoc]

/-- A session met again is on its row, and nothing else moves. -/
theorem reenterSession_rows (n : Node) (s : Slot) (l : LinkId) :
    (n.reenterSession s l).sessionCount = n.sessionCount ∧
      (∀ i, ((n.reenterSession s l).sessions i).active = (n.sessions i).active) ∧
      ∀ i, ((n.reenterSession s l).sessions i).link =
        if i = s then some l else (n.sessions i).link := by
  unfold reenterSession
  extract_lets x k
  have hk : ∀ i, (k.sessions i).active = (n.sessions i).active ∧
      (k.sessions i).link = if i = s then some l else (n.sessions i).link := fun i => by
    by_cases hi : i = s
    · subst hi
      rw [if_pos rfl, setSession_sessions_self]
      exact ⟨rfl, rfl⟩
    · rw [if_neg hi, setSession_sessions_of_ne _ _ hi]
      exact ⟨rfl, rfl⟩
  have hspeaks : k.Speaks s (if (k.sessions s).flexIsEstablished then k else k.rehandshake s) := by
    split
    · exact .refl k s
    · unfold rehandshake
      extract_lets y k'
      have hreset : k.Speaks s k' := speaks_setSession k rfl rfl
      exact hreset.trans ((speaks_flexSendInit k' s).trans (speaks_sendKeepalive _ s))
  exact ⟨hspeaks.sessionCount, fun i => (hspeaks.active i).trans (hk i).1,
    fun i => (hspeaks.link i).trans (hk i).2⟩

/-- `FlexNet_InitSession` gives a row without a session one when there is room. -/
theorem flexNetInitSession_found (h : ¬ n.HasSession l) :
    (n.flexNetInitSession l port).HasSession l ↔ n.HasRoom l port := by
  unfold HasSession at h ⊢
  rw [flexFindSession_isSome] at h ⊢
  unfold flexNetInitSession HasRoom
  cases hrow : slots.find? fun i => (n.sessions i).active && (n.sessions i).link == some l with
  | some i =>
    have hon : n.OnRow i l := by
      have hfound := List.find?_some hrow
      simp only [Bool.and_eq_true, beq_iff_eq] at hfound
      exact hfound
    obtain ⟨hcount, hactive, hlink⟩ := n.reenterSession_rows i l
    constructor
    · rintro ⟨j, hj, hup, hjl⟩
      rw [hcount] at hj
      rw [hactive] at hup
      refine absurd ⟨j, hj, hup, ?_⟩ h
      rw [hlink] at hjl
      split at hjl
      · rename_i hji
        rw [hji]
        exact hon.2
      · exact hjl
    · exact fun hroom => absurd hon (hroom.1 i)
  | none =>
    have hfree : ∀ i, ¬ n.OnRow i l := fun i hon => by
      have := List.find?_eq_none.mp hrow i (mem_slots i)
      simp [hon.1, hon.2] at this
    rw [and_iff_right hfree]
    cases hsame : slots.find? (n.sameCallSession l port) with
    | some i =>
      have hcall := List.find?_some hsame
      simp only [sameCallSession, Bool.and_eq_true] at hcall
      obtain ⟨⟨hup, -⟩, hlinked⟩ := hcall
      dsimp only
      cases hold : (n.sessions i).link with
      | none =>
        rw [hold] at hlinked
        cases hlinked
      | some old =>
        dsimp only
        obtain ⟨hcount, hactive, hlink⟩ := (n.flagLink old false).reenterSession_rows i l
        constructor
        · rintro ⟨j, hj, hupj, hjl⟩
          rw [hlink] at hjl
          split at hjl
          · rename_i hji
            rw [hcount] at hj
            rw [← hji]
            exact hj
          · rw [hactive] at hupj
            exact absurd ⟨hupj, hjl⟩ (hfree j)
        · intro hi
          refine ⟨i, by rw [hcount]; exact hi, (hactive i).trans hup, ?_⟩
          rw [hlink, if_pos rfl]
    | none =>
      dsimp only
      cases hdown : slots.find? fun i => !(n.sessions i).active with
      | none =>
        refine ⟨?_, False.elim⟩
        rintro ⟨i, -, hon⟩
        exact hfree i hon
      | some i =>
        dsimp only
        have hfound := List.find?_some hdown
        have hstarted := n.startSession_started i l port (by simpa using hfound)
        obtain ⟨honly, -⟩ := n.startSession_onlySlot i l port
        have hcount := (n.startSession_seats i l port).1
        have hi8 := i.isLt
        constructor
        · rintro ⟨j, hj, honj⟩
          by_cases hji : j = i
          · rw [hcount, hji] at hj
            split at hj <;> omega
          · have hsession := (honly.others j hji).2
            exact absurd (by rw [OnRow, ← hsession]; exact honj) (hfree j)
        · intro hi
          refine ⟨i, ?_, hstarted.onRow⟩
          rw [hcount]
          split <;> omega

end Node

/-! ## The calls -/

namespace PathNode

variable (n : PathNode)

/-- What `flex_forward_path_req` and `flex_defer_path_req` do with a request that is neither for
us, adjacent nor cached. -/
def passUses (s : Slot) (target : CStr) (dest : ℕ) (f : PathFrame) (data : CStr) : Trace :=
  match n.flexForwardPathReq s target (some dest) f data with
  | (_, true) => [.touch]
  | (n, false) => if (n.flexOndemandProbe dest target).2 then [.touch, .touch] else [.touch]

/-- What becomes of the payload of a request that is answered with a chain. -/
def answerUses (s : Slot) (chain : List CStr) : Trace :=
  if n.digiCap s < chain.length - 2 then [.touch] else []

/-- The payload of a request for a target that is not ours. -/
def transitUses (s : Slot) (target : CStr) (f : PathFrame) (data : CStr) : Trace :=
  if !n.cfg.transit then []
  else match n.flexFindDestForTarget target with
    | none => []
    | some i =>
      match n.dests[i]? with
      | none => []
      | some d =>
        if n.flexTargetIsDirectPeer target then
          n.answerUses s [f.origin.bytes, n.cfg.pathCall, target]
        else if n.cacheUsable d then
          n.answerUses s ([f.origin.bytes, n.cfg.pathCall] ++
            ((d.path.filter fun h => !h.isEmpty).take (maxPathHops - 2)).map Callsign.bytes)
        else n.passUses s target i f data

/-- `flex_handle_path_req`: a frame that is not understood is noted. -/
def pathReqUses (s : Slot) (data : CStr) : Trace :=
  match flexParsePathFrame data with
  | none => [.touch, .touch]
  | some f =>
    if f.isReply then [.touch, .touch]
    else match f.hops.getLast? with
      | none => [.touch, .touch]
      | some last =>
        .touch :: match n.cfg.flexTargetIsUs last.bytes with
        | none => n.transitUses s last.bytes f data
        | some .node => n.answerUses s [f.origin.bytes, n.cfg.pathCall]
        | some .localCall => n.answerUses s [f.origin.bytes, n.cfg.pathCall, last.bytes]

/-- `flex_handle_path_rep`: an answer to somebody else is passed on as it is.  The parked requests
an answer of ours is good for are copies. -/
def pathRepUses (data : CStr) : Trace :=
  match flexParsePathFrame data with
  | none => [.touch, .touch]
  | some f =>
    if !f.isReply then [.touch, .touch]
    else match n.matchedProbe f.qso with
      | none => [.touch, .touch]
      | some _ => [.touch]

/-- The `switch` of `FlexNet_ProcessCE`. -/
def handleCe (s : Slot) (data : CStr) : PathNode × Trace :=
  let handled : PathNode := { n with toNode := n.toNode.handleFrame s data }
  match flexParseCeFrame n.cfg.lt3byte data with
  | some .init => (handled, if 2 ≤ data.length then [.touch] else [])
  | some .keepalive =>
    (handled, if 2 ≤ data.length ∧ data.length ≤ 241 then [.touch] else [])
  | some .linkTime => (handled, [.touch])
  | some .token => (handled, [.touch])
  | some .statusPos => (handled, [])
  | some .statusNeg => (handled, [])
  | some .status10 => (handled, [])
  | some .status1n => (handled, [.touch])
  | some .compact => (handled, [.touch])
  | some .pathReq => (n.flexHandlePathReq s data, n.pathReqUses s data)
  | some .pathRep => (n.flexHandlePathRep data, n.pathRepUses data)
  | none => (handled, [.touch])

/-- The session a CE frame is for is found, or started. -/
def withSession (l : LinkId) : PathNode :=
  if (n.flexFindSession l).isSome then n
  else { n with toNode := n.toNode.flexNetInitSession l ((n.links l).port.getD 0) }

/-- `FlexNet_ProcessCE` on a buffer: the node, and what was done with the buffer.  `buffer` is its
PID octet and what follows. -/
def processCe (l : LinkId) (buffer : CStr) : PathNode × Trace :=
  if buffer.length < 2 then (n, [])
  else
    let data := buffer.drop 1
    let n := n.withSession l
    match n.flexFindSession l with
    | none => (n, [])
    | some s => ((n.handleCe s data).1, .touch :: (n.handleCe s data).2 ++ [.release])

/-- The L3RTT path of `FlexNet_ProcessCF`. -/
def l3rttUses (pending : List CStr) (data : CStr) : Trace :=
  .touch ::
    if flexCheckProbeReply pending data then []
    else .touch ::
      if (flexParseL3rttCounters data).isSome then
        .touch :: if flexl3IsConnectionFrame data then [.touch] else []
      else [.touch]

/-- `FlexNet_ProcessCF` on a buffer. -/
def processCf (pending : List CStr) (l : LinkId) (buffer : CStr) : CfResult × Trace :=
  if buffer.length < 2 then (.dropped, [.release])
  else
    let data := buffer.drop 1
    -- the preview and the search for the tag
    let seen : Trace := [.touch, .touch]
    if flexFindL3rttTag data then (.l3rtt, seen ++ l3rttUses pending data ++ [.release])
    else if !n.cfg.transit ∨ data.length < 20 then (.toLocal, seen)
    else if (l3Dst data).call == n.cfg.myCall.call then (.toLocal, seen ++ [.touch])
    else
      let dst := flexNormalizeCallsign (l3Dst data)
      match n.dests.find? (DestEntry.cfMatches (n.arrivalSession l) dst) with
      | none => (.toLocal, seen ++ [.touch, .touch])
      | some d =>
        match d.viaSession.filter n.live with
        | none => (.toLocal, seen ++ [.touch, .touch])
        | some via =>
          if l3Ttl data ≤ 1 then (.dropped, seen ++ [.touch, .touch, .touch] ++ [.release])
          else
            -- the TTL is read and written, the opcode logged, and the frame sent
            (.forwarded via (data.set 14 (l3Ttl data - 1)),
              seen ++ [.touch, .touch, .touch, .touch, .touch, .touch] ++ [.release])

end PathNode

/-- `FlexNet_ProcessCF` returns 1. -/
def CfResult.handled : CfResult → Bool
  | .toLocal => false
  | _ => true

namespace PathNode

variable {n : PathNode} {l : LinkId} {buffer data : CStr} {s : Slot}

/-! ## They are the functions of the model -/

theorem handleFrame_cfg (n : Node) {s : Slot} (data : CStr) (hon : n.OnRow s l) :
    (n.handleFrame s data).cfg = n.cfg := by
  have hserves : n.Serves (fun _ _ _ => True) (.processCE l data) s l (n.handleFrame s data) :=
    n.serves_handleFrame rfl
  exact (hserves hon).2.2

/-- The dispatch is that of the model. -/
theorem handleCe_fst (hfound : n.flexFindSession l = some s) :
    (n.handleCe s data).1 =
      let m : PathNode := { n with toNode := n.toNode.handleFrame s data }
      match m.flexFindSession l with
      | none => m
      | some s =>
        match flexParseCeFrame m.cfg.lt3byte data with
        | some .pathReq => m.flexHandlePathReq s data
        | some .pathRep => m.flexHandlePathRep data
        | _ => m := by
  have hcfg := handleFrame_cfg n.toNode data (Node.onRow_of_flexFindSession hfound)
  have hsame : ∀ type, type = FrameType.pathReq ∨ type = .pathRep →
      flexParseCeFrame n.cfg.lt3byte data = some type → n.toNode.handleFrame s data = n.toNode := by
    rintro type (rfl | rfl) hparse <;> rw [Node.handleFrame, hparse]
  have hother : ∀ m : PathNode, flexParseCeFrame m.cfg.lt3byte data ≠ some .pathReq →
      flexParseCeFrame m.cfg.lt3byte data ≠ some .pathRep →
      m = match m.flexFindSession l with
        | none => m
        | some s =>
          match flexParseCeFrame m.cfg.lt3byte data with
          | some .pathReq => m.flexHandlePathReq s data
          | some .pathRep => m.flexHandlePathRep data
          | _ => m := by
    intro m hreq hrep
    split
    · rfl
    · split
      · exact absurd ‹_› hreq
      · exact absurd ‹_› hrep
      · rfl
  unfold handleCe
  cases hparse : flexParseCeFrame n.cfg.lt3byte data with
  | none => exact hother _ (by simp [hcfg, hparse]) (by simp [hcfg, hparse])
  | some type =>
    by_cases hpath : type = .pathReq ∨ type = .pathRep
    · have hkept := hsame type hpath hparse
      dsimp only
      rw [hkept]
      rcases hpath with rfl | rfl <;> simp only [hfound, hparse]
    · have hm := hother { n with toNode := n.toNode.handleFrame s data }
        (by rw [hcfg, hparse]; simpa using fun h => hpath (.inl h))
        (by rw [hcfg, hparse]; simpa using fun h => hpath (.inr h))
      cases type with
      | pathReq => exact absurd (.inl rfl) hpath
      | pathRep => exact absurd (.inr rfl) hpath
      | _ => exact hm

theorem processCe_fst (n : PathNode) (l : LinkId) (buffer : CStr) :
    (n.processCe l buffer).1 = n.flexNetProcessCE l (buffer.drop 1) := by
  unfold processCe
  by_cases hshort : buffer.length < 2
  · have hnil : buffer.drop 1 = [] := List.drop_of_length_le (by omega)
    rw [if_pos hshort, hnil]
    unfold flexNetProcessCE
    dsimp only
    split <;> rfl
  · rw [if_neg hshort]
    have hne : (buffer.drop 1).isEmpty = false := by
      rw [List.isEmpty_eq_false_iff, ← List.length_pos_iff, List.length_drop]
      omega
    generalize buffer.drop 1 = data at hne
    have hframe : ({ n with toNode := n.toNode.flexNetProcessCE l data } : PathNode) =
        match (n.withSession l).flexFindSession l with
        | none => n.withSession l
        | some s =>
          { n.withSession l with toNode := (n.withSession l).toNode.handleFrame s data } := by
      unfold withSession Node.flexNetProcessCE
      rw [hne]
      cases hfind : n.flexFindSession l with
      | some s => simp only [Bool.false_eq_true, if_false, Option.isSome_some, if_true, hfind]
      | none =>
        simp only [Bool.false_eq_true, if_false, Option.isSome_none]
        generalize n.toNode.flexNetInitSession l ((n.links l).port.getD 0) = k
        cases k.flexFindSession l <;> rfl
    have hce : n.flexNetProcessCE l data =
        let m : PathNode := { n with toNode := n.toNode.flexNetProcessCE l data }
        match m.flexFindSession l with
        | none => m
        | some s =>
          match flexParseCeFrame m.cfg.lt3byte data with
          | some .pathReq => m.flexHandlePathReq s data
          | some .pathRep => m.flexHandlePathRep data
          | _ => m := rfl
    rw [hce, hframe]
    cases hfind : (n.withSession l).flexFindSession l with
    | none => simp only [hfind]
    | some s => simpa only [hfind] using handleCe_fst hfind

theorem processCf_fst (n : PathNode) (pending : List CStr) (l : LinkId) (buffer : CStr) :
    (n.processCf pending l buffer).1 = n.flexNetProcessCF l (buffer.drop 1) := by
  have hempty : (buffer.drop 1).isEmpty = decide (buffer.length < 2) := by
    rw [Bool.eq_iff_iff, List.isEmpty_iff, List.drop_eq_nil_iff, decide_eq_true_eq]
    omega
  unfold processCf flexNetProcessCF
  rw [hempty]
  by_cases hshort : buffer.length < 2
  · simp [hshort]
  · simp only [hshort, if_false, decide_false, Bool.false_eq_true]
    split
    · rfl
    split
    · rfl
    split
    · rfl
    cases n.dests.find? (DestEntry.cfMatches (n.arrivalSession l)
        (flexNormalizeCallsign (l3Dst (buffer.drop 1)))) with
    | none => rfl
    | some d =>
      dsimp only
      cases d.viaSession.filter n.live with
      | none => rfl
      | some via =>
        dsimp only
        split <;> rfl

/-! ## Nothing that is called releases the buffer -/

theorem unreleased_answerUses (n : PathNode) (s : Slot) (chain : List CStr) :
    Unreleased (n.answerUses s chain) := by
  unfold answerUses
  split <;> simp

theorem unreleased_passUses (n : PathNode) (s : Slot) (target : CStr) (dest : ℕ) (f : PathFrame)
    (data : CStr) : Unreleased (n.passUses s target dest f data) := by
  unfold passUses
  split
  · simp
  · split <;> simp

theorem unreleased_transitUses (n : PathNode) (s : Slot) (target : CStr) (f : PathFrame)
    (data : CStr) :
    Unreleased (n.transitUses s target f data) := by
  unfold transitUses
  split
  · exact unreleased_nil
  split
  · exact unreleased_nil
  split
  · exact unreleased_nil
  split
  · exact unreleased_answerUses n s _
  split
  · exact unreleased_answerUses n s _
  · exact unreleased_passUses n s target _ f data

theorem unreleased_pathReqUses (n : PathNode) (s : Slot) (data : CStr) :
    Unreleased (n.pathReqUses s data) := by
  unfold pathReqUses
  split
  · simp
  split
  · simp
  split
  · simp
  rw [unreleased_touch]
  split
  · exact unreleased_transitUses n s _ _ data
  · exact unreleased_answerUses n s _
  · exact unreleased_answerUses n s _

theorem unreleased_pathRepUses (n : PathNode) (data : CStr) : Unreleased (n.pathRepUses data) := by
  unfold pathRepUses
  split
  · simp
  split
  · simp
  split <;> simp

theorem unreleased_handleCe (n : PathNode) (s : Slot) (data : CStr) :
    Unreleased (n.handleCe s data).2 := by
  unfold handleCe
  dsimp only
  split
  · dsimp only
    split <;> simp
  · dsimp only
    split <;> simp
  all_goals
    first
    | exact unreleased_pathReqUses n s data
    | exact unreleased_pathRepUses n data
    | simp

theorem unreleased_l3rttUses (pending : List CStr) (data : CStr) :
    Unreleased (l3rttUses pending data) := by
  unfold l3rttUses
  rw [unreleased_touch]
  split
  · exact unreleased_nil
  · rw [unreleased_touch]
    split
    · rw [unreleased_touch]
      split <;> simp
    · simp

/-! ## Who releases what -/

/-- A CE frame is released when it has an octet behind its PID and a session can be found or
started. -/
theorem processCe_released_iff (n : PathNode) (l : LinkId) (buffer : CStr) :
    Released (n.processCe l buffer).2 ↔
      2 ≤ buffer.length ∧ (n.HasSession l ∨ n.HasRoom l ((n.links l).port.getD 0)) := by
  have hsession : ((n.withSession l).flexFindSession l).isSome ↔
      n.HasSession l ∨ n.HasRoom l ((n.links l).port.getD 0) := by
    unfold withSession
    by_cases hfound : n.HasSession l
    · have hsome : (n.flexFindSession l).isSome = true := hfound
      rw [if_pos hsome]
      exact iff_of_true hfound (.inl hfound)
    · have hnone : ¬ (n.flexFindSession l).isSome = true := hfound
      rw [if_neg hnone, or_iff_right hfound]
      exact Node.flexNetInitSession_found hfound
  unfold processCe
  by_cases hshort : buffer.length < 2
  · rw [if_pos hshort]
    exact iff_of_false unreleased_nil.not_released fun h => by omega
  · rw [if_neg hshort, and_iff_right (not_lt.mp hshort), ← hsession]
    dsimp only
    cases (n.withSession l).flexFindSession l with
    | none => exact iff_of_false unreleased_nil.not_released (by simp)
    | some s =>
      refine iff_of_true (Unreleased.released ?_) rfl
      rw [unreleased_touch]
      exact unreleased_handleCe _ s _

/-- A CF frame is released when the function returns 1, and kept when it returns 0. -/
theorem processCf_released (n : PathNode) (pending : List CStr) (l : LinkId) (buffer : CStr) :
    ((n.processCf pending l buffer).1.handled = true → Released (n.processCf pending l buffer).2) ∧
      ((n.processCf pending l buffer).1.handled = false →
        Unreleased (n.processCf pending l buffer).2) := by
  unfold processCf
  split
  · exact ⟨fun _ => unreleased_nil.released, fun h => by cases h⟩
  extract_lets data seen dst
  have hseen : Unreleased seen := by simp [seen]
  split
  · exact ⟨fun _ => (unreleased_append.mpr ⟨hseen, unreleased_l3rttUses pending data⟩).released,
      fun h => by cases h⟩
  split
  · exact ⟨fun h => (by cases h), fun _ => hseen⟩
  split
  · exact ⟨fun h => (by cases h), fun _ => unreleased_append.mpr ⟨hseen, by simp⟩⟩
  split
  · exact ⟨fun h => (by cases h), fun _ => unreleased_append.mpr ⟨hseen, by simp⟩⟩
  split
  · exact ⟨fun h => (by cases h), fun _ => unreleased_append.mpr ⟨hseen, by simp⟩⟩
  split
  · exact ⟨fun _ => (unreleased_append.mpr ⟨hseen, by simp⟩).released, fun h => by cases h⟩
  · exact ⟨fun _ => (unreleased_append.mpr ⟨hseen, by simp⟩).released, fun h => by cases h⟩

/-- Received buffers are released once and not touched afterwards, except by `FlexNet_ProcessCE`
when the frame ends after its PID or there is no session and no room for one. -/
theorem buffers_released (n : PathNode) (pending : List CStr) (l : LinkId) (buffer : CStr) :
    (Released (n.processCe l buffer).2 ↔
      2 ≤ buffer.length ∧ (n.HasSession l ∨ n.HasRoom l ((n.links l).port.getD 0))) ∧
    ((n.processCf pending l buffer).1.handled = true → Released (n.processCf pending l buffer).2) ∧
    ((n.processCf pending l buffer).1.handled = false →
      Unreleased (n.processCf pending l buffer).2) :=
  ⟨n.processCe_released_iff l buffer, n.processCf_released pending l buffer⟩

end PathNode

namespace Bench

/-- `A` sends a CE frame without contents, and its buffer is not released. -/
theorem empty_frame_leaks : ¬ ∀ (n : PathNode) (l : LinkId) (buffer : CStr),
    Released (n.processCe l buffer).2 := by
  intro hall
  have hreleased := hall PathNode.small 0 [pidCE]
  exact unreleased_nil.not_released hreleased

end Bench

end FlexNet
