import FlexNet.Exchange.Paths
import FlexNet.Path.Onward
import FlexNet.L2.Resolver

/-!
# The chains of our own answers

A type-7 of `flex_handle_path_req` is the asker, the node, and the way from here to the target: the
target itself, or the cached chain of its row.  The cached chain was compared with the node's own
callsign when it was learned, and never with the asker's; `PathNode.answers_usable_iff` says which
requests get a chain with a callsign in it twice.
-/

namespace FlexNet

/-- The base call of a callsign. -/
def baseOf (call : CStr) : CStr := (splitFirstDash call).1

namespace PathNode

variable {n m : PathNode} {s i : Slot} {f : PathFrame} {data frame target : CStr}
  {chain way : List CStr} {last : Callsign}

/-- What is behind the node on the way to a target it answers for. -/
def wayTo (n : PathNode) (target : CStr) : Option (List CStr) :=
  match n.cfg.flexTargetIsUs target with
  | some .node => some []
  | some .localCall => some [target]
  | none =>
    if !n.cfg.transit then none
    else ((n.flexFindDestForTarget target).bind fun i => n.dests[i]?).bind fun d =>
      if n.flexTargetIsDirectPeer target then some [target]
      else if n.cacheUsable d then some ((d.path.filter fun h => !h.isEmpty).map Callsign.bytes)
      else none

/-- `reply_hops`, which has room for 16 callsigns. -/
def replyHops (n : PathNode) (f : PathFrame) (way : List CStr) : List CStr :=
  [f.origin.bytes, n.cfg.pathCall] ++ way.take (maxPathHops - 2)

/-- A request that is read. -/
structure RequestFor (data : CStr) (f : PathFrame) (target : CStr) : Prop where
  parsed : flexParsePathFrame data = some f
  request : f.isReply = false
  target : ∃ last, f.hops.getLast? = some last ∧ last.bytes = target

/-- The answer the node builds to a request, and the chain in it. -/
structure Builds (n : PathNode) (s : Slot) (f : PathFrame) (target : CStr) (chain : List CStr)
    (frame : CStr) : Prop where
  byWay : ∃ way, n.wayTo target = some way ∧ chain = n.replyHops f way
  fits : chain.length - 2 ≤ n.digiCap s
  frame : flexBuildPathRep 256 f.qso f.trace chain = some frame

/-! ## What handling a request sends -/

/-- A request is answered by the way to its target, or passed on. -/
theorem flexHandlePathReq_eq (hasks : RequestFor data f target) :
    (∃ way, n.wayTo target = some way ∧
      n.flexHandlePathReq s data = n.answerPathReq s target f data (n.replyHops f way)) ∨
    n.wayTo target = none ∧ (n.flexHandlePathReq s data = n ∨
      ∃ i, n.flexHandlePathReq s data = n.passPathReq s target i f data) := by
  obtain ⟨last, hlast, rfl⟩ := hasks.target
  have hrequest : ¬ f.isReply = true := by simp [hasks.request]
  unfold flexHandlePathReq wayTo
  rw [hasks.parsed]
  dsimp only
  rw [if_neg hrequest, hlast]
  dsimp only
  cases hus : n.cfg.flexTargetIsUs last.bytes with
  | some us =>
      cases us with
      | node => exact .inl ⟨[], rfl, rfl⟩
      | localCall => exact .inl ⟨[last.bytes], rfl, rfl⟩
  | none =>
      dsimp only
      unfold transitPathReq
      by_cases hoff : (!n.cfg.transit) = true
      · rw [if_pos hoff, if_pos hoff]
        exact .inr ⟨rfl, .inl rfl⟩
      rw [if_neg hoff, if_neg hoff]
      cases n.flexFindDestForTarget last.bytes with
      | none => exact .inr ⟨rfl, .inl rfl⟩
      | some i =>
          rw [Option.bind_some]
          dsimp only
          cases n.dests[i]? with
          | none => exact .inr ⟨rfl, .inl rfl⟩
          | some d =>
              rw [Option.bind_some]
              dsimp only
              split_ifs
              · exact .inl ⟨[last.bytes], rfl, rfl⟩
              · refine .inl ⟨_, rfl, ?_⟩
                rw [replyHops, List.map_take]
              · exact .inr ⟨rfl, .inr ⟨i, rfl⟩⟩

theorem not_sends_of_peers (hpeers : m.peers = n.peers) : ¬ n.Sends m i frame := by
  unfold Sends
  rw [hpeers]
  simp

theorem RequestFor.head (hasks : RequestFor data f target) : data.head? = some 0x36 := by
  have hparsed := hasks.parsed
  have hrequest := hasks.request
  unfold flexParsePathFrame at hparsed
  dsimp only at hparsed
  split_ifs at hparsed with hshort htype
  rw [Option.some.injEq] at hparsed
  rw [← hparsed] at hrequest
  by_contra hnot
  have hreply : data.head? = some 0x37 := by
    by_contra hneither
    exact htype ⟨hnot, hneither⟩
  simp [hreply] at hrequest

/-- A traversal that goes on is a request. -/
theorem head_forwardedFrame {next : CStr} (hhead : data.head? = some 0x36)
    (h : forwardedFrame next target f data = some frame) : frame.head? = some 0x36 := by
  unfold forwardedFrame at h
  obtain ⟨text, htext, rfl⟩ := Option.map_eq_some_iff.mp h
  have hheader : ((data.take pathHeaderLen).modify 1 (· + 1)).head? = some 0x36 := by
    obtain ⟨b, rest, rfl⟩ : ∃ b rest, data = b :: rest := by
      cases data with
      | nil => cases hhead
      | cons b rest => exact ⟨b, rest, rfl⟩
    have htake : (b :: rest).take pathHeaderLen = b :: rest.take (pathHeaderLen - 1) := rfl
    rw [htake]
    exact hhead
  have hfirst := head_appendCalls hheader htext
  cases text with
  | nil => cases hfirst
  | cons b rest => exact hfirst

theorem head_flexForwardPathReq {dest : Option ℕ} (hasks : RequestFor data f target)
    (h : n.Sends (n.flexForwardPathReq s target dest f data).1 i frame) :
    frame.head? = some 0x36 := by
  generalize hres : n.flexForwardPathReq s target dest f data = r at h
  obtain ⟨m, sent⟩ := r
  cases sent with
  | false =>
      rcases n.flexForwardPathReq_cases s target dest f data with hnone | ⟨via, queued, hsome⟩
      · rw [hres] at hnone
        cases hnone
        exact absurd h (not_sends_of_peers rfl)
      · rw [hres] at hsome
        cases hsome
  | true =>
      obtain ⟨via, built, -, hbuilt, rfl⟩ := flexForwardPathReq_sends hres
      obtain ⟨-, rfl⟩ := sends_sendCe h
      exact head_forwardedFrame hasks.head hbuilt

/-- So is a probe of our own. -/
theorem head_flexOndemandProbe {dest : ℕ}
    (h : n.Sends (n.flexOndemandProbe dest target).1 i frame) : frame.head? = some 0x36 := by
  have hprobed : ∀ dest target, (n.flexProbeSession dest target).1.peers = n.peers :=
    fun dest target => by
      unfold flexProbeSession
      dsimp only
      split
      · split
        · rfl
        · split <;> rfl
      · rfl
  have hreq : ∀ dest call ssid m r, n.flexSendPathReqEx dest call ssid = (m, r) →
      n.Sends m i frame → frame.head? = some 0x36 := fun dest call ssid m r hres hsends => by
    cases r with
    | error err =>
        refine absurd hsends (not_sends_of_peers ?_)
        have hpeers := hprobed dest (probeTarget call ssid)
        unfold flexSendPathReqEx at hres
        dsimp only at hres
        split at hres
        · cases hres
          rfl
        split at hres
        · rename_i heq
          rw [heq] at hpeers
          cases hres
          exact hpeers
        · rename_i heq
          rw [heq] at hpeers
          split at hres
          · cases hres
            exact hpeers
          · split at hres
            · cases hres
              exact hpeers
            · cases hres
    | ok p =>
        obtain ⟨o, via, counter, qso, built, hvia, -, hbuilt, rfl⟩ := flexSendPathReqEx_ok hres
        have hpeers := hprobed dest (probeTarget call ssid)
        rw [hvia] at hpeers
        have hsent : o.Sends (o.sendCe via built) i frame := by
          unfold Sends at hsends ⊢
          rw [show o.peers = n.peers from hpeers]
          exact hsends
        obtain ⟨-, rfl⟩ := sends_sendCe hsent
        rw [flexBuildPathReq_some hbuilt]
        rfl
  unfold flexOndemandProbe at h
  dsimp only at h
  split at h
  · exact absurd h (not_sends_of_peers rfl)
  split at h
  · exact absurd h (not_sends_of_peers rfl)
  split at h
  · exact absurd h (not_sends_of_peers rfl)
  split at h
  · rename_i heq
    exact hreq _ _ _ _ _ heq h
  · rename_i heq
    exact hreq _ _ _ _ _ heq h

/-- The type-7 frames a request brings about are the answers that were built. -/
theorem builds_of_sends (hasks : RequestFor data f target)
    (h : n.Sends (n.flexHandlePathReq s data) i frame) (hreply : frame.head? = some 0x37) :
    i = s ∧ ∃ chain, n.Builds s f target chain frame := by
  have hnot : ¬ frame.head? = some 0x36 := by
    rw [hreply]
    decide
  rcases flexHandlePathReq_eq (n := n) (s := s) hasks with ⟨way, hway, heq⟩ | ⟨-, heq | ⟨row, heq⟩⟩
  · rw [heq] at h
    unfold answerPathReq at h
    split at h
    · exact absurd (head_flexForwardPathReq hasks h) hnot
    rename_i hcap
    split at h
    · exact absurd h (not_sends_of_peers rfl)
    rename_i built hbuilt
    split at h
    · exact absurd h (not_sends_of_peers rfl)
    obtain ⟨rfl, rfl⟩ := sends_sendCe h
    exact ⟨rfl, _, ⟨way, hway, rfl⟩, not_lt.mp hcap, hbuilt⟩
  · rw [heq] at h
    exact absurd h (not_sends_of_peers rfl)
  · rw [heq] at h
    unfold passPathReq at h
    split at h
    · rename_i hforward
      have hhead : n.Sends (n.flexForwardPathReq s target (some row) f data).1 i frame := by
        rw [hforward]
        exact h
      exact absurd (head_flexForwardPathReq hasks hhead) hnot
    · rename_i o hforward
      obtain rfl : o = n := by
        rcases n.flexForwardPathReq_cases s target (some row) f data with hn | ⟨via, queued, hsome⟩
        · rw [hforward] at hn
          exact ((Prod.mk.injEq ..).mp hn).1
        · rw [hforward] at hsome
          cases hsome
      split at h
      · rename_i hprobe
        have hsent : o.Sends (o.flexOndemandProbe row target).1 i frame := by
          rw [hprobe]
          unfold Sends at h ⊢
          rwa [show (PathNode.flexDeferPathReq _ s target data).peers = _ from
            congrArg Node.peers (flexDeferPathReq_fields _ s target data).1] at h
        exact absurd (head_flexOndemandProbe hsent) hnot
      · rename_i hprobe
        have hsent : o.Sends (o.flexOndemandProbe row target).1 i frame := by
          rw [hprobe]
          exact h
        exact absurd (head_flexOndemandProbe hsent) hnot

/-! ## The chain -/

/-- A callsign stands for a target: it is the target, or has its base and is in the range of the
node or of the row the target is found in. -/
def Denotes (n : PathNode) (target last : CStr) : Prop :=
  strcasecmp last target = true ∨ strcasecmp (baseOf last) (baseOf target) = true ∧
    (n.cfg.ownSsidRange.1 ≤ ssidOf (splitFirstDash last).2 ∧
        ssidOf (splitFirstDash last).2 ≤ n.cfg.ownSsidRange.2 ∧
        n.cfg.flexTargetIsUs target = some .node ∨
      ∃ i d, n.flexFindDestForTarget target = some i ∧ n.dests[i]? = some d ∧
        flexCallInRange last d.key.call.bytes d.key.lo d.key.hi = true)

/-- A chain the asker can connect by. -/
structure UsableChain (n : PathNode) (s : Slot) (f : PathFrame) (target : CStr)
    (chain : List CStr) : Prop where
  asker : chain[0]? = some f.origin.bytes
  node : chain[1]? = some n.cfg.pathCall
  ends : ∃ last, chain.getLast? = some last ∧ n.Denotes target last
  digis : chain.length - 2 ≤ l2MaxDigis ∧ ∀ l port, (n.sessions s).link = some l →
    (n.links l).port = some port → n.portMaxDigis port ≠ 0 → chain.length - 2 ≤ n.portMaxDigis port
  whole : ∀ i d, n.cfg.flexTargetIsUs target = none → n.flexTargetIsDirectPeer target = false →
    n.flexFindDestForTarget target = some i → n.dests[i]? = some d →
      chain.drop 2 = (d.path.filter fun h => !h.isEmpty).map Callsign.bytes
  once : chain.Pairwise fun a b => strcasecmp a b = false

/-- The way to the target does not lead through the asker or to a callsign twice. -/
structure LeadsOn (n : PathNode) (f : PathFrame) (target : CStr) (way : List CStr) : Prop where
  notUs : strcasecmp f.origin.bytes n.cfg.pathCall = false
  notAsker : ∀ call ∈ way, strcasecmp f.origin.bytes call = false
  once : way.Pairwise fun a b => strcasecmp a b = false
  beyond : n.cfg.flexTargetIsUs target = some .localCall → strcasecmp n.cfg.pathCall target = false

/-- How the way was found. -/
theorem wayTo_cases (h : n.wayTo target = some way) :
    n.cfg.flexTargetIsUs target = some .node ∧ way = [] ∨
    n.cfg.flexTargetIsUs target = some .localCall ∧ way = [target] ∨
    n.cfg.flexTargetIsUs target = none ∧ ∃ i d, n.flexFindDestForTarget target = some i ∧
      n.dests[i]? = some d ∧ (n.flexTargetIsDirectPeer target = true ∧ way = [target] ∨
        n.flexTargetIsDirectPeer target = false ∧ n.cacheUsable d = true ∧
          way = (d.path.filter fun h => !h.isEmpty).map Callsign.bytes) := by
  unfold wayTo at h
  split at h
  · rename_i hus
    exact .inl ⟨hus, (Option.some.inj h).symm⟩
  · rename_i hus
    exact .inr (.inl ⟨hus, (Option.some.inj h).symm⟩)
  · rename_i hus
    refine .inr (.inr ⟨hus, ?_⟩)
    split at h
    · cases h
    obtain ⟨d, hd, hway⟩ := Option.bind_eq_some_iff.mp h
    obtain ⟨i, hi, hrow⟩ := Option.bind_eq_some_iff.mp hd
    refine ⟨i, d, hi, hrow, ?_⟩
    split at hway
    · rename_i hdirect
      exact .inl ⟨hdirect, (Option.some.inj hway).symm⟩
    rename_i hdirect
    split at hway
    · rename_i hcache
      exact .inr ⟨by simpa using hdirect, hcache, (Option.some.inj hway).symm⟩
    · cases hway

theorem digiCap_le (n : PathNode) (s : Slot) : n.digiCap s ≤ l2MaxDigis := by
  unfold digiCap
  split
  · exact le_rfl
  · split
    · exact le_rfl
    · exact min_le_right _ _

/-- A way that fits goes into the chain whole. -/
theorem take_way (h : (n.replyHops f way).length - 2 ≤ n.digiCap s) :
    way.take (maxPathHops - 2) = way ∧ way.length ≤ n.digiCap s := by
  have hcap := n.digiCap_le s
  unfold replyHops maxPathHops at *
  simp only [List.length_append, List.length_cons, List.length_nil, List.length_take] at h
  rw [l2MaxDigis] at hcap
  exact ⟨List.take_of_length_le (by omega), by omega⟩

/-- Callsigns that fit in their fields fit in a frame. -/
theorem appendCalls_fits {buflen margin : ℕ} {skip first : Bool} {calls : List CStr} {frame : CStr}
    (hcalls : ∀ call ∈ calls, call.length ≤ 9)
    (hfit : frame.length + 10 * calls.length + margin < buflen) :
    ∃ built, appendCalls buflen margin skip first calls frame = some built := by
  induction calls generalizing first frame with
  | nil => exact ⟨frame, rfl⟩
  | cons call calls ih =>
      have hcall := hcalls call (List.mem_cons_self ..)
      have hrest : ∀ c ∈ calls, c.length ≤ 9 := fun c hc => hcalls c (List.mem_cons_of_mem _ hc)
      rw [List.length_cons] at hfit
      have hsep : (if first then [] else [0x20] : CStr).length ≤ 1 := by
        cases first <;> decide
      unfold appendCalls
      split
      · exact ih hrest (by omega)
      · dsimp only
        rw [if_neg (by omega)]
        refine ih hrest ?_
        simp only [List.length_append]
        omega

/-- A way that fits is answered by. -/
theorem builds_of_way (hasks : RequestFor data f target) (hway : n.wayTo target = some way)
    (hfits : way.length ≤ n.digiCap s) :
    ∃ frame, n.Builds s f target ([f.origin.bytes, n.cfg.pathCall] ++ way) frame := by
  obtain ⟨last, -, hlast⟩ := hasks.target
  have htarget : target.length ≤ 9 := hlast ▸ last.le
  have hlen : way.length ≤ l2MaxDigis := hfits.trans (n.digiCap_le s)
  rw [l2MaxDigis] at hlen
  have hchain : [f.origin.bytes, n.cfg.pathCall] ++ way = n.replyHops f way := by
    rw [replyHops, List.take_of_length_le]
    exact hlen.trans (by decide)
  have hcalls : ∀ call ∈ [f.origin.bytes, n.cfg.pathCall] ++ way, call.length ≤ 9 := by
    intro call hcall
    simp only [List.cons_append, List.nil_append, List.mem_cons] at hcall
    rcases hcall with rfl | rfl | hcall
    · exact f.origin.le
    · exact length_flexNormalizeCallsign_le _
    · rcases wayTo_cases hway with ⟨-, rfl⟩ | ⟨-, rfl⟩ | ⟨-, i, d, -, -, ⟨-, rfl⟩ | ⟨-, -, rfl⟩⟩
      · cases hcall
      · exact List.mem_singleton.mp hcall ▸ htarget
      · exact List.mem_singleton.mp hcall ▸ htarget
      · obtain ⟨hop, -, rfl⟩ := List.mem_map.mp hcall
        exact hop.le
  have hsize : ([f.origin.bytes, n.cfg.pathCall] ++ way).length = way.length + 2 := by simp
  have hfield : (qsoField f.qso f.trace).length ≤ 5 := (length_qsoField f.qso f.trace).le
  have hfit : ([0x37, UInt8.ofNat (0x20 + (way.length + 2))] ++ qsoField f.qso f.trace).length +
      10 * ([f.origin.bytes, n.cfg.pathCall] ++ way).length + 0 < 256 := by
    simp only [List.length_append, List.length_cons, List.length_nil]
    omega
  obtain ⟨frame, hframe⟩ := @appendCalls_fits 256 0 true true _ _ hcalls hfit
  refine ⟨frame, ⟨way, hway, hchain⟩, by omega, ?_⟩
  unfold flexBuildPathRep
  rw [if_neg, if_neg (by decide), hsize]
  · exact hframe
  · rw [hsize, maxPathHops]
    omega

/-- A callsign in a range has its base. -/
theorem base_of_inRange {call base : CStr} {lo hi : ℤ}
    (h : flexCallInRange call base lo hi = true) :
    strcasecmp (baseOf call) base = true := by
  unfold flexCallInRange at h
  rw [Bool.and_eq_true, Option.any_eq_true] at h
  obtain ⟨-, ⟨upper, ssid⟩, hsplit, hin⟩ := h
  obtain ⟨text, suffix, htext, rfl, -⟩ := splitFirstDash_of_split hsplit
  rw [Bool.and_eq_true, strcasecmp_toUpper] at hin
  have hbase : baseOf call = text := congrArg Prod.fst htext
  rw [hbase]
  exact hin.1

/-- So has the row a target is found in. -/
theorem base_of_found {i : ℕ} {d : DestEntry} (h : n.flexFindDestForTarget target = some i)
    (hd : n.dests[i]? = some d) : strcasecmp d.key.call.bytes (baseOf target) = true := by
  unfold flexFindDestForTarget at h
  split at h
  · cases h
  obtain ⟨e, he, hcovers, -⟩ := flexFindBestDest_eq_some.mp h
  obtain rfl : e = d := Option.some.inj (he.symm.trans hd)
  exact hcovers.base

/-- The last callsign of the chain stands for the target. -/
theorem ends_of_way (hway : n.wayTo target = some way) :
    ∃ last, ([f.origin.bytes, n.cfg.pathCall] ++ way).getLast? = some last ∧
      n.Denotes target last := by
  have hself : n.Denotes target target := .inl (strcasecmp_iff.mpr rfl)
  rcases wayTo_cases hway with ⟨hus, rfl⟩ | ⟨-, rfl⟩ | ⟨-, i, d, hi, hd, hrest⟩
  · refine ⟨n.cfg.pathCall, rfl, ?_⟩
    have hkind := hus
    unfold Config.flexTargetIsUs at hkind
    split at hkind
    · cases hkind
    split at hkind
    · rename_i hsame
      exact .inl hsame
    split at hkind
    · rename_i hrange
      refine .inr ⟨?_, .inl ⟨?_, ?_, hus⟩⟩
      · rw [strcasecmp_swap]
        exact base_of_inRange hrange
      · unfold Config.ownSsidRange
        cases n.cfg.ssidRange with
        | none => exact le_rfl
        | some range => exact min_le_right _ _
      · unfold Config.ownSsidRange
        cases n.cfg.ssidRange with
        | none => exact le_rfl
        | some range => exact le_max_right _ _
    · cases hkind
  · exact ⟨target, rfl, hself⟩
  · rcases hrest with ⟨-, rfl⟩ | ⟨-, hcache, rfl⟩
    · exact ⟨target, rfl, hself⟩
    · -- the cached chain ends in the range of its row
      unfold cacheUsable at hcache
      simp only [Bool.and_eq_true, Bool.not_eq_true', Bool.or_eq_false_iff,
        Bool.not_eq_false'] at hcache
      obtain ⟨⟨-, -, hends⟩, -⟩ := hcache
      unfold flexChainEndsAt at hends
      obtain ⟨last, hlast, hin⟩ := (Option.any_eq_true ..).mp hends
      obtain ⟨front, hpath⟩ := List.getLast?_eq_some_iff.mp hlast
      have hne : last.isEmpty = false := by
        by_contra hempty
        rw [Bool.not_eq_false, Callsign.isEmpty, List.isEmpty_iff] at hempty
        unfold flexCallInRange at hin
        rw [hempty, Bool.and_eq_true] at hin
        cases hin.2
      refine ⟨last.bytes, ?_, .inr ⟨?_, .inr ⟨i, d, hi, hd, hin⟩⟩⟩
      · rw [hpath, List.filter_append, List.filter_cons_of_pos (by simp [hne]), List.filter_nil,
          List.map_append, ← List.append_assoc]
        exact List.getLast?_concat
      · have hrow : strcasecmp (baseOf last.bytes) d.key.call.bytes = true := base_of_inRange hin
        exact strcasecmp_iff.mpr
          ((strcasecmp_iff.mp hrow).trans (strcasecmp_iff.mp (base_of_found hi hd)))

/-- Nobody is in the chain twice exactly when the way leads on. -/
theorem once_iff (hway : n.wayTo target = some way) :
    ([f.origin.bytes, n.cfg.pathCall] ++ way).Pairwise (fun a b => strcasecmp a b = false) ↔
      n.LeadsOn f target way := by
  have hbeyond : (∀ call ∈ way, strcasecmp n.cfg.pathCall call = false) ↔
      (n.cfg.flexTargetIsUs target = some .localCall →
        strcasecmp n.cfg.pathCall target = false) := by
    rcases wayTo_cases hway with ⟨hus, rfl⟩ | ⟨hus, rfl⟩ | ⟨hus, i, d, -, -, hrest⟩
    · simp [hus]
    · simp [hus]
    · refine iff_of_true ?_ (by simp [hus])
      rcases hrest with ⟨-, rfl⟩ | ⟨-, hcache, rfl⟩
      · intro call hcall
        rw [List.mem_singleton.mp hcall]
        unfold Config.flexTargetIsUs at hus
        split_ifs at hus with hlocal hsame
        simpa using hsame
      · intro call hcall
        obtain ⟨hop, hhop, rfl⟩ := List.mem_map.mp hcall
        obtain ⟨hhop, hne⟩ := List.mem_filter.mp hhop
        unfold cacheUsable at hcache
        simp only [Bool.and_eq_true, Bool.not_eq_true', Bool.or_eq_false_iff, Bool.not_eq_false']
          at hcache
        obtain ⟨⟨-, hhas, -⟩, -⟩ := hcache
        by_contra hsame
        rw [Bool.not_eq_false, strcasecmp_swap] at hsame
        have hcall : n.cfg.pathCall.isEmpty = false := by
          by_contra hempty
          rw [Bool.not_eq_false, List.isEmpty_iff] at hempty
          rw [hempty] at hsame
          have hnil : hop.bytes = [] := by simpa [strcasecmp] using hsame
          rw [Callsign.isEmpty, hnil] at hne
          cases hne
        have hchain : flexChainHasCall d.path n.cfg.pathCall = true := by
          unfold flexChainHasCall
          rw [hcall, Bool.not_false, Bool.true_and, List.any_eq_true]
          refine ⟨hop, hhop, ?_⟩
          rw [hne, hsame]
          rfl
        rw [hhas] at hchain
        cases hchain
  simp only [List.cons_append, List.nil_append, List.pairwise_cons, List.mem_cons, forall_eq_or_imp,
    hbeyond]
  constructor
  · rintro ⟨⟨hus, hasker⟩, hlocal, honce⟩
    exact ⟨hus, hasker, honce, hlocal⟩
  · rintro ⟨hus, hasker, honce, hlocal⟩
    exact ⟨⟨hus, hasker⟩, hlocal, honce⟩

/-- A chain we build is usable but for a callsign that may be in it twice. -/
theorem usable_iff (hbuilds : n.Builds s f target chain frame) :
    n.UsableChain s f target chain ↔ ∃ way, n.wayTo target = some way ∧ n.LeadsOn f target way := by
  obtain ⟨⟨way, hway, hchain⟩, hfits, -⟩ := hbuilds
  rw [hchain] at hfits
  obtain ⟨htake, hlen⟩ := take_way hfits
  have hwhole : chain = [f.origin.bytes, n.cfg.pathCall] ++ way := by
    rw [hchain, replyHops, htake]
  subst hwhole
  constructor
  · intro h
    exact ⟨way, hway, (once_iff hway).mp h.once⟩
  · rintro ⟨way', hway', hleads⟩
    obtain rfl : way = way' := Option.some.inj (hway.symm.trans hway')
    have hcap : ([f.origin.bytes, n.cfg.pathCall] ++ way).length - 2 = way.length := by simp
    refine ⟨rfl, rfl, ends_of_way hway, ?_, ?_, (once_iff hway).mpr hleads⟩
    · rw [hcap]
      refine ⟨hlen.trans (n.digiCap_le s), fun l port hl hport hmax => hlen.trans ?_⟩
      unfold digiCap
      rw [hl, Option.bind_some, hport]
      dsimp only
      rw [if_neg hmax]
      exact min_le_left _ _
    · intro i d hus hdirect hi hd
      rcases wayTo_cases hway with ⟨hus', -⟩ | ⟨hus', -⟩ |
        ⟨-, j, e, hj, he, ⟨hdirect', -⟩ | ⟨-, -, rfl⟩⟩
      · rw [hus] at hus'
        cases hus'
      · rw [hus] at hus'
        cases hus'
      · rw [hdirect] at hdirect'
        cases hdirect'
      · obtain rfl : i = j := Option.some.inj (hi.symm.trans hj)
        obtain rfl : d = e := Option.some.inj (hd.symm.trans he)
        rfl

/-- The answers to a request have usable chains exactly when no way they can take leads through the
asker or to a callsign twice; and they are all the type-7 frames it brings about. -/
theorem answers_usable_iff (n : PathNode) (s : Slot) (hasks : RequestFor data f target) :
    ((∀ chain frame, n.Builds s f target chain frame → n.UsableChain s f target chain) ↔
      ∀ way, n.wayTo target = some way → way.length ≤ n.digiCap s → n.LeadsOn f target way) ∧
    ∀ i frame, n.Sends (n.flexHandlePathReq s data) i frame → frame.head? = some 0x37 →
      i = s ∧ ∃ chain, n.Builds s f target chain frame := by
  refine ⟨?_, fun i frame h hreply => builds_of_sends hasks h hreply⟩
  constructor
  · intro h way hway hlen
    obtain ⟨frame, hbuilds⟩ := builds_of_way hasks hway hlen
    obtain ⟨way', hway', hleads⟩ := (usable_iff hbuilds).mp (h _ _ hbuilds)
    obtain rfl : way = way' := Option.some.inj (hway.symm.trans hway')
    exact hleads
  · intro h chain frame hbuilds
    obtain ⟨⟨way, hway, hchain⟩, hfits, -⟩ := id hbuilds
    rw [hchain] at hfits
    exact (usable_iff hbuilds).mpr ⟨way, hway, h way hway (take_way hfits).2⟩

/-! ## An asker on the way -/

open Bench

/-- The small node has learned that `K` is reached through `A` and `X`. -/
def knowsWay : PathNode :=
  probing.flexHandlePathRep
    (pathFrame 0x37 0x24 (qsoField 1 false) [[0x4E], [0x41], [0x58], [0x4B]] [])

/-- `U` asks for `K`. -/
def wantsKFromU : CStr := pathFrame 0x36 0x21 (qsoField 42 false) [[0x55], [0x4B]] []

/-- What the node reads of it. -/
def readWantsKFromU : PathFrame := ⟨false, 42, false, 1, .ofCStr [0x55], [.ofCStr [0x4B]]⟩

set_option maxRecDepth 10000 in
theorem wayTo_knowsWay :
    knowsWay.wayTo [0x4B] = some [[0x41], [0x58], [0x4B]] ∧ 3 ≤ knowsWay.digiCap slotB := by
  decide +kernel

set_option maxRecDepth 10000 in
/-- `X` is answered with itself as a digipeater. -/
theorem not_always_usable : ¬ ∀ (n : PathNode) (s : Slot) (data : CStr) (f : PathFrame)
    (target : CStr), RequestFor data f target → ∀ chain frame,
      n.Builds s f target chain frame → n.UsableChain s f target chain := by
  intro hall
  have hasks : RequestFor wantsK readWantsK [0x4B] :=
    ⟨by decide +kernel, rfl, .ofCStr [0x4B], rfl, rfl⟩
  obtain ⟨hway, hcap⟩ := wayTo_knowsWay
  obtain ⟨frame, hbuilds⟩ := builds_of_way hasks hway hcap
  obtain ⟨way, hway', hleads⟩ := (usable_iff hbuilds).mp (hall _ _ _ _ _ hasks _ _ hbuilds)
  obtain rfl : [[0x41], [0x58], [0x4B]] = way := Option.some.inj (hway.symm.trans hway')
  exact absurd (hleads.notAsker [0x58] (by decide)) (by decide)

set_option maxRecDepth 10000 in
/-- `U` is answered with a chain it can use. -/
theorem answers_usable_knowsWay : ∃ chain frame,
    knowsWay.Builds slotB readWantsKFromU [0x4B] chain frame ∧
      knowsWay.UsableChain slotB readWantsKFromU [0x4B] chain := by
  have hasks : RequestFor wantsKFromU readWantsKFromU [0x4B] :=
    ⟨by decide +kernel, rfl, .ofCStr [0x4B], rfl, rfl⟩
  obtain ⟨hway, hcap⟩ := wayTo_knowsWay
  obtain ⟨frame, hbuilds⟩ := builds_of_way hasks hway hcap
  refine ⟨_, frame, hbuilds, (answers_usable_iff knowsWay slotB hasks).1.mpr ?_ _ frame hbuilds⟩
  intro way hway' _
  obtain rfl : [[0x41], [0x58], [0x4B]] = way := Option.some.inj (hway.symm.trans hway')
  exact ⟨by decide +kernel, by decide, by decide, fun hus => absurd hus (by decide +kernel)⟩

end PathNode

end FlexNet
