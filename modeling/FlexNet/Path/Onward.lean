import FlexNet.Path.RoundTrip
import FlexNet.Path.Traversal
import FlexNet.Routing.Stations

/-!
# A request goes one node further

`flex_forward_path_req` rebuilds the frame it was given: its own next hop goes in before the target,
the octet after the type is counted up, and everything else stays.  It needs room for one more hop,
and a chain only grows, so a request goes on less than `FLEXNET_MAX_PATH_HOPS` times whatever the
nodes on its way believe (`forwarded_onward`).
-/

namespace FlexNet

/-! ## Callsigns of links -/

/-- `L2Code.c` drops a frame whose origin has an odd octet, or a character that is no letter, digit,
`#` or blank. -/
def AxCall.Admitted (a : AxCall) : Prop :=
  ∀ b ∈ a.call, b &&& 1 = 0 ∧ (isAlnum (b >>> 1) || b >>> 1 == 0x23 || b >>> 1 == 0x20) = true

instance (a : AxCall) : Decidable a.Admitted := inferInstanceAs (Decidable (∀ b ∈ a.call, _))

/-- A character of such a call, up to its padding. -/
theorem inCall_shifted {b : UInt8} (heven : b &&& 1 = 0)
    (hchar : (isAlnum (b >>> 1) || b >>> 1 == 0x23 || b >>> 1 == 0x20) = true) (hpad : b ≠ 0x40) :
    inCall (b >>> 1) = true := by
  have hall : ∀ i : Fin 256, UInt8.ofFin i &&& 1 = 0 →
      (isAlnum (UInt8.ofFin i >>> 1) || UInt8.ofFin i >>> 1 == 0x23 ||
        UInt8.ofFin i >>> 1 == 0x20) = true →
      UInt8.ofFin i ≠ 0x40 → inCall (UInt8.ofFin i >>> 1) = true := by
    decide +kernel
  exact hall b.toFin heven hchar hpad

theorem inCall_of_isDigit {b : UInt8} (h : isDigit b = true) : inCall b = true := by
  obtain ⟨d, hd, rfl⟩ := digit_of_isDigit h
  interval_cases d <;> rfl

/-- The text of an admitted address has no separator in it. -/
theorem AxCall.Admitted.inCall {a : AxCall} (h : a.Admitted) :
    ∀ b ∈ flexNormalizeCallsign a, inCall b = true := by
  intro b hb
  have hconv : b ∈ convFromAX25 a :=
    (List.takeWhile_prefix _).mem ((List.rdropWhile_prefix _ _).mem hb)
  unfold convFromAX25 at hconv
  rcases List.mem_append.mp hconv with hbase | hssid
  · obtain ⟨c, hc, rfl⟩ := List.mem_map.mp hbase
    have hpad : (c != 0x40) = true := List.all_eq_true.mp List.all_takeWhile c hc
    obtain ⟨heven, hchar⟩ := h c ((List.takeWhile_prefix _).mem hc)
    exact inCall_shifted heven hchar (by simpa using hpad)
  · split at hssid
    · cases hssid
    · rcases List.mem_cons.mp hssid with rfl | hdigit
      · rfl
      · exact inCall_of_isDigit (isDigit_of_mem_decimal hdigit)

/-- The links of the sessions have calls `L2Code.c` lets in. -/
def Env.Admitted (e : Env) : Prop :=
  ∀ i l, (e.sessions i).active = true → (e.sessions i).link = some l →
    (e.links l).linkCall.Admitted

theorem Env.Admitted.pathCall {e : Env} (h : e.Admitted) {i : Slot}
    (hup : (e.sessions i).active = true) (hne : (e.sessPeerCall i).isEmpty = false) :
    PathCall (e.sessPeerCall i) := by
  refine ⟨by simpa using hne, ?_, ?_⟩
  all_goals
    unfold Env.sessPeerCall
    cases hlink : (e.sessions i).link with
    | none => simp [maxCallsign]
    | some l =>
        first
        | exact Nat.lt_succ_of_le (length_flexNormalizeCallsign_le _)
        | exact (h i l hup hlink).inCall

/-- A request as the node after the next reads it. -/
def PathFrame.onward (f : PathFrame) (hop : UInt8) (next : CStr) (last : Callsign) : PathFrame :=
  { f with
    hopCount := max 0 ((hop.toNat : ℤ) - 0x20)
    hops := f.hops.dropLast ++ [.ofCStr next, last] }

namespace PathNode

variable {n m : PathNode} {s via : Slot} {f : PathFrame} {data frame target : CStr}
  {dest : Option ℕ} {last : Callsign}

/-! ## One node -/

/-- What a node looks at before it sends a request on. -/
structure SendsOn (n : PathNode) (s : Slot) (f : PathFrame) (via : Slot) : Prop where
  live : n.live via = true
  away : via ≠ s
  named : (n.sessPeerCall via).isEmpty = false
  notOrigin : strcasecmp f.origin.bytes (n.sessPeerCall via) = false
  notInChain : ∀ hop ∈ f.hops, strcasecmp hop.bytes (n.sessPeerCall via) = false
  room : f.hops.length + 1 < maxPathHops

theorem flexForwardPathReq_sends (h : n.flexForwardPathReq s target dest f data = (m, true)) :
    ∃ via frame, n.SendsOn s f via ∧
      forwardedFrame (n.sessPeerCall via) target f data = some frame ∧
      m = n.sendCe via frame := by
  unfold flexForwardPathReq at h
  split at h
  · cases h
  split at h
  · cases h
  split at h
  · cases h
  split at h
  · cases h
  rename_i via hvia
  dsimp only at h
  split at h
  · cases h
  rename_i haway
  split at h
  · cases h
  rename_i hnamed
  split at h
  · cases h
  rename_i horigin
  split at h
  · cases h
  rename_i hchain
  split at h
  · cases h
  rename_i hroom
  split at h
  · cases h
  rename_i frame hframe
  obtain ⟨-, hlive⟩ := Option.filter_eq_some_iff.mp hvia
  refine ⟨via, frame, ⟨hlive, haway, by simpa using hnamed, by simpa using horigin, ?_, by omega⟩,
    hframe, ((Prod.mk.injEq ..).mp h).1.symm⟩
  intro hop hhop
  have hnone := hchain
  rw [List.any_eq_true, not_exists] at hnone
  simpa using fun hsame => hnone hop ⟨hhop, hsame⟩

/-- The frame that goes on, as the next node reads it. -/
theorem parse_forwardedFrame (hparse : flexParsePathFrame data = some f)
    (hlast : f.hops.getLast? = some last) {next : CStr} (hnext : PathCall next)
    (hroom : f.hops.length + 1 < maxPathHops)
    (hframe : forwardedFrame next last.bytes f data = some frame) :
    flexParsePathFrame frame = some (f.onward (data.getD 1 0 + 1) next last) ∧
      frame.take pathHeaderLen = (data.take pathHeaderLen).modify 1 (· + 1) := by
  obtain ⟨-, hhops, horigin⟩ := parse_bounds hparse
  have hne : f.hops ≠ [] := fun hnil => by simp [hnil] at hlast
  have hcalls : ∀ call ∈ f.origin.bytes :: (f.hops.dropLast.map Callsign.bytes ++
      [next, last.bytes]), PathCall call := by
    intro call hcall
    rcases List.mem_cons.mp hcall with rfl | hcall
    · exact horigin hne
    · rcases List.mem_append.mp hcall with hmid | hend
      · obtain ⟨hop, hhop, rfl⟩ := List.mem_map.mp hmid
        exact hhops hop (List.mem_of_mem_dropLast hhop)
      · simp only [List.mem_cons, List.not_mem_nil, or_false] at hend
        rcases hend with rfl | rfl
        · exact hnext
        · exact hhops last (List.mem_of_getLast? hlast)
  -- the header is there, and its type is one of the two
  obtain ⟨type, hop, field, rest, rfl, hfield, htype⟩ : ∃ type hop field rest,
      data = [type, hop] ++ field ++ rest ∧ field.length = pathQsoFieldLen ∧
        (type = 0x36 ∨ type = 0x37) := by
    unfold flexParsePathFrame at hparse
    dsimp only at hparse
    split_ifs at hparse with hshort htype
    rw [pathHeaderLen, not_lt] at hshort
    rcases data with _ | ⟨type, _ | ⟨hop, rest⟩⟩
    · simp [pathQsoFieldLen] at hshort
    · simp [pathQsoFieldLen] at hshort
    · refine ⟨type, hop, rest.take pathQsoFieldLen, rest.drop pathQsoFieldLen, by simp, ?_, ?_⟩
      · rw [List.length_take]
        simp only [List.length_cons] at hshort
        omega
      · simp only [List.head?_cons, ne_eq, Option.some.injEq, not_and_or, not_not] at htype
        exact htype
  have htake : ([type, hop] ++ field ++ rest).take pathHeaderLen = type :: hop :: field := by
    rw [List.take_left' (by simp [hfield, pathHeaderLen]; omega)]
    rfl
  have hfields : f.isReply = (type == 0x37) ∧ f.qso = parseQso field ∧
      f.trace = (field.headD 0 &&& 0x40 != 0) := by
    unfold flexParsePathFrame at hparse
    dsimp only at hparse
    split_ifs at hparse
    rw [Option.some.injEq] at hparse
    rw [← hparse]
    simp [← hfield]
  rw [htake]
  unfold forwardedFrame at hframe
  rw [htake, Option.map_eq_some_iff] at hframe
  obtain ⟨built, hbuilt, rfl⟩ := hframe
  have hframe := appendCalls_first_some (fun c hc => (hcalls c hc).1) hbuilt
  have hshape : built ++ [0x0D] = pathFrame type (hop + 1) field (f.origin.bytes ::
      (f.hops.dropLast.map Callsign.bytes ++ [next, last.bytes])) [0x0D] := by
    rw [hframe]
    rfl
  rw [hshape]
  refine ⟨?_, ?_⟩
  · rw [parse_pathFrame htype hfield hcalls ?_ (by simp [EndsCalls])]
    · obtain ⟨hreply, hqso, htrace⟩ := hfields
      have hsame : Callsign.ofCStr ∘ Callsign.bytes = id := funext Callsign.ofCStr_bytes
      simp [readFrame, PathFrame.onward, hreply, hqso, htrace, hsame]
    · simp only [List.length_append, List.length_map, List.length_dropLast, List.length_cons,
        List.length_nil]
      omega
  · rw [pathFrame, List.append_assoc]
    refine List.take_left' ?_
    simp [hfield, pathHeaderLen]
    omega

/-- The frame of one forwarding: the session it goes to, and how it reads. -/
theorem flexForwardPathReq_onward (hcalls : n.Admitted) (hparse : flexParsePathFrame data = some f)
    (hlast : f.hops.getLast? = some last)
    (hsent : n.flexForwardPathReq s last.bytes dest f data = (m, true)) :
    ∃ via frame, m = n.sendCe via frame ∧ n.SendsOn s f via ∧
      flexParsePathFrame frame = some (f.onward (data.getD 1 0 + 1) (n.sessPeerCall via) last) ∧
      frame.take pathHeaderLen = (data.take pathHeaderLen).modify 1 (· + 1) := by
  obtain ⟨via, frame, hsends, hframe, hm⟩ := flexForwardPathReq_sends hsent
  have hup : (n.sessions via).active = true := by
    have hlive := hsends.live
    rw [live, Bool.and_eq_true] at hlive
    exact hlive.1
  have hnext := hcalls.pathCall hup hsends.named
  obtain ⟨hread, hheader⟩ := parse_forwardedFrame hparse hlast hnext hsends.room hframe
  exact ⟨via, frame, hm, hsends, hread, hheader⟩

/-! ## From node to node -/

/-- A frame is queued to a session. -/
def Sends (n m : PathNode) (i : Slot) (frame : CStr) : Prop :=
  (m.peers i).wire = (n.peers i).wire ++ [.frame pidCE frame]

/-- Some node sends a request it was given on as another frame. -/
def PassesOn (data frame : CStr) : Prop :=
  ∃ (n m : PathNode) (s i : Slot) (f : PathFrame) (last : Callsign) (dest : Option ℕ),
    n.Admitted ∧ flexParsePathFrame data = some f ∧ f.hops.getLast? = some last ∧
      n.flexForwardPathReq s last.bytes dest f data = (m, true) ∧ n.Sends m i frame

theorem sends_sendCe {i : Slot} {queued : CStr} (h : n.Sends (n.sendCe via frame) i queued) :
    i = via ∧ queued = frame := by
  have hwire : ((n.sendCe via frame).peers i).wire =
      ((n.toNode.flexSendFrame via pidCE frame).peers i).wire := rfl
  unfold Sends at h
  rw [hwire, Node.flexSendFrame] at h
  by_cases hi : i = via
  · subst hi
    rw [Node.setPeer_peers_self, Env.flexSendFrame] at h
    dsimp only at h
    split_ifs at h
    · simpa using h.symm
    · simp at h
  · rw [Node.setPeer_peers_of_ne _ _ hi] at h
    simp at h

/-- Every forwarding makes the chain one longer, and needs room for it. -/
theorem PassesOn.grows (h : PassesOn data frame) :
    ∃ f f', flexParsePathFrame data = some f ∧ flexParsePathFrame frame = some f' ∧
      f'.hops.length = f.hops.length + 1 ∧ f'.hops.length < maxPathHops := by
  obtain ⟨n, m, s, i, f, last, dest, hcalls, hparse, hlast, hsent, hqueued⟩ := h
  obtain ⟨via, built, rfl, hsends, hread, -⟩ :=
    flexForwardPathReq_onward hcalls hparse hlast hsent
  obtain ⟨-, rfl⟩ := sends_sendCe hqueued
  have hne : f.hops.length ≠ 0 := fun hnil => by
    rw [List.length_eq_zero_iff] at hnil
    simp [hnil] at hlast
  have hlen : (f.onward (data.getD 1 0 + 1) (n.sessPeerCall via) last).hops.length =
      f.hops.length + 1 := by
    simp only [PathFrame.onward, List.length_append, List.length_dropLast, List.length_cons,
      List.length_nil]
    omega
  exact ⟨f, _, hparse, hread, hlen, hlen ▸ hsends.room⟩

/-- The frames of one request, each sent on as the next. -/
theorem length_passed {rest : List CStr} (h : List.IsChain PassesOn (data :: rest))
    (hparse : flexParsePathFrame data = some f) (hroom : f.hops.length < maxPathHops) :
    f.hops.length + rest.length < maxPathHops := by
  induction rest generalizing data f with
  | nil => simpa using hroom
  | cons frame rest ih =>
      obtain ⟨hpasses, hrest⟩ := List.isChain_cons_cons.mp h
      obtain ⟨f₀, f', hparse₀, hread, hlen, hroom'⟩ := hpasses.grows
      rw [hparse, Option.some.injEq] at hparse₀
      subst hparse₀
      have := ih hrest hread hroom'
      rw [List.length_cons]
      omega

/-- Forwarding a request grows the chain by one new node: the frame that goes out has the origin,
the QSO and the flag of the one that came in, its hops up to the target, the neighbour it goes to
and the target; its hop octet is counted up; it does not go to the session that asked, to the origin
or to a node of the chain.  So a request is forwarded less than `FLEXNET_MAX_PATH_HOPS` times,
whatever nodes it meets. -/
theorem forwarded_onward :
    (∀ (n m : PathNode) (s : Slot) (f : PathFrame) (last : Callsign) (dest : Option ℕ)
      (data : CStr),
      n.Admitted → flexParsePathFrame data = some f → f.hops.getLast? = some last →
      n.flexForwardPathReq s last.bytes dest f data = (m, true) →
      ∃ via frame f', m = n.sendCe via frame ∧ n.live via = true ∧ via ≠ s ∧
        flexParsePathFrame frame = some f' ∧ f'.isReply = f.isReply ∧ f'.origin = f.origin ∧
        f'.qso = f.qso ∧ f'.trace = f.trace ∧
        f'.hops = f.hops.dropLast ++ [.ofCStr (n.sessPeerCall via), last] ∧
        frame.getD 1 0 = data.getD 1 0 + 1 ∧
        strcasecmp f.origin.bytes (n.sessPeerCall via) = false ∧
        ∀ hop ∈ f.hops, strcasecmp hop.bytes (n.sessPeerCall via) = false) ∧
    ∀ (data : CStr) (rest : List CStr), List.IsChain PassesOn (data :: rest) →
      rest.length < maxPathHops := by
  refine ⟨?_, ?_⟩
  · intro n m s f last dest data hcalls hparse hlast hsent
    obtain ⟨via, frame, hm, hsends, hread, hheader⟩ :=
      flexForwardPathReq_onward hcalls hparse hlast hsent
    have hoctet : frame.getD 1 0 = data.getD 1 0 + 1 := by
      have hlong : 1 < data.length := by
        unfold flexParsePathFrame at hparse
        split_ifs at hparse with hshort
        rw [pathHeaderLen, pathQsoFieldLen] at hshort
        omega
      have hget := congrArg (fun l : CStr => l[1]?) hheader
      simp only [List.getElem?_take, List.getElem?_modify, pathHeaderLen] at hget
      rw [if_pos (by omega), if_pos (by omega), List.getElem?_eq_getElem hlong] at hget
      rw [List.getD_eq_getElem?_getD, List.getD_eq_getElem?_getD, hget,
        List.getElem?_eq_getElem hlong]
      rfl
    exact ⟨via, frame, _, hm, hsends.live, hsends.away, hread, rfl, rfl, rfl, rfl, rfl, hoctet,
      hsends.notOrigin, hsends.notInChain⟩
  · intro data rest hchain
    cases rest with
    | nil => decide
    | cons frame rest =>
        obtain ⟨hpasses, hrest⟩ := List.isChain_cons_cons.mp hchain
        obtain ⟨f, f', -, hread, hlen, hroom⟩ := hpasses.grows
        have := length_passed hrest hread hroom
        rw [List.length_cons]
        omega

/-! ## A request on its way -/

open Bench

/-- `X` asks for `K`, by way of `B`. -/
def wantsK : CStr := [0x36, 0x21, 0x20, 0x20, 0x20, 0x34, 0x32, 0x58, 0x20, 0x4E, 0x20, 0x4B]

/-- What the node reads of it. -/
def readWantsK : PathFrame :=
  ⟨false, 42, false, 1, .ofCStr [0x58], [.ofCStr [0x4E], .ofCStr [0x4B]]⟩

/-- The request as it goes on to `A`. -/
def wantsKFromA : CStr :=
  [0x36, 0x22, 0x20, 0x20, 0x20, 0x34, 0x32, 0x58, 0x20, 0x4E, 0x20, 0x41, 0x20, 0x4B, 0x0D]

/-- The small node has sent it on. -/
def passed : PathNode :=
  (small.flexForwardPathReq slotB [0x4B] (small.flexFindDestForTarget [0x4B]) readWantsK wantsK).1

theorem small_admitted : small.Admitted := by
  intro i l hup hlink
  have hall : ∀ i : Slot, (small.sessions i).link.all
      (fun l => decide (small.links l).linkCall.Admitted) = true := by decide +kernel
  have hrow := hall i
  rw [hlink] at hrow
  exact of_decide_eq_true hrow

theorem passed_sent : small.flexForwardPathReq slotB (Callsign.ofCStr [0x4B]).bytes
    (small.flexFindDestForTarget [0x4B]) readWantsK wantsK = (passed, true) :=
  Prod.ext rfl (by decide +kernel)

theorem forwarded_onward_small :
    (∃ via frame f', passed = small.sendCe via frame ∧ flexParsePathFrame frame = some f' ∧
      f'.hops = [.ofCStr [0x4E]] ++ [.ofCStr (small.sessPeerCall via), .ofCStr [0x4B]]) ∧
    [wantsKFromA].length < maxPathHops := by
  obtain ⟨honward, hbound⟩ := forwarded_onward
  have hparse : flexParsePathFrame wantsK = some readWantsK := by decide +kernel
  refine ⟨?_, hbound wantsK [wantsKFromA] ?_⟩
  · obtain ⟨via, frame, f', hm, -, -, hread, -, -, -, -, hhops, -⟩ := honward small passed slotB
      readWantsK (.ofCStr [0x4B]) _ wantsK small_admitted hparse rfl passed_sent
    exact ⟨via, frame, f', hm, hread, hhops⟩
  · have hqueued : small.Sends passed slotA wantsKFromA :=
      show (passed.peers slotA).wire = _ by decide +kernel
    exact List.isChain_cons_cons.mpr ⟨⟨small, passed, slotB, slotA, readWantsK, .ofCStr [0x4B], _,
      small_admitted, hparse, rfl, passed_sent, hqueued⟩, List.isChain_singleton _⟩

end PathNode

end FlexNet
