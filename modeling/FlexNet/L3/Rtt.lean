import FlexNet.L2.NetRom
import FlexNet.Wire.RoundTrip

/-!
# L3RTT probes and their answers

A neighbour measures the way to us with a text of four counters, alone or inside a NET/ROM
information frame.  `flexNetProcessCF_l3rtt_reply` is the answer: it carries the prober's two
counters and ours, and when the probe came in an envelope the answer goes back in one under the
probe's circuit.
-/

namespace FlexNet

/-! ## NET/ROM frames -/

/-- The `FLEXL3_*` opcodes. -/
inductive L3Opcode
  | creq | cack | dreq | dack | info | iack
deriving DecidableEq

/-- The number of an opcode. -/
def L3Opcode.octet : L3Opcode → UInt8
  | creq => 1
  | cack => 2
  | dreq => 3
  | dack => 4
  | info => 5
  | iack => 6

/-- The opcode of a number. -/
def L3Opcode.ofOctet (b : UInt8) : Option L3Opcode :=
  [creq, cack, dreq, dack, info, iack].find? fun op => op.octet == b

/-- `struct FLEXL3_HEADER`; `payload` is none of the frame's octets when the source's pointer is
NULL. -/
structure L3Header where
  dest : AxCall
  source : AxCall
  ttl : UInt8
  circuitIndex : UInt8
  circuitId : UInt8
  txSeq : UInt8
  rxSeq : UInt8
  opcode : L3Opcode
  window : UInt8 := 0
  originUser : AxCall := .zero
  originNode : AxCall := .zero
  payload : CStr := []
deriving DecidableEq

/-- `flexl3_is_connection_frame`. -/
def flexl3IsConnectionFrame (data : CStr) : Bool :=
  decide (20 ≤ data.length) && decide (0x60 ≤ data.getD 0 0)

/-- `flexl3_parse`. -/
def flexl3Parse (data : CStr) : Option L3Header :=
  if data.length < 20 then none
  else (L3Opcode.ofOctet (data.getD 19 0 &&& 0x0F)).bind fun opcode =>
    let hdr : L3Header :=
      { dest := callAt data 7
        source := callAt data 0
        ttl := data.getD 14 0
        circuitIndex := data.getD 15 0
        circuitId := data.getD 16 0
        txSeq := data.getD 17 0
        rxSeq := data.getD 18 0
        opcode }
    match opcode with
    | .creq =>
      if data.length < 35 then none
      else some { hdr with
        window := data.getD 20 0
        originUser := callAt data 21
        originNode := callAt data 28 }
    | .cack => some (if 21 ≤ data.length then { hdr with window := data.getD 20 0 } else hdr)
    | .info => some { hdr with payload := data.drop 20 }
    | _ => some hdr

/-- The seven octets of a callsign. -/
def AxCall.octets (a : AxCall) : CStr := a.call ++ [a.ssid]

/-- `build_header`. -/
def buildHeader (dest source : AxCall) (ttl index id txSeq rxSeq : UInt8) (opcode : L3Opcode) :
    CStr :=
  source.octets ++ dest.octets ++ [ttl, index, id, txSeq, rxSeq, opcode.octet]

/-- `flexl3_build_info`, into a buffer of `buflen` octets. -/
def flexl3BuildInfo (buflen : ℕ) (dest source : AxCall) (ttl index id txSeq rxSeq : UInt8)
    (payload : CStr) : Option CStr :=
  if buflen < 20 + payload.length ∨ 236 < payload.length then none
  else some (buildHeader dest source ttl index id txSeq rxSeq .info ++ payload)

/-! ## The text of a probe -/

/-- The four counters of a probe. -/
structure L3Counters where
  c1 : UInt32
  c2 : UInt32
  c3 : UInt32
  c4 : UInt32
deriving DecidableEq

/-- Line ends and NULs read as blanks. -/
def spaced (b : UInt8) : UInt8 :=
  if b = 0x0A ∨ b = 0x0D ∨ b = 0x00 then 0x20 else b

/-- What follows the first `L3RTT:` of a text. -/
def afterTag : CStr → Option CStr
  | [] => none
  | b :: t => if l3rttTag.isPrefixOf (b :: t) then some ((b :: t).drop 6) else afterTag t

/-- One counter of a text and what follows it.  `strtoul` saturates at 64 bits; the result is cut
to 32. -/
def parseCounter (p : CStr) : Option (UInt32 × CStr) :=
  let q := p.dropWhile (· == 0x20)
  let digits := q.takeWhile isDigit
  if digits.isEmpty then none
  else some (UInt32.ofNat (min (digitsValue digits) (2 ^ 64 - 1)), q.dropWhile isDigit)

/-- `flex_parse_l3rtt_counters`. -/
def flexParseL3rttCounters (data : CStr) : Option L3Counters :=
  if data.length < 7 then none
  else do
    let p ← afterTag ((data.take 1023).map spaced)
    let (c1, p) ← parseCounter p
    let (c2, p) ← parseCounter p
    let (c3, p) ← parseCounter p
    let (c4, _) ← parseCounter p
    return ⟨c1, c2, c3, c4⟩

/-- `"%11lu"`. -/
def counterField (c : UInt32) : CStr := (decimal c.toNat).leftpad 11 0x20

/-- `"%-6.6s"`. -/
def aliasField (nodeAlias : CStr) : CStr :=
  ((nodeAlias.take 6).takeWhile (· != 0)).rightpad 6 0x20

/-- `" LEVEL3_V2.1 linbpq-1.9 $M"`. -/
def l3rttVersion : CStr :=
  [0x20, 0x4C, 0x45, 0x56, 0x45, 0x4C, 0x33, 0x5F, 0x56, 0x32, 0x2E, 0x31, 0x20, 0x6C, 0x69,
    0x6E, 0x62, 0x70, 0x71, 0x2D, 0x31, 0x2E, 0x39, 0x20, 0x24, 0x4D]

/-- `" $N\r"`. -/
def l3rttEnd : CStr := [0x20, 0x24, 0x4E, 0x0D]

/-- The text `flex_build_l3rtt` formats. -/
def l3rttText (c : L3Counters) (nodeAlias : CStr) (maxDest : UInt32) : CStr :=
  l3rttTag ++ (counterField c.c1 ++ (counterField c.c2 ++ (counterField c.c3 ++
    (counterField c.c4 ++ (0x20 :: (aliasField nodeAlias ++ l3rttVersion ++
      decimal maxDest.toNat ++ l3rttEnd))))))

/-- `flex_build_l3rtt`, into a buffer of `buflen` octets. -/
def flexBuildL3rtt (buflen : ℕ) (c : L3Counters) (nodeAlias : CStr) (maxDest : UInt32) :
    Option CStr :=
  let text := l3rttText c nodeAlias maxDest
  if 256 ≤ text.length ∨ buflen ≤ text.length then none else some text

/-! ## The answer -/

/-- A frame `flex_check_probe_reply` takes for the reply to a probe of ours: it names the target of
one that is outstanding. -/
def flexCheckProbeReply (pending : List CStr) (data : CStr) : Bool :=
  let target := ((data.drop 6).takeWhile fun b => b != 0x0D && b != 0).take 13
  pending.any (strcasecmp · ((target.take 9).takeWhile (· != 0x2D)))

/-- The envelope of a probe that came in one. -/
def l3Envelope (data : CStr) : Option L3Header :=
  if flexl3IsConnectionFrame data then
    (flexl3Parse data).filter fun hdr => hdr.opcode == .info
  else none

namespace Node

variable (n : Node)

/-- `flex_count_reachable`. -/
def flexCountReachable : ℕ := n.dests.countP fun d => d.rtt < rttInfinity

/-- The counters of an answer: the probe's first two, and the two readings of our clock, or zeros
when nothing can be reached. -/
def replyCounters (peer : L3Counters) (later : UInt32) : L3Counters :=
  { c1 := peer.c1
    c2 := peer.c2
    c3 := if 0 < n.flexCountReachable then n.ticks else 0
    c4 := if 0 < n.flexCountReachable then later else 0 }

/-- The text of an answer. -/
def replyText (peer : L3Counters) (nodeAlias : CStr) (later : UInt32) : CStr :=
  l3rttText (n.replyCounters peer later) nodeAlias (UInt32.ofNat n.dests.length)

/-- The L3RTT path of `FlexNet_ProcessCF`: the frame it sends back.  `nodeAlias` is
`MYALIASTEXT`, `later` the clock when it is read again. -/
def l3rttReply (pending : List CStr) (nodeAlias : CStr) (later : UInt32) (data : CStr) :
    Option CStr :=
  if flexCheckProbeReply pending data then none
  else do
    let peer ← flexParseL3rttCounters data
    let text ← flexBuildL3rtt 256 (n.replyCounters peer later) nodeAlias
      (UInt32.ofNat n.dests.length)
    match l3Envelope data with
    | some hdr =>
      flexl3BuildInfo 256 hdr.source n.cfg.myCall hdr.ttl hdr.circuitIndex hdr.circuitId 0 0 text
    | none => if text.length ≤ 256 then some text else none

end Node

/-! ## What is written is read -/

/-- The characters of an AX.25 call: letters and digits shifted left by one, padded with shifted
blanks. -/
def AxCall.Shifted (a : AxCall) : Prop :=
  ∀ b ∈ a.call, b = 0x40 ∨ b &&& 1 = 0 ∧ isAlnum (b >>> 1) = true

instance (a : AxCall) : Decidable a.Shifted := inferInstanceAs (Decidable (∀ _ ∈ _, _))

@[simp] theorem AxCall.length_octets (a : AxCall) : a.octets.length = 7 := by
  simp [AxCall.octets, a.len]

theorem L3Opcode.ofOctet_octet (op : L3Opcode) : ofOctet (op.octet &&& 0x0F) = some op := by
  cases op <;> rfl

theorem callAt_octets (a : AxCall) (pre rest : CStr) :
    callAt (pre ++ (a.octets ++ rest)) pre.length = a := by
  obtain ⟨call, ssid, hlen⟩ := a
  have hat : ∀ k, (pre ++ (AxCall.octets ⟨call, ssid, hlen⟩ ++ rest)).getD (pre.length + k) 0 =
      (call ++ ssid :: rest).getD k 0 := by
    intro k
    simp [AxCall.octets, List.getD_eq_getElem?_getD, List.getElem?_append_right]
  unfold callAt
  congr 1
  · refine List.ext_getElem (by simp [hlen]) fun k hk hk' => ?_
    have hk6 : k < 6 := by simpa using hk
    rw [List.getElem_ofFn, hat]
    simp [List.getD_eq_getElem?_getD, List.getElem?_append_left, hlen, hk6]
  · rw [hat]
    simp [List.getD_eq_getElem?_getD, hlen]

/-- An information frame is read as it was built. -/
theorem flexl3Parse_info (dest source : AxCall) (ttl index id txSeq rxSeq : UInt8)
    (payload : CStr) :
    flexl3Parse (buildHeader dest source ttl index id txSeq rxSeq .info ++ payload) =
      some
        { dest, source, ttl
          circuitIndex := index
          circuitId := id
          txSeq, rxSeq
          opcode := .info
          payload } := by
  generalize htail : [ttl, index, id, txSeq, rxSeq, L3Opcode.info.octet] ++ payload = tail
  have hframe : buildHeader dest source ttl index id txSeq rxSeq .info ++ payload =
      source.octets ++ (dest.octets ++ tail) := by simp [buildHeader, ← htail]
  have hsource : callAt (source.octets ++ (dest.octets ++ tail)) 0 = source :=
    callAt_octets source [] _
  have hdest : callAt (source.octets ++ (dest.octets ++ tail)) 7 = dest := by
    simpa using callAt_octets dest source.octets tail
  have hat : ∀ k, (source.octets ++ (dest.octets ++ tail)).getD (14 + k) 0 = tail.getD k 0 := by
    intro k
    have h14 : (source.octets ++ dest.octets).length = 14 := by simp
    rw [← List.append_assoc, List.getD_eq_getElem?_getD,
      List.getElem?_append_right (by omega), h14, Nat.add_sub_cancel_left,
      List.getD_eq_getElem?_getD]
  have hlen : 20 ≤ (source.octets ++ (dest.octets ++ tail)).length := by
    simp [← htail]
    omega
  have hdrop : (source.octets ++ (dest.octets ++ tail)).drop 20 = payload := by
    simp [List.drop_append, List.drop_of_length_le, ← htail]
  have hopcode : L3Opcode.ofOctet (tail.getD 5 0 &&& 0x0F) = some .info := by
    subst htail
    exact L3Opcode.ofOctet_octet .info
  rw [hframe]
  unfold flexl3Parse
  rw [if_neg (not_lt.mpr hlen), hat 5, hopcode, Option.bind_some]
  simp only [hsource, hdest, hat 0, hat 1, hat 2, hat 3, hat 4, hdrop]
  subst htail
  rfl

/-! ## The tag -/

theorem spaced_ne {b c : UInt8} (hc : c ≠ 0x20) (h : b ≠ c) : spaced b ≠ c := by
  unfold spaced
  split
  · exact hc.symm
  · exact h

/-- An octet of a call is neither the `L` nor the `3` of the tag. -/
theorem AxCall.Shifted.ne {a : AxCall} (h : a.Shifted) {b : UInt8} (hb : b ∈ a.call) :
    b ≠ 0x4C ∧ b ≠ 0x33 := by
  constructor
  · rintro rfl
    exact absurd (h _ hb) (by decide)
  · rintro rfl
    exact absurd (h _ hb) (by decide)

theorem afterTag_cons {b : UInt8} {t : CStr} (h : l3rttTag.isPrefixOf (b :: t) = false) :
    afterTag (b :: t) = afterTag t := by
  rw [afterTag, h]
  rfl

/-- Octets other than `L` are passed over. -/
theorem afterTag_append {pre : CStr} (h : ∀ b ∈ pre, b ≠ 0x4C) (t : CStr) :
    afterTag (pre ++ t) = afterTag t := by
  induction pre with
  | nil => rfl
  | cons b pre ih =>
      have hb : b ≠ 0x4C := h b List.mem_cons_self
      rw [List.cons_append, afterTag_cons, ih fun c hc => h c (List.mem_cons_of_mem _ hc)]
      simp [l3rttTag, List.isPrefixOf, hb.symm]

theorem afterTag_tag (rest : CStr) : afterTag (l3rttTag ++ rest) = some rest := by
  simp [afterTag, l3rttTag, List.isPrefixOf]

/-- No header with shifted calls in it holds the tag, nor the start of it. -/
theorem afterTag_header {dest source : AxCall} (hdest : dest.Shifted) (hsource : source.Shifted)
    (ttl index id : UInt8) (rest : CStr) :
    afterTag ((buildHeader dest source ttl index id 0 0 .info).map spaced ++
      (l3rttTag ++ rest)) = some rest := by
  have hskip : ∀ a : AxCall, a.Shifted → ∀ b ∈ a.call.map spaced, b ≠ 0x4C := by
    intro a ha b hb
    obtain ⟨c, hc, rfl⟩ := List.mem_map.mp hb
    exact spaced_ne (by decide) (ha.ne hc).1
  obtain ⟨d, ds, hd⟩ : ∃ d ds, dest.call = d :: ds :=
    List.exists_cons_of_length_pos (by rw [dest.len]; decide)
  have hd3 : spaced d ≠ 0x33 := spaced_ne (by decide) (hdest.ne (by simp [hd])).2
  generalize htail : [ttl, index, id, 0, 0, L3Opcode.info.octet].map spaced ++ (l3rttTag ++ rest) =
    tail
  have hsplit : (buildHeader dest source ttl index id 0 0 .info).map spaced ++ (l3rttTag ++ rest) =
      source.call.map spaced ++ (spaced source.ssid :: (dest.call.map spaced ++
        (spaced dest.ssid :: tail))) := by
    simp [buildHeader, AxCall.octets, ← htail]
  rw [hsplit, afterTag_append (hskip source hsource), afterTag_cons,
    afterTag_append (hskip dest hdest)]
  · subst htail
    have h0 : spaced 0 = 0x20 := rfl
    have h5 : spaced L3Opcode.info.octet = 5 := rfl
    simp only [List.map_cons, List.map_nil, h0, h5, List.cons_append, List.nil_append]
    simp [afterTag, l3rttTag, List.isPrefixOf]
  · simp [l3rttTag, List.isPrefixOf, hd, hd3.symm]

theorem infix_of_afterTag {p rest : CStr} (h : afterTag p = some rest) : l3rttTag <:+: p := by
  induction p with
  | nil => cases h
  | cons b t ih =>
      rw [afterTag] at h
      split at h
      · rename_i htag
        exact (List.isPrefixOf_iff_prefix.mp htag).isInfix
      · exact (ih h).trans (List.suffix_cons b t).isInfix

theorem map_spaced_eq_tag {p : CStr} (h : p.map spaced = l3rttTag) : p = l3rttTag := by
  refine List.ext_getElem (by simpa using congrArg List.length h) fun i hi hi' => ?_
  have hat : spaced p[i] = l3rttTag[i] := by simp [← h]
  by_contra hne
  have hgraphic : ∀ c ∈ l3rttTag, c ≠ 0x20 := by decide +kernel
  exact spaced_ne (hgraphic _ (List.getElem_mem hi')) hne hat

/-- What the parser reads, the search for the tag has found. -/
theorem flexFindL3rttTag_of_parse {data : CStr} {c : L3Counters}
    (h : flexParseL3rttCounters data = some c) : flexFindL3rttTag data = true := by
  unfold flexParseL3rttCounters at h
  split at h
  · cases h
  · obtain ⟨rest, hrest, -⟩ := Option.bind_eq_some_iff.mp h
    obtain ⟨s, t, hst⟩ := infix_of_afterTag hrest
    obtain ⟨pt, t', hdata, hpt, -⟩ := List.map_eq_append_iff.mp hst.symm
    obtain ⟨s', p, rfl, -, hp⟩ := List.map_eq_append_iff.mp hpt
    obtain rfl := map_spaced_eq_tag hp
    have hcopy : l3rttTag <:+: data.take 1023 := ⟨s', t', hdata.symm⟩
    exact decide_eq_true (hcopy.trans (List.take_prefix ..).isInfix)

/-! ## The counters -/

theorem length_decimal_counter (c : UInt32) : (decimal c.toNat).length ≤ 10 := by
  refine length_decimal_le (by norm_num) ?_
  have := c.toNat_lt
  omega

@[simp] theorem length_counterField (c : UInt32) : (counterField c).length = 11 := by
  have := length_decimal_counter c
  unfold counterField
  rw [List.length_leftpad]
  omega

/-- A column starts with a blank, whatever the counter. -/
theorem counterField_eq (c : UInt32) :
    ∃ blanks, counterField c = 0x20 :: (List.replicate blanks 0x20 ++ decimal c.toNat) := by
  have := length_decimal_counter c
  refine ⟨10 - (decimal c.toNat).length, ?_⟩
  unfold counterField
  rw [List.leftpad, show 11 - (decimal c.toNat).length = 10 - (decimal c.toNat).length + 1 by omega,
    List.replicate_succ, List.cons_append]

theorem map_spaced_decimal (k : ℕ) : (decimal k).map spaced = decimal k := by
  refine (List.map_congr_left fun b hb => ?_).trans (List.map_id' _)
  have hdigit := isDigit_of_mem_decimal hb
  unfold spaced
  rw [if_neg]
  rintro (rfl | rfl | rfl) <;> exact absurd hdigit (by decide)

theorem map_spaced_counterField (c : UInt32) : (counterField c).map spaced = counterField c := by
  obtain ⟨blanks, hfield⟩ := counterField_eq c
  simp [hfield, map_spaced_decimal, List.map_replicate, spaced]

theorem counterField_append (c : UInt32) (rest : CStr) :
    ∃ tail, counterField c ++ rest = 0x20 :: tail := by
  obtain ⟨blanks, hfield⟩ := counterField_eq c
  exact ⟨_, by rw [hfield, List.cons_append]⟩

/-- A column is read as its counter, up to the blank after it. -/
theorem parseCounter_counterField (c : UInt32) {rest : CStr} (h : ∃ tail, rest = 0x20 :: tail) :
    parseCounter (counterField c ++ rest) = some (c, rest) := by
  obtain ⟨tail, rfl⟩ := h
  obtain ⟨blanks, hfield⟩ := counterField_eq c
  have hdigits : ∀ b ∈ decimal c.toNat, isDigit b = true := fun b hb => isDigit_of_mem_decimal hb
  have hskip : (counterField c ++ 0x20 :: tail).dropWhile (· == 0x20) =
      decimal c.toNat ++ 0x20 :: tail := by
    obtain ⟨d, ds, hd⟩ := List.exists_cons_of_ne_nil (decimal_ne_nil c.toNat)
    have hd20 : d ≠ 0x20 := by
      rintro rfl
      exact absurd (hdigits 0x20 (by simp [hd])) (by decide)
    rw [hfield, hd]
    simp [hd20]
  have hval : min (digitsValue (decimal c.toNat)) (2 ^ 64 - 1) = c.toNat := by
    have := c.toNat_lt
    rw [digitsValue_decimal]
    omega
  have htake : (decimal c.toNat ++ 0x20 :: tail).takeWhile isDigit = decimal c.toNat := by
    rw [List.takeWhile_append_of_pos hdigits]
    simp [isDigit]
  have hdrop : (decimal c.toNat ++ 0x20 :: tail).dropWhile isDigit = 0x20 :: tail := by
    rw [List.dropWhile_append_of_pos hdigits]
    simp [isDigit]
  unfold parseCounter
  simp only [hskip, htake, hdrop, hval]
  simp [decimal_ne_nil]

theorem length_l3rttText_le (c : L3Counters) (nodeAlias : CStr) (maxDest : UInt32) :
    (l3rttText c nodeAlias maxDest).length ≤ 97 := by
  have hcount := length_decimal_counter maxDest
  have halias : (aliasField nodeAlias).length = 6 := by
    have htake := (List.takeWhile_sublist (· != 0) (l := nodeAlias.take 6)).length_le
    rw [List.length_take] at htake
    unfold aliasField
    rw [List.length_rightpad]
    omega
  unfold l3rttText
  simp only [List.length_append, List.length_cons, length_counterField, halias]
  simp only [l3rttTag, l3rttVersion, l3rttEnd, List.length_cons, List.length_nil]
  omega

/-- After octets the parser passes over, the text is read as its counters. -/
theorem flexParseL3rttCounters_text {pre : CStr} (hlen : pre.length ≤ 20)
    (hpre : ∀ rest, afterTag (pre.map spaced ++ (l3rttTag ++ rest)) = some rest)
    (c : L3Counters) (nodeAlias : CStr) (maxDest : UInt32) :
    flexParseL3rttCounters (pre ++ l3rttText c nodeAlias maxDest) = some c := by
  have hle := length_l3rttText_le c nodeAlias maxDest
  have hge : 7 ≤ (pre ++ l3rttText c nodeAlias maxDest).length := by
    simp [l3rttText, l3rttTag]
    omega
  have hcopy : ((pre ++ l3rttText c nodeAlias maxDest).take 1023).map spaced =
      pre.map spaced ++ (l3rttTag ++ (counterField c.c1 ++ (counterField c.c2 ++
        (counterField c.c3 ++
          (counterField c.c4 ++ (0x20 :: (aliasField nodeAlias ++ l3rttVersion ++
          decimal maxDest.toNat ++ l3rttEnd).map spaced)))))) := by
    rw [List.take_of_length_le (by rw [List.length_append]; omega)]
    simp only [l3rttText, List.map_append, List.map_cons, map_spaced_counterField]
    rfl
  unfold flexParseL3rttCounters
  rw [if_neg (not_lt.mpr hge), hcopy, hpre]
  simp only [Option.bind_eq_bind, Option.bind_some]
  rw [parseCounter_counterField _ (counterField_append ..), Option.bind_some,
    parseCounter_counterField _ (counterField_append ..), Option.bind_some,
    parseCounter_counterField _ (counterField_append ..), Option.bind_some,
    parseCounter_counterField _ ⟨_, rfl⟩]
  rfl

/-! ## The answer is understood -/

theorem flexFindL3rttTag_text (pre : CStr) (c : L3Counters) (nodeAlias : CStr) (maxDest : UInt32) :
    flexFindL3rttTag (pre ++ l3rttText c nodeAlias maxDest) = true := by
  unfold flexFindL3rttTag l3rttText
  rw [decide_eq_true_eq]
  exact ⟨pre, _, by rw [List.append_assoc]⟩

theorem flexBuildL3rtt_some (c : L3Counters) (nodeAlias : CStr) (maxDest : UInt32) :
    flexBuildL3rtt 256 c nodeAlias maxDest = some (l3rttText c nodeAlias maxDest) := by
  have hle := length_l3rttText_le c nodeAlias maxDest
  unfold flexBuildL3rtt
  exact if_neg (by omega)

theorem PathNode.flexNetProcessCF_l3rtt (n : PathNode) (l : LinkId) {data : CStr} {c : L3Counters}
    (h : flexParseL3rttCounters data = some c) : n.flexNetProcessCF l data = .l3rtt := by
  have hne : data.isEmpty = false := by
    cases data with
    | nil => cases h
    | cons b t => rfl
  unfold PathNode.flexNetProcessCF
  rw [hne, flexFindL3rttTag_of_parse h]
  rfl

/-- A probe is answered with its own first two counters and our two; in the probe's envelope, if it
came in one, back to the prober. -/
theorem PathNode.flexNetProcessCF_l3rtt_reply {n : PathNode} {l : LinkId} {data : CStr}
    {peer : L3Counters} (pending : List CStr) (nodeAlias : CStr) (later : UInt32)
    (hprobe : flexCheckProbeReply pending data = false)
    (hpeer : flexParseL3rttCounters data = some peer)
    (hcalls : ∀ hdr, l3Envelope data = some hdr → n.cfg.myCall.Shifted ∧ hdr.source.Shifted) :
    n.flexNetProcessCF l data = .l3rtt ∧
      ∃ reply, n.l3rttReply pending nodeAlias later data = some reply ∧
      flexFindL3rttTag reply = true ∧
      flexParseL3rttCounters reply = some (n.replyCounters peer later) ∧
      ∀ hdr, l3Envelope data = some hdr →
        flexl3Parse reply = some
          { dest := hdr.source
            source := n.cfg.myCall
            ttl := hdr.ttl
            circuitIndex := hdr.circuitIndex
            circuitId := hdr.circuitId
            txSeq := 0
            rxSeq := 0
            opcode := .info
            payload := n.replyText peer nodeAlias later } := by
  have hle := length_l3rttText_le (n.replyCounters peer later) nodeAlias
    (UInt32.ofNat n.dests.length)
  have hreply : n.l3rttReply pending nodeAlias later data =
      match l3Envelope data with
      | some hdr => some (buildHeader hdr.source n.cfg.myCall hdr.ttl hdr.circuitIndex
          hdr.circuitId 0 0 .info ++ n.replyText peer nodeAlias later)
      | none => some (n.replyText peer nodeAlias later) := by
    unfold Node.l3rttReply
    simp only [hprobe, hpeer, flexBuildL3rtt_some, Bool.false_eq_true, if_false,
      Option.bind_eq_bind, Option.bind_some]
    cases l3Envelope data with
    | none => exact if_pos (by omega)
    | some hdr => exact if_neg (by omega)
  refine ⟨flexNetProcessCF_l3rtt n l hpeer, ?_⟩
  cases henv : l3Envelope data with
  | none =>
    rw [henv] at hreply
    refine ⟨_, hreply, flexFindL3rttTag_text [] .., ?_, fun hdr h => by cases h⟩
    exact @flexParseL3rttCounters_text [] (by simp) (fun rest => afterTag_tag rest) ..
  | some hdr =>
    rw [henv] at hreply
    obtain ⟨hmine, hpeerCall⟩ := hcalls hdr henv
    refine ⟨_, hreply, flexFindL3rttTag_text .., ?_, ?_⟩
    · refine flexParseL3rttCounters_text (by simp [buildHeader]) (fun rest => ?_) ..
      exact afterTag_header hpeerCall hmine ..
    · rintro _ ⟨⟩
      exact flexl3Parse_info ..

namespace Bench

/-- The envelope of a probe of `A` to the group `L3RTT`, circuit 7 of 9. -/
def probeEnvelope : L3Header where
  dest := ⟨[0x98, 0x66, 0xA4, 0xA8, 0xA8, 0x40], 0x60, rfl⟩
  source := addr 0x41
  ttl := 2
  circuitIndex := 7
  circuitId := 9
  txSeq := 0
  rxSeq := 0
  opcode := .info
  payload := l3rttText ⟨1234567890, 4294967295, 0, 7⟩ [0x41, 0x4C, 0x46, 0x41] 12

/-- The frame it is in. -/
def probeFrame : CStr :=
  buildHeader probeEnvelope.dest probeEnvelope.source 2 7 9 0 0 .info ++ probeEnvelope.payload

set_option maxRecDepth 10000 in
/-- Our answer to it reaches `A` in the same circuit. -/
theorem probe_answered : overlapping.flexNetProcessCF 0 probeFrame = .l3rtt ∧
    ∃ reply, overlapping.l3rttReply [] [0x48, 0x55, 0x42] 61 probeFrame = some reply ∧
      flexFindL3rttTag reply = true ∧
      flexParseL3rttCounters reply =
        some (overlapping.replyCounters ⟨1234567890, 4294967295, 0, 7⟩ 61) ∧
      ∀ hdr, l3Envelope probeFrame = some hdr →
        flexl3Parse reply = some
          { dest := hdr.source
            source := overlapping.cfg.myCall
            ttl := hdr.ttl
            circuitIndex := hdr.circuitIndex
            circuitId := hdr.circuitId
            txSeq := 0
            rxSeq := 0
            opcode := .info
            payload :=
              overlapping.replyText ⟨1234567890, 4294967295, 0, 7⟩ [0x48, 0x55, 0x42] 61 } := by
  have henv : l3Envelope probeFrame = some probeEnvelope := by decide +kernel
  refine PathNode.flexNetProcessCF_l3rtt_reply [] [0x48, 0x55, 0x42] 61 (by decide +kernel)
    (by decide +kernel) fun hdr hhdr => ?_
  obtain rfl : probeEnvelope = hdr := Option.some.inj (henv.symm.trans hhdr)
  exact ⟨by decide +kernel, by decide +kernel⟩

end Bench

end FlexNet
