import FlexNet.L2.Declines

/-!
# Chains that are rewritten

`FlexNet_L2Transit` on the octets of a frame.  Every buffer with a valid address field is a frame
(`L2Frame.exists_frame`), and the buffer it returns has one again, with one entry more, one less, or
as it was: `L2Frame.chain_rewritten`.
-/

namespace FlexNet

open L2Circuit

namespace L2Frame

variable {buf buf' : CStr} {digis digis' our our' i : ℕ} {f : L2Frame}

/-! ## Address fields -/

/-- An entry of an address field, less its end bit: 0 is DEST, 1 ORIGIN. -/
def entryAt (buf : CStr) (i : ℕ) : CStr :=
  (buf.drop (7 * i)).take 6 ++ [octetAt buf (7 * i + 6) &&& 0xFE]

/-- A buffer with a valid address field: the end bit on its last entry only, at most 8 digipeaters,
and a control octet after it. -/
structure Addressed (buf : CStr) (digis : ℕ) : Prop where
  count : digis ≤ l2MaxDigis
  control : 14 + 7 * digis < buf.length
  last : ∀ i < digis + 2, endBit buf (7 * i) = decide (i + 1 = digis + 2)

/-- The address of an entry. -/
def addrAt (buf : CStr) (i : ℕ) : L2Addr :=
  ⟨⟨(List.range 6).map fun j => octetAt buf (7 * i + j), octetAt buf (7 * i + 6) &&& 0xFE, by simp⟩,
    L2Addr.forall_octet (P := fun b => (b &&& 0xFE) &&& 0x01 = 0) (by decide +kernel) _⟩

/-- An octet is its other bits and its end bit. -/
theorem endBit_ssid (b : UInt8) :
    (if (b &&& 0x01 != 0) = true then (b &&& 0xFE) ||| 0x01 else b &&& 0xFE) = b :=
  L2Addr.forall_octet (P := fun b =>
    (if (b &&& 0x01 != 0) = true then (b &&& 0xFE) ||| 0x01 else b &&& 0xFE) = b)
      (by decide +kernel) b

theorem drop_octet {i : ℕ} (hi : i < buf.length) :
    buf.drop i = octetAt buf i :: buf.drop (i + 1) := by
  rw [octetAt, List.getD_eq_getElem?_getD, List.getElem?_eq_getElem hi, Option.getD_some]
  exact List.drop_eq_getElem_cons hi

/-- The octets of an entry are those of its address. -/
theorem drop_addrAt (h : 7 * i + 7 ≤ buf.length) : buf.drop (7 * i) =
    (addrAt buf i).octets (endBit buf (7 * i)) ++ buf.drop (7 * (i + 1)) := by
  rw [L2Addr.octets, addrAt]
  dsimp only
  rw [endBit, endBit_ssid, drop_octet (by omega), drop_octet (i := 7 * i + 1) (by omega),
    drop_octet (i := 7 * i + 1 + 1) (by omega), drop_octet (i := 7 * i + 1 + 1 + 1) (by omega),
    drop_octet (i := 7 * i + 1 + 1 + 1 + 1) (by omega),
    drop_octet (i := 7 * i + 1 + 1 + 1 + 1 + 1) (by omega),
    drop_octet (i := 7 * i + 1 + 1 + 1 + 1 + 1 + 1) (by omega)]
  rfl

/-- The rest of an address field. -/
theorem field_addrAt (h : Addressed buf digis) {m : ℕ} (hm : i + m + 1 = digis + 2) :
    field ((List.range' i (m + 1)).map (addrAt buf)) ++ buf.drop (7 * (digis + 2)) =
      buf.drop (7 * i) := by
  have hcontrol := h.control
  induction m generalizing i with
  | zero =>
      have hlast := h.last i (by omega)
      rw [decide_eq_true (by omega : i + 1 = digis + 2)] at hlast
      rw [drop_addrAt (i := i) (by omega), hlast, show i + 1 = digis + 2 by omega]
      rfl
  | succ m ih =>
      have hmore := h.last i (by omega)
      rw [decide_eq_false (by omega : ¬ i + 1 = digis + 2)] at hmore
      rw [drop_addrAt (i := i) (by omega), hmore, ← ih (i := i + 1) (by omega), List.range'_succ,
        List.map_cons, field_cons, List.range'_succ, List.append_assoc]
      rfl

/-- Every buffer with a valid address field is a frame. -/
theorem exists_frame (h : Addressed buf digis) :
    ∃ f : L2Frame, f.octets = buf ∧ f.digis.length = digis ∧ f.tail ≠ [] := by
  have hcontrol := h.control
  refine ⟨⟨addrAt buf 0, addrAt buf 1, (List.range' 2 digis).map (addrAt buf),
    buf.drop (7 * (digis + 2))⟩, ?_, by simp, ?_⟩
  · have hfield := field_addrAt h (i := 0) (m := digis + 1) (by omega)
    rw [List.drop_zero] at hfield
    exact hfield
  · dsimp only
    rw [Ne, List.drop_eq_nil_iff]
    omega

/-! ## The entries of a frame -/

theorem entryAt_index (hi : i < f.addrs.length) :
    entryAt f.octets i = f.addrs[i].call ++ [f.addrs[i].ssid] := by
  obtain ⟨hsplit, hlen⟩ := f.addrs_split hi
  have hflat := length_flatMap_octets (f.addrs.take i) false
  have hssid := f.octetAt_ssid hsplit
  have hcall : (f.octets.drop (7 * i)).take 6 = f.addrs[i].call := by
    rw [f.octets_at hsplit, List.drop_append_of_le_length (by omega),
      List.drop_of_length_le (by omega),
      List.nil_append, L2Addr.octets, List.append_assoc]
    exact List.take_left' f.addrs[i].len
  have hclear : ∀ b : UInt8, b &&& 0x01 = 0 → b &&& 0xFE = b ∧ (b ||| 0x01) &&& 0xFE = b :=
    L2Addr.forall_octet (P := fun b => b &&& 0x01 = 0 → b &&& 0xFE = b ∧ (b ||| 0x01) &&& 0xFE = b)
      (by decide +kernel)
  obtain ⟨hplain, hset⟩ := hclear _ f.addrs[i].noEnd
  rw [hlen] at hssid
  rw [entryAt, hcall, hssid]
  split
  · rw [hset]
  · rw [hplain]

theorem addressed_octets (hcount : f.digis.length ≤ l2MaxDigis) (htail : f.tail ≠ []) :
    Addressed f.octets f.digis.length := by
  have htail := List.length_pos_iff.mpr htail
  have hlen := f.length_octets
  refine ⟨hcount, by omega, fun i hi => ?_⟩
  rw [f.endBit_index hi]
  rfl

theorem drop_octets : f.octets.drop (14 + 7 * f.digis.length) = f.tail := by
  have hlen := length_field f.addrs
  rw [octets]
  refine List.drop_left' ?_
  rw [hlen, length_addrs]
  omega

end L2Frame

namespace L2Node

variable {n k : L2Node} {port our : ℕ} {f : L2Frame} {e : Option L2Slot}

/-! ## What becomes of a frame -/

/-- What a frame is extended by is the hop. -/
theorem extend_appends {kind : L2Kind} {nexthop : AxCall} {pinned : Bool} {hopPort : ℕ}
    {f' : L2Frame}
    (h : (k.flexL2Extend port f e nexthop pinned hopPort kind).2 = some f') :
    f.appendDigi nexthop = some f' := by
  unfold flexL2Extend at h
  split at h
  · cases h
  dsimp only at h
  cases happend : f.appendDigi nexthop with
  | none =>
      rw [happend] at h
      cases h
  | some f'' =>
      rw [happend] at h
      exact h

/-- A frame goes on as it came, without the hop before the node, or with one more. -/
theorem transit_frame {out : L2Out} (hresult : (n.flexNetL2Transit port f our).2 = some out) :
    (out.frame = f ∧ out.our = our) ∨
      (1 ≤ our ∧ our < f.digis.length ∧ f.digis.length ≤ l2MaxDigis ∧
        out.frame = f.removeDigi (our - 1) ∧ out.our = our - 1) ∨
      (∃ call, f.appendDigi call = some out.frame ∧ f.callInChain call = false ∧
        f.digis.length < n.l2Cap port ∧ our < f.digis.length ∧ out.our = our) := by
  have hasIs : ∀ toPort, some (⟨f, our, toPort⟩ : L2Out) = some out →
      out.frame = f ∧ out.our = our := by
    intro toPort h
    obtain rfl := Option.some.inj h
    exact ⟨rfl, rfl⟩
  have hport : ∀ m : L2Node, (m.withPort port f our).2 = some out →
      out.frame = f ∧ out.our = our := by
    intro m h
    obtain ⟨toPort, heq⟩ := (m.withPort_spec port f our).1
    exact hasIs toPort (heq.symm.trans h)
  cases hpick : n.forwardPick port f our with
  | none =>
      rcases transit_unpicked hpick with heq | ⟨i, -, hour, hlt, hdigis, heq⟩ | heq | heq
      · rw [heq] at hresult
        exact .inl (hasIs 0 hresult)
      · rw [heq, withPort_eq] at hresult
        obtain rfl := Option.some.inj hresult
        exact .inr (.inl ⟨hour, hlt, hdigis, rfl, rfl⟩)
      · rw [heq] at hresult
        exact .inl (hport n hresult)
      · rw [heq] at hresult
        cases hresult
  | some picked =>
      obtain ⟨k, e, hop⟩ := picked
      have hcap := forwardPick_l2Cap hpick
      have hlast := (forwardPick_found hpick).1
      rw [transit_forwardOn hpick] at hresult
      cases hop with
      | declined => exact .inl (hport k hresult)
      | adjacent hopPort => exact .inl (hport _ hresult)
      | hop nexthop pinned hopPort =>
          unfold forwardOn at hresult
          dsimp only at hresult
          split at hresult
          · exact .inl (hasIs 0 hresult)
          rename_i hbars
          have happend := fun f' => @extend_appends k port f e f.kind nexthop pinned hopPort f'
          generalize k.flexL2Extend port f e nexthop pinned hopPort f.kind = result at *
          obtain ⟨m, result⟩ := result
          cases result with
          | none => exact .inl (hasIs 0 hresult)
          | some f' =>
              dsimp only at hresult
              rw [withPort_eq] at hresult
              obtain rfl := Option.some.inj hresult
              refine .inr (.inr ⟨nexthop, happend f' rfl, ?_, ?_, by omega, rfl⟩)
              · rw [Bool.eq_false_iff]
                exact fun hchain => hbars (.inl hchain)
              · rw [← hcap]
                exact not_le.mp fun hfull => hbars (.inr (.inr hfull))

end L2Node

namespace L2Frame

variable {buf buf' : CStr} {digis our limit : ℕ} {f f' : L2Frame}

/-- How the address field of a frame is rewritten on a port with a limit, 0 for none: not at all; by
a last entry that the chain did not have; or without the entry before the node's, which is at
`our`. -/
inductive Rewritten (limit : ℕ) (buf : CStr) (digis our : ℕ) : CStr → ℕ → ℕ → Prop
  | kept : Rewritten limit buf digis our buf digis our
  | grown {buf' : CStr} (call : AxCall) (append : flexL2AppendDigi buf call = some buf')
      (length : buf'.length = buf.length + 7) (fresh : flexL2CallInChain buf call = false)
      (room : digis + 1 ≤ l2MaxDigis ∧ (limit ≠ 0 → digis + 1 ≤ limit))
      (entries : ∀ i < digis + 2, entryAt buf' i = entryAt buf i)
      (added : entryAt buf' (digis + 2) = call.call ++ [call.ssid &&& 0x7E]) :
      Rewritten limit buf digis our buf' (digis + 1) our
  | shrunk {buf' : CStr} (after : 1 ≤ our)
      (remove : flexL2RemoveDigi buf (14 + 7 * (our - 1)) = some buf')
      (length : buf'.length + 7 = buf.length)
      (before : ∀ i < our + 1, entryAt buf' i = entryAt buf i)
      (moved : ∀ i, our + 1 ≤ i → i + 1 < digis + 2 → entryAt buf' i = entryAt buf (i + 1)) :
      Rewritten limit buf digis our buf' (digis - 1) (our - 1)

/-- The place that is returned is the node's own entry. -/
theorem Rewritten.own {digis' our' : ℕ} (h : Rewritten limit buf digis our buf' digis' our')
    (hlt : our < digis) : entryAt buf' (our' + 2) = entryAt buf (our + 2) := by
  cases h with
  | kept => rfl
  | grown _ _ _ _ _ hentries => exact hentries (our + 2) (by omega)
  | shrunk hour _ _ _ hmoved =>
      have hown := hmoved (our + 1) le_rfl (by omega)
      rwa [show our - 1 + 2 = our + 1 by omega]

theorem rewritten_append (our : ℕ) {call : AxCall} (hcount : f.digis.length ≤ l2MaxDigis)
    (happend : f.appendDigi call = some f') (hfresh : f.callInChain call = false)
    (hroom : f.digis.length + 1 ≤ l2MaxDigis ∧ (limit ≠ 0 → f.digis.length + 1 ≤ limit)) :
    Rewritten limit f.octets f.digis.length our f'.octets f'.digis.length our := by
  have hoctets := f.flexL2AppendDigi_octets hcount call
  rw [happend, Option.map_some] at hoctets
  obtain ⟨hlen, -, -⟩ := L2Node.append_length happend
  have haddrs : f'.addrs = f.addrs ++ [.ofCall call] ∧ f'.tail = f.tail := by
    obtain rfl := appendDigi_some happend
    exact ⟨rfl, rfl⟩
  have hcount' := f'.length_addrs
  have hcount'' := f.length_addrs
  rw [hlen]
  refine .grown call hoctets ?_ ?_ hroom (fun i hi => ?_) ?_
  · rw [f'.length_octets, f.length_octets, hlen, haddrs.2]
    omega
  · rw [f.flexL2CallInChain_octets hcount]
    exact hfresh
  · rw [entryAt_index (by omega), entryAt_index (by omega)]
    simp only [haddrs.1]
    rw [List.getElem_append_left (by omega)]
  · rw [entryAt_index (by omega)]
    simp only [haddrs.1]
    rw [List.getElem_append_right (by omega)]
    simp [hcount'', L2Addr.ofCall]

theorem rewritten_remove (limit : ℕ) (hour : 1 ≤ our) (hlt : our < f.digis.length) :
    Rewritten limit f.octets f.digis.length our (f.removeDigi (our - 1)).octets
      (f.removeDigi (our - 1)).digis.length (our - 1) := by
  have hoctets := f.flexL2RemoveDigi_octets (i := our - 1) (by omega)
  have hlen : (f.removeDigi (our - 1)).digis.length = f.digis.length - 1 :=
    List.length_eraseIdx_of_lt (by omega)
  have haddrs : (f.removeDigi (our - 1)).addrs = f.addrs.eraseIdx (our + 1) := by
    obtain ⟨our, rfl⟩ := Nat.exists_eq_add_of_le' hour
    rfl
  have hcount := f.length_addrs
  have hcount' := (f.removeDigi (our - 1)).length_addrs
  rw [hlen]
  refine .shrunk hour hoctets ?_ (fun i hi => ?_) fun i hi hi' => ?_
  · rw [length_octets, f.length_octets, hlen]
    change 14 + 7 * (f.digis.length - 1) + f.tail.length + 7 = _
    omega
  · rw [entryAt_index (by omega), entryAt_index (by omega)]
    simp only [haddrs]
    rw [List.getElem_eraseIdx, dif_pos hi]
  · rw [entryAt_index (by omega), entryAt_index (by omega)]
    simp only [haddrs]
    rw [List.getElem_eraseIdx, dif_neg (by omega)]

/-- Every buffer with a valid address field is a frame, and what `FlexNet_L2Transit` returns of it
has a valid address field again: DEST, ORIGIN, the other digipeaters and what follows them are as
they were, in their order, and the place it returns is the node's own entry. -/
theorem chain_rewritten (h : Addressed buf digis) :
    ∃ f : L2Frame, f.octets = buf ∧ f.digis.length = digis ∧
      ∀ (n : L2Node) (port our : ℕ) (out : L2Out), (n.flexNetL2Transit port f our).2 = some out →
        Rewritten (n.portMaxDigis port) buf digis our
          out.frame.octets out.frame.digis.length out.our ∧
        Addressed out.frame.octets out.frame.digis.length ∧
        entryAt out.frame.octets (out.our + 2) = entryAt buf (our + 2) ∧
        out.frame.octets.drop (14 + 7 * out.frame.digis.length) = buf.drop (14 + 7 * digis) := by
  obtain ⟨f, rfl, rfl, htail⟩ := exists_frame h
  refine ⟨f, rfl, rfl, fun n port our out hresult => ?_⟩
  rcases L2Node.transit_frame hresult with ⟨hframe, hour⟩ | ⟨hour, hlt, -, hframe, hplace⟩ |
    ⟨call, happend, hfresh, hcap, hlt, hplace⟩
  · rw [hframe, hour]
    exact ⟨.kept, h, rfl, rfl⟩
  · rw [hframe, hplace]
    have hrewritten := rewritten_remove (n.portMaxDigis port) hour hlt
    have hlen : (f.removeDigi (our - 1)).digis.length = f.digis.length - 1 :=
      List.length_eraseIdx_of_lt (by omega)
    have hcount := h.count
    refine ⟨hrewritten, addressed_octets (by omega) htail, hrewritten.own hlt, ?_⟩
    rw [drop_octets, drop_octets]
    rfl
  · rw [hplace]
    have hroom : f.digis.length + 1 ≤ l2MaxDigis ∧
        (n.portMaxDigis port ≠ 0 → f.digis.length + 1 ≤ n.portMaxDigis port) := by
      unfold L2Node.l2Cap at hcap
      split at hcap
      · omega
      · rw [lt_min_iff] at hcap
        exact ⟨hcap.2, fun _ => hcap.1⟩
    have hrewritten := rewritten_append our h.count happend hfresh hroom
    obtain ⟨hlen, -, -⟩ := L2Node.append_length happend
    have htail' : out.frame.tail = f.tail := by
      rw [appendDigi_some happend]
    refine ⟨hrewritten, addressed_octets (by omega) (htail' ▸ htail), hrewritten.own hlt, ?_⟩
    rw [drop_octets, drop_octets]
    exact htail'

end L2Frame

/-! ### Frames that are rewritten -/

namespace Bench

open L2Frame

/-- The octets of a frame to `K`, over `X` and the node. -/
def openingOctets : CStr := opening.frame.octets

set_option maxRecDepth 10000 in
theorem openingOctets_addressed : Addressed openingOctets 2 := by
  refine ⟨by decide, by decide, ?_⟩
  decide +kernel

/-- It is the frame of a node. -/
theorem chain_rewritten_opening : ∃ f : L2Frame, f.octets = openingOctets ∧ f.digis.length = 2 ∧
    ∀ (n : L2Node) (port our : ℕ) (out : L2Out), (n.flexNetL2Transit port f our).2 = some out →
      Rewritten (n.portMaxDigis port) openingOctets 2 our out.frame.octets out.frame.digis.length
        out.our ∧
      Addressed out.frame.octets out.frame.digis.length ∧
      entryAt out.frame.octets (out.our + 2) = entryAt openingOctets (our + 2) ∧
      out.frame.octets.drop (14 + 7 * out.frame.digis.length) = openingOctets.drop 28 :=
  chain_rewritten openingOctets_addressed

set_option maxRecDepth 10000 in
/-- On a port that sets no limit it gets a third digipeater. -/
theorem chain_over_limit : ¬ ∀ (n : L2Node) (port our : ℕ) (f : L2Frame) (out : L2Out),
    (n.flexNetL2Transit port f our).2 = some out → f.digis.length < out.frame.digis.length →
      out.frame.digis.length ≤ min l2MaxDigis (n.portMaxDigis port) := by
  intro hall
  have hlimit :=
    hall digipeater 1 1 opening.frame ⟨openingSent, 1, 0⟩ (by decide +kernel) (by decide)
  exact absurd hlimit (by decide)

end Bench

end FlexNet
