import FlexNet.Wire.Compact
import FlexNet.Wire.Frames
import Mathlib.Data.Nat.Digits.Lemmas

/-!
# Records survive the wire

What `flex_build_route_rec` writes, `flex_parse_compact_records` reads back, the cost as
`wireCost` clamped it: `parse_recordsFrame` says it for a frame of any records whose keys a
record can carry.
-/

namespace FlexNet

/-! ## Decimal numbers -/

theorem isDigit_digit {d : ℕ} (h : d < 10) : isDigit (UInt8.ofNat (0x30 + d)) = true := by
  interval_cases d <;> rfl

theorem digit_value {d : ℕ} (h : d < 10) : (UInt8.ofNat (0x30 + d)).toNat - 0x30 = d := by
  interval_cases d <;> rfl

theorem isDigit_of_mem_decimal {n : ℕ} {b : UInt8} (h : b ∈ decimal n) : isDigit b = true := by
  unfold decimal at h
  split_ifs at h
  · obtain rfl := List.mem_singleton.mp h
    rfl
  · obtain ⟨d, hd, rfl⟩ := List.mem_map.mp h
    exact isDigit_digit (Nat.digits_lt_base (by norm_num) (List.mem_reverse.mp hd))

theorem decimal_ne_nil (n : ℕ) : decimal n ≠ [] := by
  unfold decimal
  split_ifs with h
  · simp
  · simpa [Nat.digits_ne_nil_iff_ne_zero] using h

theorem digitsValue_decimal (n : ℕ) : digitsValue (decimal n) = n := by
  unfold decimal
  split_ifs with h
  · subst h; rfl
  · have hfold : ∀ l : List ℕ, (∀ d ∈ l, d < 10) →
        digitsValue (l.reverse.map fun d => UInt8.ofNat (0x30 + d)) = Nat.ofDigits 10 l := by
      intro l hl
      induction l with
      | nil => rfl
      | cons d l ih =>
          have hd := digit_value (hl d List.mem_cons_self)
          have hl' := ih fun x hx => hl x (List.mem_cons_of_mem _ hx)
          unfold digitsValue at hl' ⊢
          rw [List.reverse_cons, List.map_append, List.foldl_append, hl', Nat.ofDigits_cons]
          simp only [List.map_cons, List.map_nil, List.foldl_cons, List.foldl_nil, hd]
          omega
    rw [hfold _ fun d hd => Nat.digits_lt_base (by norm_num) hd, Nat.ofDigits_digits]

theorem length_decimal_le {n d : ℕ} (hd : 0 < d) (h : n < 10 ^ d) : (decimal n).length ≤ d := by
  unfold decimal
  split_ifs
  · exact hd
  · rw [List.length_map, List.length_reverse]
    exact (Nat.digits_length_le_iff (by norm_num) n).mpr h

theorem decimalInt_of_nonneg {z : ℤ} (h : 0 ≤ z) : decimalInt z = decimal z.toNat := by
  unfold decimalInt
  rw [if_neg (not_lt.mpr h)]
  congr 1
  omega

/-! ## One record -/

/-- A destination a compact record can carry. -/
structure Key.Encodable (k : Key) : Prop where
  short : k.call.bytes.length ≤ 6
  graphic : ∀ b ∈ k.call.bytes, b ≠ 0x20 ∧ b ≠ 0x00
  head : ∃ b, k.call.bytes.head? = some b ∧ b ≠ 0x0D ∧ b ≠ 0x0A
  lo : 0 ≤ k.lo ∧ k.lo ≤ 15
  hi : 0 ≤ k.hi ∧ k.hi ≤ 15

/-- A cost the rule can queue fits the five digits the parser allows. -/
theorem wireCost_bounds {rtt : ℤ} (h₀ : 0 < rtt) (h₁ : rtt ≤ rttInfinity) :
    0 ≤ wireCost rtt ∧ wireCost rtt ≤ rttInfinity := by
  unfold wireCost rttWireMax rttInfinity at *
  split_ifs <;> omega

/-- A cost the wire carries as it is. -/
theorem wireCost_eq {rtt : ℤ} (h : rtt ≤ rttWireMax ∨ rtt = rttInfinity) : wireCost rtt = rtt := by
  unfold wireCost rttWireMax rttInfinity at *
  split_ifs <;> omega

theorem length_costDigits_le {rtt : ℤ} (h₀ : 0 < rtt) (h₁ : rtt ≤ rttInfinity) :
    (decimalInt (wireCost rtt)).length ≤ 5 := by
  have hcost := wireCost_bounds h₀ h₁
  rw [decimalInt_of_nonneg hcost.1]
  refine length_decimal_le (by norm_num) ?_
  unfold rttInfinity at hcost
  omega

theorem length_callField (c : Callsign) : (callField c).length = 6 := by
  unfold callField
  rw [List.length_rightpad, List.length_take]
  omega

/-- A record with a cost the rule can queue is at most 14 octets long. -/
theorem length_recordOctets_le {k : Key} {rtt : ℤ} (h₀ : 0 < rtt) (h₁ : rtt ≤ rttInfinity) :
    (recordOctets k rtt).length ≤ 14 := by
  have hdigits := length_costDigits_le h₀ h₁
  unfold recordOctets
  simp only [List.length_append, length_callField, List.length_cons, List.length_nil]
  omega

/-- A record without its closing blank. -/
def recordCore (k : Key) (rtt : ℤ) : CStr :=
  callField k.call ++ [ssidOctet k.lo, ssidOctet k.hi] ++ decimalInt (wireCost rtt)

theorem recordOctets_eq (k : Key) (rtt : ℤ) : recordOctets k rtt = recordCore k rtt ++ [0x20] := rfl

/-- What the parser makes of a record. -/
def readBack (k : Key) (rtt : ℤ) : Record :=
  ⟨k, wireCost rtt, decide (rttInfinity ≤ wireCost rtt)⟩

theorem callField_eq {k : Key} (hk : k.Encodable) :
    callField k.call = k.call.bytes ++ List.replicate (6 - k.call.bytes.length) 0x20 := by
  rw [callField, List.take_of_length_le hk.short, List.rightpad]

theorem filter_callField {k : Key} (hk : k.Encodable) :
    (callField k.call).filter (· != 0x20) = k.call.bytes := by
  have hcall : k.call.bytes.filter (· != 0x20) = k.call.bytes :=
    List.filter_eq_self.mpr fun b hb => by simpa using (hk.graphic b hb).1
  rw [callField_eq hk, List.filter_append, hcall]
  simp

theorem parseSsid_ssidOctet {s : ℤ} (h : 0 ≤ s ∧ s ≤ 15) : parseSsid (ssidOctet s) = s := by
  obtain ⟨h₀, h₁⟩ := h
  interval_cases s <;> decide

/-- The parser reads a record back, and stops after it. -/
theorem parseRecord_core {k : Key} {rtt : ℤ} {rest : CStr} (hk : k.Encodable) (h₀ : 0 < rtt)
    (h₁ : rtt ≤ rttInfinity) (hrest : rest.head? = none ∨ rest.head? = some 0x20) :
    parseRecord false (recordCore k rtt ++ rest) =
      some (readBack k rtt, rest.dropWhile (· == 0x20)) := by
  have hcost := wireCost_bounds h₀ h₁
  have hfive := length_costDigits_le h₀ h₁
  rw [decimalInt_of_nonneg hcost.1] at hfive
  have hfield := length_callField k.call
  have hdigits : ((decimal (wireCost rtt).toNat ++ rest).take 6).takeWhile isDigit =
      decimal (wireCost rtt).toNat := by
    rw [List.take_append, List.take_of_length_le (by omega),
      List.takeWhile_append_of_pos fun b hb => isDigit_of_mem_decimal hb]
    have hstop :
        (rest.take (6 - (decimal (wireCost rtt).toNat).length)).takeWhile isDigit = [] := by
      obtain ⟨m, hm⟩ : ∃ m, 6 - (decimal (wireCost rtt).toNat).length = m + 1 :=
        ⟨5 - (decimal (wireCost rtt).toNat).length, by omega⟩
      rw [hm]
      cases rest with
      | nil => rfl
      | cons b rest =>
          have hb : b = 0x20 := by simpa using hrest
          subst hb
          rfl
    rw [hstop, List.append_nil]
  -- the record as the parser cuts it up
  set text := decimal (wireCost rtt).toNat ++ rest with htext
  have hp : recordCore k rtt ++ rest =
      callField k.call ++ (ssidOctet k.lo :: ssidOctet k.hi :: text) := by
    simp [recordCore, decimalInt_of_nonneg hcost.1, htext]
  rw [hp]
  obtain ⟨c, hc, hcr, hlf⟩ := hk.head
  have hhead : (callField k.call ++ (ssidOctet k.lo :: ssidOctet k.hi :: text)).head? = some c := by
    rw [callField_eq hk]
    cases hbytes : k.call.bytes <;> simp_all
  have htake : (callField k.call ++ (ssidOctet k.lo :: ssidOctet k.hi :: text)).take 6 =
      callField k.call := by
    rw [List.take_append_of_le_length hfield.ge, List.take_of_length_le hfield.le]
  have hlo : (callField k.call ++ (ssidOctet k.lo :: ssidOctet k.hi :: text)).getD 6 0 =
      ssidOctet k.lo := by
    rw [List.getD_eq_getElem?_getD, List.getElem?_append_right hfield.le, hfield]
    rfl
  have hhi : (callField k.call ++ (ssidOctet k.lo :: ssidOctet k.hi :: text)).getD 7 0 =
      ssidOctet k.hi := by
    rw [List.getD_eq_getElem?_getD, List.getElem?_append_right (by omega), hfield]
    rfl
  have hdrop : (callField k.call ++ (ssidOctet k.lo :: ssidOctet k.hi :: text)).drop 8 = text := by
    rw [List.drop_append, hfield, List.drop_of_length_le (by omega)]
    rfl
  have hlen : 8 ≤ (callField k.call ++ (ssidOctet k.lo :: ssidOctet k.hi :: text)).length := by
    simp only [List.length_append, hfield, List.length_cons]
    omega
  generalize callField k.call ++ (ssidOctet k.lo :: ssidOctet k.hi :: text) = line at *
  have hafter : line.drop (8 + (decimal (wireCost rtt).toNat).length) = rest := by
    rw [← List.drop_drop, hdrop, htext, List.drop_left]
  obtain ⟨b, line, rfl⟩ : ∃ b t, line = b :: t := by
    cases line with
    | nil => simp at hhead
    | cons b t => exact ⟨b, t, rfl⟩
  obtain rfl : b = c := by simpa using hhead
  unfold parseRecord
  dsimp only
  rw [if_neg (by simp [hcr, hlf]), if_neg (by omega), htake, hlo, hhi, hdrop, hdigits, hafter,
    filter_callField hk, Callsign.ofCStr_bytes, parseSsid_ssidOctet hk.lo,
    parseSsid_ssidOctet hk.hi, digitsValue_decimal]
  simp only [Bool.false_eq_true, if_false, readBack, Int.toNat_of_nonneg hcost.1]

/-! ## A frame of records -/

/-- The octets of some records, in order. -/
def recordsOctets (rs : List (Key × ℤ)) : CStr :=
  rs.flatMap fun r => recordOctets r.1 r.2

/-- The frame that carries some records. -/
def recordsFrame (rs : List (Key × ℤ)) : CStr :=
  [0x33] ++ recordsOctets rs ++ [0x0D]

/-- Records the rule can queue and the wire can carry. -/
def Sendable (rs : List (Key × ℤ)) : Prop :=
  ∀ r ∈ rs, r.1.Encodable ∧ 0 < r.2 ∧ r.2 ≤ rttInfinity

/-- The records of a frame as the parser gets to see them: the last blank is stripped. -/
def recordsText : List (Key × ℤ) → CStr
  | [] => []
  | [r] => recordCore r.1 r.2
  | r :: s :: rs => recordCore r.1 r.2 ++ 0x20 :: recordsText (s :: rs)

theorem recordsOctets_eq {rs : List (Key × ℤ)} (h : rs ≠ []) :
    recordsOctets rs = recordsText rs ++ [0x20] := by
  induction rs with
  | nil => exact absurd rfl h
  | cons r rs ih =>
      cases rs with
      | nil => simp [recordsOctets, recordsText, recordOctets_eq]
      | cons s rs =>
          have hrest := ih (by simp)
          unfold recordsOctets at hrest ⊢
          rw [List.flatMap_cons, hrest, recordsText, recordOctets_eq]
          simp

theorem recordCore_head {k : Key} (hk : k.Encodable) (rtt : ℤ) (rest : CStr) :
    ∃ b, (recordCore k rtt ++ rest).head? = some b ∧ b ≠ 0x20 := by
  obtain ⟨c, hc, -, -⟩ := hk.head
  refine ⟨c, ?_, (hk.graphic c (List.mem_of_mem_head? hc)).1⟩
  unfold recordCore
  rw [callField_eq hk]
  cases hbytes : k.call.bytes <;> simp_all

theorem recordCore_last {k : Key} {rtt : ℤ} (h₀ : 0 < rtt) (h₁ : rtt ≤ rttInfinity) :
    ∃ init b, recordCore k rtt = init ++ [b] ∧ isDigit b = true := by
  have hne := decimal_ne_nil (wireCost rtt).toNat
  refine ⟨callField k.call ++ [ssidOctet k.lo, ssidOctet k.hi] ++
    (decimal (wireCost rtt).toNat).dropLast, (decimal (wireCost rtt).toNat).getLast hne, ?_,
    isDigit_of_mem_decimal (List.getLast_mem hne)⟩
  rw [recordCore, decimalInt_of_nonneg (wireCost_bounds h₀ h₁).1, List.append_assoc _ _ [_],
    List.dropLast_append_getLast]

/-- The text of some records ends on a digit. -/
theorem recordsText_last {rs : List (Key × ℤ)} (hrs : rs ≠ []) (h : Sendable rs) :
    ∃ init b, recordsText rs = init ++ [b] ∧ isDigit b = true := by
  induction rs with
  | nil => exact absurd rfl hrs
  | cons r rs ih =>
      obtain ⟨-, h₀, h₁⟩ := h r List.mem_cons_self
      cases rs with
      | nil => exact recordCore_last h₀ h₁
      | cons s rs =>
          obtain ⟨init, b, htext, hdigit⟩ :=
            ih (by simp) fun x hx => h x (List.mem_cons_of_mem _ hx)
          exact ⟨recordCore r.1 r.2 ++ 0x20 :: init, b, by simp [recordsText, htext], hdigit⟩

theorem ne_of_isDigit {b : UInt8} (h : isDigit b = true) :
    b ≠ 0x20 ∧ b ≠ 0x2D ∧ b ≠ 0x0D ∧ b ≠ 0x0A ∧ b ≠ 0 := by
  refine ⟨?_, ?_, ?_, ?_, ?_⟩ <;> rintro rfl <;> revert h <;> decide

/-- No octet of a record is a NUL. -/
theorem ne_nul_of_mem_recordOctets {k : Key} {rtt : ℤ} {b : UInt8} (hk : k.Encodable) (h₀ : 0 < rtt)
    (h₁ : rtt ≤ rttInfinity) (hb : b ∈ recordOctets k rtt) : b ≠ 0 := by
  have hssid : ∀ s : ℤ, 0 ≤ s ∧ s ≤ 15 → ssidOctet s ≠ 0 := by
    rintro s ⟨hs₀, hs₁⟩
    interval_cases s <;> decide
  rw [recordOctets, callField_eq hk, decimalInt_of_nonneg (wireCost_bounds h₀ h₁).1] at hb
  simp only [List.mem_append, List.mem_cons, List.not_mem_nil, or_false, List.mem_replicate] at hb
  rcases hb with (((hb | ⟨-, rfl⟩) | rfl | rfl) | hb) | rfl
  · exact (hk.graphic b hb).2
  · decide
  · exact hssid _ hk.lo
  · exact hssid _ hk.hi
  · exact (ne_of_isDigit (isDigit_of_mem_decimal hb)).2.2.2.2
  · decide

/-- The record loop skips blanks before it looks. -/
theorem parseRecords_dropWhile {withdrawal : Bool} {max : ℕ} {p : CStr} :
    parseRecords withdrawal max (p.dropWhile (· == 0x20)) = parseRecords withdrawal max p := by
  cases max with
  | zero => rfl
  | succ max => rw [parseRecords, parseRecords, List.dropWhile_idempotent]

/-- The record loop reads the records back. -/
theorem parseRecords_text {rs : List (Key × ℤ)} {max : ℕ} (h : Sendable rs)
    (hmax : rs.length ≤ max) :
    parseRecords false max (recordsText rs) = rs.map fun r => readBack r.1 r.2 := by
  induction rs generalizing max with
  | nil => cases max <;> rfl
  | cons r rs ih =>
      obtain ⟨hk, h₀, h₁⟩ := h r List.mem_cons_self
      have hrs : Sendable rs := fun x hx => h x (List.mem_cons_of_mem _ hx)
      obtain ⟨max, rfl⟩ : ∃ m, max = m + 1 :=
        ⟨max - 1, by simp only [List.length_cons] at hmax; omega⟩
      -- the text is the first record, and perhaps a blank and the others
      obtain ⟨rest, htext, hrest, hdrop⟩ : ∃ rest,
          recordsText (r :: rs) = recordCore r.1 r.2 ++ rest ∧
          (rest.head? = none ∨ rest.head? = some 0x20) ∧
          (rest.dropWhile (· == 0x20)).dropWhile (· == 0x20) = recordsText rs := by
        cases rs with
        | nil => exact ⟨[], by simp [recordsText], .inl rfl, rfl⟩
        | cons s rs =>
            refine ⟨0x20 :: recordsText (s :: rs), rfl, .inr rfl, ?_⟩
            have hhead : ∃ b, (recordsText (s :: rs)).head? = some b ∧ b ≠ 0x20 := by
              obtain ⟨hk', -, -⟩ := hrs s List.mem_cons_self
              cases rs with
              | nil => simpa [recordsText] using recordCore_head hk' s.2 []
              | cons u rs => exact recordCore_head hk' s.2 _
            obtain ⟨b, hb, hne⟩ := hhead
            cases htail : recordsText (s :: rs) with
            | nil => simp [htail] at hb
            | cons c t =>
                obtain rfl : c = b := by simpa [htail] using hb
                simp [hne]
      have hstart : (recordCore r.1 r.2 ++ rest).dropWhile (· == 0x20) =
          recordCore r.1 r.2 ++ rest := by
        obtain ⟨b, hb, hne⟩ := recordCore_head hk r.2 rest
        cases htail : recordCore r.1 r.2 ++ rest with
        | nil => rfl
        | cons c t =>
            obtain rfl : c = b := by simpa [htail] using hb
            simp [hne]
      rw [htext, parseRecords, hstart, parseRecord_core hk h₀ h₁ hrest]
      dsimp only
      rw [← parseRecords_dropWhile, hdrop,
        ih hrs (by simp only [List.length_cons] at hmax; omega), List.map_cons]

theorem length_recordsOctets_le {rs : List (Key × ℤ)} (h : Sendable rs) :
    (recordsOctets rs).length ≤ 14 * rs.length := by
  induction rs with
  | nil => exact le_rfl
  | cons r rs ih =>
      obtain ⟨-, h₀, h₁⟩ := h r List.mem_cons_self
      have hr := length_recordOctets_le (k := r.1) h₀ h₁
      have hrs := ih fun x hx => h x (List.mem_cons_of_mem _ hx)
      unfold recordsOctets at hrs ⊢
      rw [List.flatMap_cons, List.length_append, List.length_cons]
      omega

theorem length_recordsFrame_ge {rs : List (Key × ℤ)} (hrs : rs ≠ []) :
    10 ≤ (recordsFrame rs).length := by
  obtain ⟨r, rs, rfl⟩ := List.exists_cons_of_ne_nil hrs
  simp only [recordsFrame, recordsOctets, List.flatMap_cons, recordOctets, List.length_append,
    length_callField, List.length_cons, List.length_nil]
  omega

/-- A frame of records is read back as it was written, the costs clamped to the wire. -/
theorem parse_recordsFrame {rs : List (Key × ℤ)} {max : ℕ} (hrs : rs ≠ []) (h : Sendable rs)
    (hmax : rs.length ≤ max) (hlen : rs.length ≤ 146) :
    flexParseCompactRecords (recordsFrame rs) max = rs.map fun r => readBack r.1 r.2 := by
  have hoctets := recordsOctets_eq hrs
  obtain ⟨init, b, htext, hdigit⟩ := recordsText_last hrs h
  have hshort := length_recordsOctets_le h
  have hnul : ∀ x ∈ recordsOctets rs ++ [0x0D], (x != 0) = true := by
    intro x hx
    rcases List.mem_append.mp hx with hx | hx
    · obtain ⟨r, hr, hx⟩ := List.mem_flatMap.mp hx
      obtain ⟨hk, h₀, h₁⟩ := h r hr
      simpa using ne_nul_of_mem_recordOctets hk h₀ h₁ hx
    · obtain rfl := List.mem_singleton.mp hx
      rfl
  have hstrip : (((recordsOctets rs ++ [0x0D]).take 2047).takeWhile (· != 0)).rdropWhile
      (fun b => b == 0x0D || b == 0x0A) = recordsOctets rs := by
    rw [List.take_of_length_le (by simp only [List.length_append, List.length_singleton]; omega),
      List.takeWhile_eq_self_iff.mpr hnul, List.rdropWhile_concat_pos _ _ _ (by decide), hoctets,
      List.rdropWhile_concat_neg _ _ _ (by decide)]
  have hbody : (recordsOctets rs).rdropWhile (· == 0x20) = recordsText rs := by
    rw [hoctets, List.rdropWhile_concat_pos _ _ _ (by decide), htext,
      List.rdropWhile_concat_neg _ _ _ (by simpa using (ne_of_isDigit hdigit).1)]
  have hflag : ((recordsOctets rs).getLast? == some 0x2D) = false := by
    rw [hoctets, List.getLast?_concat]
    decide
  have hlong := length_recordsFrame_ge hrs
  have hframe : recordsFrame rs = 0x33 :: (recordsOctets rs ++ [0x0D]) := by simp [recordsFrame]
  rw [hframe] at hlong ⊢
  unfold flexParseCompactRecords
  split
  · rename_i payload heq
    obtain ⟨-, rfl⟩ := List.cons.inj heq
    rw [if_neg (by omega)]
    dsimp only
    rw [hstrip, hflag]
    simp only [Bool.false_eq_true, if_false]
    rw [hbody, parseRecords_text h hmax]
  · rename_i hno
    exact absurd rfl (hno _)

/-- A frame of records is a compact frame. -/
theorem frameType_recordsFrame {rs : List (Key × ℤ)} {lt3byte : Bool} (hrs : rs ≠ []) :
    flexParseCeFrame lt3byte (recordsFrame rs) = some .compact := by
  have hlong := length_recordsFrame_ge hrs
  obtain ⟨rest, hframe, hrest⟩ : ∃ rest, recordsFrame rs = 0x33 :: rest ∧ 3 ≤ rest.length :=
    ⟨recordsOctets rs ++ [0x0D], by simp [recordsFrame], by
      simp only [recordsFrame, List.length_append, List.length_singleton] at hlong ⊢
      omega⟩
  have hshort : shortLinkTime (0x33 :: rest) = false := by
    unfold shortLinkTime
    split
    · simp_all
    · rfl
  have hstatus : statusFrame (0x33 :: rest) = none := by
    unfold statusFrame
    split
    · simp_all
    · rfl
  rw [hframe, flexParseCeFrame]
  simp [hshort, hstatus]

end FlexNet
