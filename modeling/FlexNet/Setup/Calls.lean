import FlexNet.Setup.Locals
import FlexNet.Routing.Stations
import FlexNet.L2.Frames

/-!
# A callsign as text and as an address

A call is a base of one to six letters or digits and an SSID of 0 to 15.  `AxCall.Names` is its
AX.25 address, `callText` the text of it; every function of the configuration that takes a call
apart finds the two parts again.
-/

namespace FlexNet

/-! ## The text -/

/-- A base of one to six letters or digits. -/
structure IsBase (base : CStr) : Prop where
  nonempty : base ≠ []
  short : base.length ≤ 6
  alnum : ∀ b ∈ base, isAlnum b = true

/-- `"CALL"` for SSID 0, `"CALL-n"` for the others. -/
def callText (base : CStr) (ssid : ℕ) : CStr :=
  base ++ if ssid = 0 then [] else 0x2D :: decimal ssid

/-- The AX.25 address of a call: the base shifted and padded, and the SSID bits. -/
structure AxCall.Names (a : AxCall) (base : CStr) (ssid : ℕ) : Prop where
  isBase : IsBase base
  shifted : a.call = (base.map fun b : UInt8 => b <<< 1).rightpad 6 0x40
  ssid : ((a.ssid >>> 1) &&& 0x0F).toNat = ssid

/-- Letters and digits survive the shift, and are no punctuation. -/
theorem alnum_shift {b : UInt8} (h : isAlnum b = true) :
    b <<< 1 ≠ 0x40 ∧ (b <<< 1) >>> 1 = b ∧ b ≠ 0 ∧ b ≠ 0x20 ∧ b ≠ 0x2D :=
  L2Addr.forall_octet (P := fun b => isAlnum b = true →
    b <<< 1 ≠ 0x40 ∧ (b <<< 1) >>> 1 = b ∧ b ≠ 0 ∧ b ≠ 0x20 ∧ b ≠ 0x2D) (by decide +kernel) b h

theorem AxCall.Names.ssid_le {a : AxCall} {base : CStr} {ssid : ℕ} (h : a.Names base ssid) :
    ssid ≤ 15 := by
  rw [← h.ssid, UInt8.toNat_and]
  exact Nat.and_le_right

theorem convFromAX25_names {a : AxCall} {base : CStr} {ssid : ℕ} (h : a.Names base ssid) :
    convFromAX25 a = callText base ssid := by
  have hshift := fun b hb => alnum_shift (h.isBase.alnum b hb)
  have hpad : ((base.map fun b : UInt8 => b <<< 1).rightpad 6 0x40).takeWhile (· != 0x40) =
      base.map fun b : UInt8 => b <<< 1 := by
    rw [List.rightpad, List.takeWhile_append_of_pos]
    · rw [List.takeWhile_replicate]
      simp
    · intro b hb
      obtain ⟨c, hc, rfl⟩ := List.mem_map.mp hb
      simpa using (hshift c hc).1
  have hback : (base.map fun b : UInt8 => b <<< 1).map (fun b : UInt8 => b >>> 1) = base := by
    rw [List.map_map]
    exact (List.map_congr_left fun b hb => (hshift b hb).2.1).trans (List.map_id base)
  unfold convFromAX25 callText
  rw [h.shifted, hpad, hback, h.ssid]

/-- The characters of a call: no NUL, no blank, and no dash before the SSID. -/
theorem callText_chars {base : CStr} (hb : IsBase base) (ssid : ℕ) :
    ∀ b ∈ callText base ssid, b ≠ 0 ∧ b ≠ 0x20 := by
  intro b hmem
  rcases List.mem_append.mp hmem with hmem | hmem
  · obtain ⟨-, -, h0, h20, -⟩ := alnum_shift (hb.alnum b hmem)
    exact ⟨h0, h20⟩
  · split at hmem
    · cases hmem
    · rcases List.mem_cons.mp hmem with rfl | hmem
      · decide
      · have hdigit := ne_of_isDigit (isDigit_of_mem_decimal hmem)
        exact ⟨hdigit.2.2.2.2, hdigit.1⟩

/-- `flex_normalize_callsign` of an address is its text. -/
theorem flexNormalizeCallsign_names {a : AxCall} {base : CStr} {ssid : ℕ} (h : a.Names base ssid) :
    flexNormalizeCallsign a = callText base ssid := by
  have hchars := callText_chars h.isBase ssid
  have hne : callText base ssid ≠ [] := by
    simp [callText, h.isBase.nonempty]
  rw [flexNormalizeCallsign, convFromAX25_names h,
    List.takeWhile_eq_self_iff.mpr fun b hb => by simpa using (hchars b hb).1,
    List.rdropWhile_eq_self_iff.mpr fun hlast => ?_]
  simpa using (hchars _ (List.getLast_mem hlast)).2

/-! ## Taking a call apart -/

section Split

variable {base : CStr} {ssid : ℕ}

theorem ne_dash_of_isBase (hb : IsBase base) : ∀ b ∈ base, (b != 0x2D) = true := by
  intro b hmem
  simpa using (alnum_shift (hb.alnum b hmem)).2.2.2.2

/-- The text after the base. -/
theorem callText_split (hb : IsBase base) :
    (callText base ssid).takeWhile (· != 0x2D) = base ∧
      (callText base ssid).dropWhile (· != 0x2D) =
        if ssid = 0 then [] else 0x2D :: decimal ssid := by
  have hne := ne_dash_of_isBase hb
  unfold callText
  rw [List.takeWhile_append_of_pos hne, List.dropWhile_append_of_pos hne]
  split
  · simp
  · simp

theorem splitFirstDash_callText (hb : IsBase base) :
    (splitFirstDash (callText base ssid)).1 = base ∧
      ssidOf (splitFirstDash (callText base ssid)).2 = ssid := by
  obtain ⟨htake, hdrop⟩ := @callText_split _ ssid hb
  unfold splitFirstDash
  rw [htake, hdrop]
  by_cases hzero : ssid = 0
  · subst hzero
    exact ⟨by simp [callText], rfl⟩
  · rw [if_neg hzero]
    refine ⟨rfl, ?_⟩
    have hatoi := atoi_padded 0 ssid
    simpa [ssidOf] using hatoi

/-- `flex_split_call` of a call. -/
theorem flexSplitCall_callText (hb : IsBase base) (hssid : ssid ≤ 15) :
    flexSplitCall (callText base ssid) = some (base.map toUpper, (ssid : ℤ)) := by
  obtain ⟨htake, -⟩ := @callText_split _ ssid hb
  have hpos := List.length_pos_iff.mpr hb.nonempty
  have hshort := hb.short
  have hall : base.all isAlnum = true := List.all_eq_true.mpr hb.alnum
  unfold flexSplitCall
  dsimp only
  have hok : ¬ (base.length = 0 ∨ 6 < base.length ∨ base.all isAlnum = false) := by
    rw [hall]
    rintro (hzero | hlong | hfalse)
    · omega
    · omega
    · cases hfalse
  rw [htake, if_neg hok, callText, List.drop_left]
  by_cases hzero : ssid = 0
  · subst hzero
    rfl
  · rw [if_neg hzero]
    have hdigits : (decimal ssid).all isDigit = true :=
      List.all_eq_true.mpr fun b hmem => isDigit_of_mem_decimal hmem
    dsimp only
    rw [digitsValue_decimal, hdigits, if_neg]
    rintro (hnil | hfalse | hlong)
    · exact decimal_ne_nil ssid (List.isEmpty_iff.mp hnil)
    · cases hfalse
    · omega

/-- Capitals compare as the letters do. -/
theorem strcasecmp_toUpper (s t : CStr) : strcasecmp (s.map toUpper) t = strcasecmp s t := by
  have hcase : ∀ b : UInt8, toLower (toUpper b) = toLower b :=
    L2Addr.forall_octet (by decide +kernel)
  unfold strcasecmp
  rw [List.map_map, List.map_congr_left (f := toLower ∘ toUpper) fun b _ => hcase b]

end Split

end FlexNet
