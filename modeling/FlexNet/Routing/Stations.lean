import FlexNet.Routing.Service

/-!
# Stations

A station is a callsign with its SSID, whatever case it is written in.  The source compares
stations in several places by the octets of a link row, by a stashed callsign, and by text; here
they all name the same thing, the text of the callsign in lower case.
-/

namespace FlexNet

/-! ## Case -/

/-- The text in lower case. -/
def fold (s : CStr) : CStr := s.map toLower

theorem strcasecmp_iff {a b : CStr} : strcasecmp a b = true ↔ fold a = fold b := by
  simp [strcasecmp, fold]

/-- `tolower` moves letters only. -/
theorem toLower_punctuation (b : UInt8) :
    (toLower b == 0x20) = (b == 0x20) ∧ (toLower b == 0x2B) = (b == 0x2B) ∧
      (toLower b == 0x2D) = (b == 0x2D) ∧ isDigit (toLower b) = isDigit b ∧
        (isDigit b = true → toLower b = b) := by
  have hall : ∀ i : Fin 256, (toLower (.ofFin i) == 0x20) = (UInt8.ofFin i == 0x20) ∧
      (toLower (.ofFin i) == 0x2B) = (UInt8.ofFin i == 0x2B) ∧
      (toLower (.ofFin i) == 0x2D) = (UInt8.ofFin i == 0x2D) ∧
      isDigit (toLower (.ofFin i)) = isDigit (.ofFin i) ∧
      (isDigit (.ofFin i) = true → toLower (.ofFin i) = .ofFin i) := by
    decide +kernel
  exact hall b.toFin

theorem takeWhile_isDigit_fold (s : CStr) : (fold s).takeWhile isDigit = s.takeWhile isDigit := by
  induction s with
  | nil => rfl
  | cons b s ih =>
      obtain ⟨-, -, -, hdigit, hsame⟩ := toLower_punctuation b
      cases hb : isDigit b with
      | false => simp [fold, hdigit, hb]
      | true => simpa [fold, hdigit, hb, hsame hb] using ih

theorem dropWhile_blank_fold (s : CStr) :
    (fold s).dropWhile (· == 0x20) = fold (s.dropWhile (· == 0x20)) := by
  induction s with
  | nil => rfl
  | cons b s ih =>
      have hblank := (toLower_punctuation b).1
      cases hb : b == 0x20 with
      | false => simp [fold, hblank, hb]
      | true => simpa [fold, hblank, hb] using ih

/-- `atoi` does not see case. -/
theorem atoi_fold (s : CStr) : atoi (fold s) = atoi s := by
  unfold atoi
  rw [dropWhile_blank_fold]
  generalize s.dropWhile (· == 0x20) = t
  rcases t with _ | ⟨b, t⟩
  · rfl
  · obtain ⟨-, hplus, hminus, -, -⟩ := toLower_punctuation b
    have hdigits := takeWhile_isDigit_fold t
    have hall := takeWhile_isDigit_fold (b :: t)
    simp only [fold, List.map_cons] at hdigits hall ⊢
    by_cases h₁ : b = 0x2D
    · obtain rfl := h₁
      exact congrArg (fun ds => -(digitsValue ds : ℤ)) hdigits
    by_cases h₂ : b = 0x2B
    · obtain rfl := h₂
      exact congrArg (fun ds => (digitsValue ds : ℤ)) hdigits
    have h₁' : toLower b ≠ 0x2D := by simpa [h₁] using hminus
    have h₂' : toLower b ≠ 0x2B := by simpa [h₂] using hplus
    split
    · rename_i heq
      exact absurd (List.cons.inj heq).1 h₁'
    · rename_i heq
      exact absurd (List.cons.inj heq).1 h₂'
    · split
      · rename_i heq
        exact absurd (List.cons.inj heq).1 h₁
      · rename_i heq
        exact absurd (List.cons.inj heq).1 h₂
      · rw [hall]

theorem splitFirstDash_fold (s : CStr) :
    splitFirstDash (fold s) = (fold (splitFirstDash s).1, (splitFirstDash s).2.map fold) := by
  have htake : (fold s).takeWhile (· != 0x2D) = fold (s.takeWhile (· != 0x2D)) ∧
      (fold s).dropWhile (· != 0x2D) = fold (s.dropWhile (· != 0x2D)) := by
    induction s with
    | nil => exact ⟨rfl, rfl⟩
    | cons b s ih =>
        have hdash := (toLower_punctuation b).2.2.1
        cases hb : b == 0x2D with
        | false => simpa [fold, bne, hdash, hb] using ih
        | true => simp [fold, bne, hdash, hb]
  unfold splitFirstDash
  rw [htake.1, htake.2]
  cases s.dropWhile (· != 0x2D) <;> rfl

theorem ssidOf_fold (suffix : Option CStr) : ssidOf (suffix.map fold) = ssidOf suffix := by
  cases suffix <;> simp [ssidOf, atoi_fold]

/-! ## Stations -/

/-- The station an AX.25 address names. -/
def stationOf (a : AxCall) : CStr := fold (flexNormalizeCallsign a)

theorem length_convFromAX25_le (a : AxCall) : (convFromAX25 a).length ≤ 9 := by
  have hcall : (a.call.takeWhile (· != 0x40)).length ≤ 6 :=
    (List.takeWhile_prefix _).length_le.trans a.len.le
  have hssid : ((a.ssid >>> 1) &&& 0x0F).toNat < 16 := by
    rw [UInt8.toNat_and]
    exact Nat.lt_succ_of_le Nat.and_le_right
  have hdecimal : ∀ k < 16, (decimal k).length ≤ 2 := by decide +kernel
  have := hdecimal _ hssid
  unfold convFromAX25
  dsimp only
  split_ifs <;> simp only [List.length_append, List.length_map, List.length_cons,
    List.length_nil] <;> omega

/-- A callsign fits its field. -/
theorem length_flexNormalizeCallsign_le (a : AxCall) : (flexNormalizeCallsign a).length ≤ 9 := by
  have htrim : (flexNormalizeCallsign a).length ≤ ((convFromAX25 a).takeWhile (· != 0)).length :=
    (List.rdropWhile_prefix _ _).length_le
  have htake := (List.takeWhile_prefix (l := convFromAX25 a) (· != 0)).length_le
  have := length_convFromAX25_le a
  omega

/-- A zeroed row names nobody. -/
theorem flexNormalizeCallsign_of_isEmpty {a : AxCall} (h : a.isEmpty = true) :
    flexNormalizeCallsign a = [] := by
  obtain ⟨call, ssid, hlen⟩ := a
  cases call with
  | nil => simp at hlen
  | cons b call =>
      obtain rfl : b = 0 := by simpa [AxCall.isEmpty] using h
      have hfirst : (convFromAX25 ⟨0 :: call, ssid, hlen⟩).takeWhile (· != 0) = [] := by
        simp [convFromAX25]
      rw [flexNormalizeCallsign, hfirst]
      rfl

/-- The destination is the entry of the station itself. -/
def OwnEntry (c : CStr) (k : Key) : Prop :=
  fold k.call.bytes = (splitFirstDash c).1 ∧ k.lo = ssidOf (splitFirstDash c).2

instance (c : CStr) (k : Key) : Decidable (OwnEntry c k) := inferInstanceAs (Decidable (_ ∧ _))

end FlexNet
