import FlexNet.Path.Frames

/-!
# Path frames round-trip

Whatever buffer a builder is given, a frame it returns is read back: kind, QSO, trace flag, origin,
callsigns in order, and the hop count of its second octet.  The parser keeps its bounds on any
octets.
-/

namespace FlexNet

variable {buflen margin : ℕ} {skip : Bool} {qso : ℤ} {trace : Bool} {frame : CStr}

/-! ## What a builder returns -/

/-- The callsign loop returns the callsigns behind the frame, or nothing. -/
theorem appendCalls_some {calls : List CStr} {built : CStr} (hcalls : ∀ call ∈ calls, call ≠ [])
    (h : appendCalls buflen margin skip false calls frame = some built) :
    built = frame ++ callsText calls := by
  induction calls generalizing frame with
  | nil =>
      rw [appendCalls, Option.some.injEq] at h
      simp [callsText, h]
  | cons call calls ih =>
      have hne := hcalls call (List.mem_cons_self ..)
      unfold appendCalls at h
      rw [if_neg (by simp [hne])] at h
      simp only [Bool.false_eq_true, if_false] at h
      split at h
      · cases h
      have hrest := ih (fun c hc => hcalls c (List.mem_cons_of_mem _ hc)) h
      rw [hrest, callsText_cons]
      simp

theorem appendCalls_first_some {call : CStr} {calls : List CStr} {built : CStr}
    (hcalls : ∀ c ∈ call :: calls, c ≠ [])
    (h : appendCalls buflen margin skip true (call :: calls) frame = some built) :
    built = frame ++ (callsText (call :: calls)).drop 1 := by
  have hne := hcalls call (List.mem_cons_self ..)
  unfold appendCalls at h
  rw [if_neg (by simp [hne])] at h
  simp only [if_true] at h
  split at h
  · cases h
  have hrest := appendCalls_some (fun c hc => hcalls c (List.mem_cons_of_mem _ hc)) h
  rw [hrest, callsText_cons]
  simp

/-- A request that was built. -/
theorem flexBuildPathReq_some {origin nextHop target : CStr}
    (h : flexBuildPathReq buflen qso trace origin nextHop target = some frame) :
    frame = pathFrame 0x36 0x21 (qsoField qso trace) [origin, nextHop, target] [] := by
  unfold flexBuildPathReq at h
  dsimp only at h
  split_ifs at h
  rw [Option.some.injEq] at h
  rw [← h]
  simp [pathFrame, callsText]

/-- An answer that was built. -/
theorem flexBuildPathRep_some {origin : CStr} {hops : List CStr}
    (hcalls : ∀ call ∈ origin :: hops, call ≠ [])
    (h : flexBuildPathRep buflen qso trace (origin :: hops) = some frame) :
    hops.length < maxPathHops ∧
      frame = pathFrame 0x37 (UInt8.ofNat (0x20 + (hops.length + 1))) (qsoField qso trace)
        (origin :: hops) [] := by
  unfold flexBuildPathRep at h
  split_ifs at h with hlen hbuf
  have hbuilt := appendCalls_first_some hcalls h
  rw [List.length_cons] at hlen
  refine ⟨by omega, ?_⟩
  rw [hbuilt]
  simp [pathFrame]

/-! ## Reading it back -/

/-- A callsign that is read is one a frame can carry. -/
theorem parseCalls_pathCall {turns : ℕ} {text : CStr} :
    ∀ call ∈ parseCalls turns text, PathCall call.bytes := by
  induction turns generalizing text with
  | zero => intro call hcall; cases hcall
  | succ turns ih =>
      intro call hcall
      unfold parseCalls at hcall
      dsimp only at hcall
      set rest := text.dropWhile (· == 0x20)
      set word := (rest.takeWhile inCall).take (maxCallsign - 1)
      have hin : ∀ b ∈ word, inCall b = true := fun b hb =>
        List.all_eq_true.mp List.all_takeWhile b (List.mem_of_mem_take hb)
      have hlen : word.length ≤ maxCallsign - 1 := List.length_take_le _ _
      split_ifs at hcall with hempty
      · cases hcall
      · rcases List.mem_cons.mp hcall with rfl | hcall
        · have hbytes : (Callsign.ofCStr word).bytes = word := List.take_of_length_le hlen
          rw [hbytes]
          exact ⟨by simpa using hempty, Nat.lt_of_le_pred (by decide) hlen, hin⟩
        · exact ih call hcall

theorem length_parseCalls_le (turns : ℕ) (text : CStr) :
    (parseCalls turns text).length ≤ turns := by
  induction turns generalizing text with
  | zero => exact le_rfl
  | succ turns ih =>
      unfold parseCalls
      dsimp only
      split_ifs
      · exact Nat.zero_le _
      · rw [List.length_cons]
        exact Nat.succ_le_succ (ih _)

/-- The parser's bounds, whatever it reads. -/
theorem parse_bounds {data : CStr} {f : PathFrame} (h : flexParsePathFrame data = some f) :
    f.hops.length ≤ maxPathHops ∧ (∀ hop ∈ f.hops, PathCall hop.bytes) ∧
      (f.hops ≠ [] → PathCall f.origin.bytes) := by
  unfold flexParsePathFrame at h
  dsimp only at h
  split_ifs at h
  rw [Option.some.injEq] at h
  rw [← h]
  dsimp only
  have hlen := length_parseCalls_le (maxPathHops + 1) (data.drop pathHeaderLen)
  have hcalls := @parseCalls_pathCall (maxPathHops + 1) (data.drop pathHeaderLen)
  generalize parseCalls (maxPathHops + 1) (data.drop pathHeaderLen) = calls at hlen hcalls ⊢
  cases calls with
  | nil => simp
  | cons origin hops =>
      rw [List.length_cons] at hlen
      refine ⟨by simpa using hlen, fun hop hhop => ?_, fun _ => ?_⟩
      · exact hcalls hop (List.mem_cons_of_mem _ hhop)
      · exact hcalls origin (List.mem_cons_self ..)

/-- A hop octet of this code's builders. -/
theorem hopCount_octet {n : ℕ} (h : n ≤ maxPathHops) :
    max 0 (((UInt8.ofNat (0x20 + n)).toNat : ℤ) - 0x20) = n := by
  have hlt : 0x20 + n < 256 := by unfold maxPathHops at h; omega
  rw [UInt8.toNat_ofNat_of_lt' hlt]
  omega

/-- Path frames round-trip: what the builders make of callsigns that fit their fields is read back
whole, and whatever the parser is given it writes at most `FLEXNET_MAX_PATH_HOPS` hops, each of them
text that ends within its field. -/
theorem path_frames_roundTrip :
    (∀ (buflen : ℕ) (qso : ℤ) (trace : Bool) (origin nextHop target frame : CStr),
      0 ≤ qso → qso ≤ 99999 → (∀ call ∈ [origin, nextHop, target], PathCall call) →
      flexBuildPathReq buflen qso trace origin nextHop target = some frame →
      flexParsePathFrame frame = some {
        isReply := false, qso := qso, trace := trace, hopCount := 1, origin := .ofCStr origin,
        hops := [.ofCStr nextHop, .ofCStr target] }) ∧
    (∀ (buflen : ℕ) (qso : ℤ) (trace : Bool) (origin : CStr) (hops : List CStr) (frame : CStr),
      0 ≤ qso → qso ≤ 99999 → (∀ call ∈ origin :: hops, PathCall call) →
      flexBuildPathRep buflen qso trace (origin :: hops) = some frame →
      flexParsePathFrame frame = some {
        isReply := true, qso := qso, trace := trace, hopCount := (origin :: hops).length,
        origin := .ofCStr origin, hops := hops.map .ofCStr }) ∧
    ∀ (data : CStr) (f : PathFrame), flexParsePathFrame data = some f →
      f.hops.length ≤ maxPathHops ∧
        ∀ hop ∈ f.hops, hop.bytes.length < maxCallsign ∧ ∀ b ∈ hop.bytes, b ≠ 0 := by
  refine ⟨?_, ?_, ?_⟩
  · intro buflen qso trace origin nextHop target frame h₀ h₁ hcalls hbuilt
    obtain ⟨hqso, htrace⟩ := parseQso_qsoField trace h₀ (by omega)
    rw [flexBuildPathReq_some hbuilt, parse_pathFrame (.inl rfl) (length_qsoField qso trace) hcalls
      (by simp [maxPathHops]) (by simp [EndsCalls]), readFrame, hqso, htrace]
    rfl
  · intro buflen qso trace origin hops frame h₀ h₁ hcalls hbuilt
    obtain ⟨hqso, htrace⟩ := parseQso_qsoField trace h₀ (by omega)
    obtain ⟨hlen, hframe⟩ := flexBuildPathRep_some (fun c hc => (hcalls c hc).1) hbuilt
    have hcount := @hopCount_octet (hops.length + 1) (by omega)
    rw [hframe, parse_pathFrame (.inr rfl) (length_qsoField qso trace) hcalls hlen.le
      (by simp [EndsCalls]), readFrame, hqso, htrace, hcount]
    rfl
  · intro data f hparse
    obtain ⟨hlen, hhops, -⟩ := parse_bounds hparse
    refine ⟨hlen, fun hop hhop => ?_⟩
    obtain ⟨-, hshort, hin⟩ := hhops hop hhop
    refine ⟨hshort, fun b hb => ?_⟩
    rintro rfl
    exact absurd (hin _ hb) (by decide)

set_option maxRecDepth 10000 in
/-- `A` asks `B` for `K`, and is told that the way leads over `N` and `B`. -/
theorem path_frames_roundTrip_K :
    flexParsePathFrame [0x36, 0x21, 0x20, 0x20, 0x20, 0x34, 0x32, 0x41, 0x20, 0x42, 0x20, 0x4B] =
        some ⟨false, 42, false, 1, .ofCStr [0x41], [.ofCStr [0x42], .ofCStr [0x4B]]⟩ ∧
      flexParsePathFrame [0x37, 0x24, 0x60, 0x20, 0x20, 0x34, 0x32, 0x41, 0x20, 0x4E, 0x20, 0x42,
          0x20, 0x4B] =
        some ⟨true, 42, true, 4, .ofCStr [0x41],
          [.ofCStr [0x4E], .ofCStr [0x42], .ofCStr [0x4B]]⟩ := by
  obtain ⟨hreq, hrep, -⟩ := path_frames_roundTrip
  refine ⟨?_, ?_⟩
  · exact hreq 128 42 false [0x41] [0x42] [0x4B] _ (by omega) (by omega) (by decide +kernel)
      (by decide +kernel)
  · exact hrep 256 42 true [0x41] [[0x4E], [0x42], [0x4B]] _ (by omega) (by omega)
      (by decide +kernel) (by decide +kernel)

end FlexNet
