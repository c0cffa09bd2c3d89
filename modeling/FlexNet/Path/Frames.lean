import FlexNet.Wire.RoundTrip

/-!
# Path frames

The types 6 and 7 of the CE protocol: a type octet, a hop octet, a five-character QSO field whose
first octet also carries the trace flag, and callsigns separated by blanks
(`flex_parse_path_frame`, `flex_build_path_req`, `flex_build_path_rep`).  `parse_pathFrame` is the
round trip the three handlers rely on: a frame made of callsigns that fit is read back whole.
-/

namespace FlexNet

/-- `CE_PATH_QSO_FIELD_LEN`. -/
def pathQsoFieldLen : ℕ := 5

/-- `FLEXNET_MAX_PATH_HOPS`. -/
def maxPathHops : ℕ := 16

/-- `2 + CE_PATH_QSO_FIELD_LEN`, the octets before the callsigns. -/
def pathHeaderLen : ℕ := 2 + pathQsoFieldLen

/-- What `flex_parse_path_frame` fills in. -/
structure PathFrame where
  isReply : Bool
  qso : ℤ
  trace : Bool
  hopCount : ℤ
  origin : Callsign
  hops : List Callsign
deriving DecidableEq

/-! ## The parser -/

/-- An octet that belongs to a callsign. -/
def inCall (b : UInt8) : Bool := b != 0x20 && b != 0x0D && b != 0

/-- The callsign loop, at most `turns` callsigns; an overlong one goes on as the next. -/
def parseCalls : ℕ → CStr → List Callsign
  | 0, _ => []
  | turns + 1, text =>
    let text := text.dropWhile (· == 0x20)
    let call := (text.takeWhile inCall).take (maxCallsign - 1)
    if call.isEmpty then []
    else .ofCStr call :: parseCalls turns (text.drop call.length)

/-- The QSO field: the flag masked off, everything but digits read as blank. -/
def parseQso (field : CStr) : ℤ :=
  atoi (((field.take 1).map (· &&& 0xBF) ++ field.drop 1).map
    fun b => if isDigit b then b else 0x20)

/-- `flex_parse_path_frame`. -/
def flexParsePathFrame (data : CStr) : Option PathFrame :=
  if data.length < pathHeaderLen then none
  else if data.head? ≠ some 0x36 ∧ data.head? ≠ some 0x37 then none
  else
    let field := (data.drop 2).take pathQsoFieldLen
    let calls := parseCalls (maxPathHops + 1) (data.drop pathHeaderLen)
    some {
      isReply := data.head? == some 0x37
      qso := parseQso field
      trace := field.headD 0 &&& 0x40 != 0
      hopCount := max 0 (((data.getD 1 0).toNat : ℤ) - 0x20)
      origin := calls.headD .empty
      hops := calls.tail }

/-! ## The builders -/

/-- `"%5u"` of the QSO, with the trace flag in its first octet. -/
def qsoField (qso : ℤ) (trace : Bool) : CStr :=
  let text := (decimal (qso.toNat % 100000)).leftpad pathQsoFieldLen 0x20
  if trace then text.modifyHead (· ||| 0x40) else text

/-- `flex_build_path_req`: the request of its originator, or nothing when it does not fit in
`buflen` octets. -/
def flexBuildPathReq (buflen : ℕ) (qso : ℤ) (trace : Bool) (origin nextHop target : CStr) :
    Option CStr :=
  let frame := [0x36, 0x21] ++ qsoField qso trace ++ origin ++ 0x20 :: nextHop ++ 0x20 :: target
  if buflen < frame.length then none else some frame

/-- The callsign loop of the builders: `margin` octets stay free behind each callsign, and empty
callsigns are left out where `skip`. -/
def appendCalls (buflen margin : ℕ) (skip : Bool) : Bool → List CStr → CStr → Option CStr
  | _, [], frame => some frame
  | first, call :: calls, frame =>
    if skip && call.isEmpty then appendCalls buflen margin skip false calls frame
    else
      let sep : CStr := if first then [] else [0x20]
      if buflen ≤ frame.length + sep.length + call.length + margin then none
      else appendCalls buflen margin skip false calls (frame ++ sep ++ call)

/-- `flex_build_path_rep`. -/
def flexBuildPathRep (buflen : ℕ) (qso : ℤ) (trace : Bool) (hops : List CStr) : Option CStr :=
  if hops.length < 1 ∨ maxPathHops < hops.length then none
  else if buflen < pathHeaderLen then none
  else
    appendCalls buflen 0 true true hops
      ([0x37, UInt8.ofNat (0x20 + hops.length)] ++ qsoField qso trace)

/-! ## The round trip -/

/-- A callsign a frame can carry: it fits the field of its reader and has no separator in it. -/
def PathCall (call : CStr) : Prop :=
  call ≠ [] ∧ call.length < maxCallsign ∧ ∀ b ∈ call, inCall b = true

instance (call : CStr) : Decidable (PathCall call) := inferInstanceAs (Decidable (_ ∧ _ ∧ _))

/-- Callsigns, each behind a blank. -/
def callsText (calls : List CStr) : CStr := calls.flatMap fun call => 0x20 :: call

/-- A path frame: type, hop octet, QSO field, callsigns, and what ends it. -/
def pathFrame (type hop : UInt8) (field : CStr) (calls : List CStr) (tail : CStr) : CStr :=
  [type, hop] ++ field ++ (callsText calls).drop 1 ++ tail

theorem callsText_cons (call : CStr) (calls : List CStr) :
    callsText (call :: calls) = 0x20 :: call ++ callsText calls := by
  simp [callsText]

theorem PathCall.cons {call : CStr} (h : PathCall call) :
    ∃ b rest, call = b :: rest ∧ b ≠ 0x20 := by
  obtain ⟨hne, -, hin⟩ := h
  obtain ⟨b, rest, rfl⟩ := List.exists_cons_of_ne_nil hne
  refine ⟨b, rest, rfl, ?_⟩
  rintro rfl
  exact absurd (hin _ (List.mem_cons_self ..)) (by decide)

/-- A blank before a callsign is skipped. -/
theorem parseCalls_blank (turns : ℕ) (text : CStr) :
    parseCalls turns (0x20 :: text) = parseCalls turns text := by
  cases turns with
  | zero => rfl
  | succ turns =>
      unfold parseCalls
      rw [List.dropWhile_cons_of_pos (by rfl)]

/-- What ends a list of callsigns. -/
def EndsCalls (tail : CStr) : Prop := ∀ b, tail.head? = some b → b = 0x0D

/-- Callsigns that fit are read back, up to the end of the frame. -/
theorem parseCalls_callsText {calls : List CStr} {turns : ℕ} {tail : CStr}
    (hcalls : ∀ call ∈ calls, PathCall call) (hturns : calls.length ≤ turns)
    (htail : EndsCalls tail) :
    parseCalls turns (callsText calls ++ tail) = calls.map .ofCStr := by
  induction calls generalizing turns with
  | nil =>
      cases turns with
      | zero => rfl
      | succ turns =>
          unfold parseCalls
          cases tail with
          | nil => rfl
          | cons b tail =>
              obtain rfl := htail b rfl
              rfl
  | cons call calls ih =>
      obtain ⟨turns, rfl⟩ : ∃ m, turns = m + 1 := ⟨turns - 1, by simp at hturns; omega⟩
      have hcall := hcalls call (List.mem_cons_self ..)
      obtain ⟨b, rest, hb, hne⟩ := hcall.cons
      have hstop : ((callsText calls ++ tail).takeWhile inCall) = [] := by
        cases calls with
        | nil =>
            cases tail with
            | nil => rfl
            | cons b tail =>
                obtain rfl := htail b rfl
                rfl
        | cons c cs =>
            rw [callsText_cons]
            rfl
      have htake : ((call ++ (callsText calls ++ tail)).takeWhile inCall).take (maxCallsign - 1) =
          call := by
        rw [List.takeWhile_append_of_pos hcall.2.2, hstop, List.append_nil]
        exact List.take_of_length_le (by have := hcall.2.1; omega)
      rw [callsText_cons, List.cons_append, List.cons_append, parseCalls_blank, List.append_assoc]
      unfold parseCalls
      have hdrop : (call ++ (callsText calls ++ tail)).dropWhile (· == 0x20) =
          call ++ (callsText calls ++ tail) := by
        rw [hb, List.cons_append, List.dropWhile_cons_of_neg (by simpa using hne)]
      dsimp only
      rw [hdrop, htake, if_neg (by simp [hb]), List.drop_left, List.map_cons,
        ih (fun c hc => hcalls c (List.mem_cons_of_mem _ hc)) (by simpa using hturns)]

theorem parseCalls_joined {calls : List CStr} {turns : ℕ} {tail : CStr}
    (hcalls : ∀ call ∈ calls, PathCall call) (hturns : calls.length ≤ turns)
    (htail : EndsCalls tail) :
    parseCalls turns ((callsText calls).drop 1 ++ tail) = calls.map .ofCStr := by
  rw [← parseCalls_callsText hcalls hturns htail]
  cases calls with
  | nil => rfl
  | cons call calls =>
      rw [callsText_cons, List.cons_append, List.cons_append, parseCalls_blank]
      rfl

/-- What a reader makes of a path frame. -/
def readFrame (type hop : UInt8) (field origin : CStr) (hops : List CStr) : PathFrame where
  isReply := type == 0x37
  qso := parseQso field
  trace := field.headD 0 &&& 0x40 != 0
  hopCount := max 0 ((hop.toNat : ℤ) - 0x20)
  origin := .ofCStr origin
  hops := hops.map .ofCStr

/-- A frame of callsigns that fit is read back whole. -/
theorem parse_pathFrame {type hop : UInt8} {field tail : CStr} {origin : CStr} {hops : List CStr}
    (htype : type = 0x36 ∨ type = 0x37) (hfield : field.length = pathQsoFieldLen)
    (hcalls : ∀ call ∈ origin :: hops, PathCall call) (hlen : hops.length ≤ maxPathHops)
    (htail : EndsCalls tail) :
    flexParsePathFrame (pathFrame type hop field (origin :: hops) tail) =
      some (readFrame type hop field origin hops) := by
  have hdrop : (pathFrame type hop field (origin :: hops) tail).drop pathHeaderLen =
      (callsText (origin :: hops)).drop 1 ++ tail := by
    rw [pathFrame, List.append_assoc]
    refine List.drop_left' ?_
    simp [hfield, pathHeaderLen]
    omega
  have htaken : ((pathFrame type hop field (origin :: hops) tail).drop 2).take pathQsoFieldLen =
      field := by
    simp [pathFrame, ← hfield]
  have hlong : ¬ (pathFrame type hop field (origin :: hops) tail).length < pathHeaderLen := by
    simp [pathFrame, hfield, pathHeaderLen]
    omega
  unfold flexParsePathFrame
  rw [if_neg hlong, if_neg (by rcases htype with rfl | rfl <;> simp [pathFrame])]
  dsimp only
  rw [hdrop, htaken, parseCalls_joined hcalls (by simpa using hlen) htail]
  rcases htype with rfl | rfl <;> rfl

/-! ### The QSO field -/

theorem length_qsoField (qso : ℤ) (trace : Bool) :
    (qsoField qso trace).length = pathQsoFieldLen := by
  have hdec : (decimal (qso.toNat % 100000)).length ≤ 5 := length_decimal_le (by omega) (by omega)
  have hpad : ((decimal (qso.toNat % 100000)).leftpad pathQsoFieldLen 0x20).length =
      pathQsoFieldLen := by
    rw [List.length_leftpad, pathQsoFieldLen]
    omega
  unfold qsoField
  dsimp only
  split_ifs
  · rw [List.length_modifyHead, hpad]
  · exact hpad

/-- Padding blanks and digits: what a QSO field without its flag is made of. -/
theorem mem_qsoText {n : ℕ} {b : UInt8} (h : b ∈ (decimal n).leftpad pathQsoFieldLen 0x20) :
    b = 0x20 ∨ isDigit b = true := by
  rw [List.leftpad, List.mem_append, List.mem_replicate] at h
  exact h.imp And.right isDigit_of_mem_decimal

theorem digit_of_isDigit {b : UInt8} (h : isDigit b = true) :
    ∃ d, d < 10 ∧ b = UInt8.ofNat (0x30 + d) := by
  simp only [isDigit, Bool.and_eq_true, decide_eq_true_eq, UInt8.le_iff_toNat_le] at h
  obtain ⟨hlo, hhi⟩ : 48 ≤ b.toNat ∧ b.toNat ≤ 57 := h
  refine ⟨b.toNat - 48, by omega, ?_⟩
  rw [show 0x30 + (b.toNat - 48) = b.toNat by omega, UInt8.ofNat_toNat]

/-- The flag does not touch what a blank or a digit says. -/
theorem flag_octet {b : UInt8} (h : b = 0x20 ∨ isDigit b = true) :
    b &&& 0x40 = 0 ∧ b &&& 0xBF = b ∧ (b ||| 0x40) &&& 0x40 = 0x40 ∧ (b ||| 0x40) &&& 0xBF = b := by
  rcases h with rfl | h
  · decide
  · obtain ⟨d, hd, rfl⟩ := digit_of_isDigit h
    interval_cases d <;> decide

/-- `atoi` skips the padding. -/
theorem atoi_padded (blanks n : ℕ) : atoi (List.replicate blanks 0x20 ++ decimal n) = n := by
  obtain ⟨b, rest, hb⟩ := List.exists_cons_of_ne_nil (decimal_ne_nil n)
  have hdigit : ∀ c ∈ decimal n, isDigit c = true := fun c => isDigit_of_mem_decimal
  have hhead : isDigit b = true := hdigit b (by simp [hb])
  have hdrop : (List.replicate blanks 0x20 ++ decimal n).dropWhile (· == 0x20) = decimal n := by
    rw [List.dropWhile_append_of_pos fun c hc => by simp [List.eq_of_mem_replicate hc], hb,
      List.dropWhile_cons_of_neg]
    simpa using (ne_of_isDigit hhead).1
  have htake : (decimal n).takeWhile isDigit = decimal n := List.takeWhile_eq_self_iff.mpr hdigit
  unfold atoi
  rw [hdrop]
  split
  · rename_i heq
    rw [hb] at heq
    cases heq
    cases hhead
  · rename_i heq
    rw [hb] at heq
    cases heq
    cases hhead
  · rw [htake, digitsValue_decimal]

/-- The QSO and the flag are read back. -/
theorem parseQso_qsoField {qso : ℤ} (trace : Bool) (h₀ : 0 ≤ qso) (h₁ : qso < 100000) :
    parseQso (qsoField qso trace) = qso ∧ ((qsoField qso trace).headD 0 &&& 0x40 != 0) = trace := by
  have hmod : qso.toNat % 100000 = qso.toNat := Nat.mod_eq_of_lt (by omega)
  have hmem : ∀ b ∈ (decimal qso.toNat).leftpad pathQsoFieldLen 0x20, b = 0x20 ∨ isDigit b = true :=
    fun b => mem_qsoText
  have hvalue : atoi ((decimal qso.toNat).leftpad pathQsoFieldLen 0x20) = qso := by
    rw [List.leftpad, atoi_padded]
    omega
  have hlen := length_qsoField qso false
  unfold qsoField at hlen ⊢
  rw [hmod] at hlen ⊢
  dsimp only at hlen ⊢
  rw [if_neg (by decide)] at hlen
  generalize (decimal qso.toNat).leftpad pathQsoFieldLen 0x20 = text at hlen hmem hvalue ⊢
  obtain ⟨b, rest, rfl⟩ : ∃ b rest, text = b :: rest :=
    List.exists_cons_of_length_pos (by rw [hlen]; decide)
  obtain ⟨hflag, hmask, hflag', hmask'⟩ := flag_octet (hmem b (List.mem_cons_self ..))
  have hsame : (b :: rest).map (fun b => if isDigit b then b else 0x20) = b :: rest := by
    refine (List.map_congr_left fun c hc => ?_).trans (List.map_id _)
    rcases hmem c hc with rfl | hdigit
    · rfl
    · rw [if_pos hdigit]
      rfl
  cases trace with
  | false =>
      refine ⟨?_, by simp [hflag]⟩
      rw [if_neg (by decide), parseQso, List.take_one, ← hvalue]
      simp only [List.head?_cons, Option.toList_some, List.map_cons, List.map_nil, hmask,
        List.drop_succ_cons, List.drop_zero, List.cons_append, List.nil_append]
      rw [← List.map_cons (f := fun b => if isDigit b = true then b else 0x20), hsame]
  | true =>
      refine ⟨?_, by simp [hflag']⟩
      rw [if_pos rfl, parseQso, List.take_one, ← hvalue]
      simp only [List.modifyHead_cons, List.head?_cons, Option.toList_some, List.map_cons,
        List.map_nil, hmask', List.drop_succ_cons, List.drop_zero, List.cons_append,
        List.nil_append]
      rw [← List.map_cons (f := fun b => if isDigit b = true then b else 0x20), hsame]

/-! ### What the builders make -/

/-- The callsign loop goes through where the frame fits. -/
theorem appendCalls_eq {buflen margin : ℕ} {skip : Bool} {calls : List CStr} {frame : CStr}
    (hcalls : ∀ call ∈ calls, call ≠ [])
    (hfit : calls = [] ∨ frame.length + (callsText calls).length + margin < buflen) :
    appendCalls buflen margin skip false calls frame = some (frame ++ callsText calls) := by
  induction calls generalizing frame with
  | nil => simp [appendCalls, callsText]
  | cons call calls ih =>
      have hne := hcalls call (List.mem_cons_self ..)
      replace hfit := hfit.resolve_left (by simp)
      rw [callsText_cons, List.length_append, List.length_cons] at hfit
      unfold appendCalls
      rw [if_neg (by simp [hne])]
      dsimp only
      rw [if_neg (by simp only [List.length_singleton, Bool.false_eq_true, if_false]; omega),
        if_neg (by decide), ih (fun c hc => hcalls c (List.mem_cons_of_mem _ hc)), callsText_cons]
      · simp
      · refine .inr ?_
        simp only [List.length_append, List.length_singleton]
        omega

theorem appendCalls_first {buflen margin : ℕ} {skip : Bool} {call : CStr} {calls : List CStr}
    {frame : CStr} (hcalls : ∀ c ∈ call :: calls, c ≠ [])
    (hfit : frame.length + (callsText (call :: calls)).length + margin < buflen) :
    appendCalls buflen margin skip true (call :: calls) frame =
      some (frame ++ (callsText (call :: calls)).drop 1) := by
  rw [callsText_cons, List.length_append, List.length_cons] at hfit
  unfold appendCalls
  rw [if_neg (by simp [hcalls call (List.mem_cons_self ..)])]
  dsimp only
  rw [if_pos rfl, if_neg (by simp only [List.length_nil]; omega),
    appendCalls_eq fun c hc => hcalls c (List.mem_cons_of_mem _ hc), callsText_cons]
  · simp
  · refine .inr ?_
    simp only [List.length_append, List.length_nil]
    omega

/-- Callsigns that fit their field take at most ten octets each. -/
theorem length_callsText_le {calls : List CStr} (hcalls : ∀ call ∈ calls, PathCall call) :
    (callsText calls).length ≤ maxCallsign * calls.length := by
  induction calls with
  | nil => simp [callsText]
  | cons call calls ih =>
      have hcall := (hcalls call (List.mem_cons_self ..)).2.1
      have hrest := ih fun c hc => hcalls c (List.mem_cons_of_mem _ hc)
      rw [callsText_cons, List.length_append, List.length_cons, List.length_cons, Nat.mul_succ]
      omega

/-- The request of an originator. -/
theorem flexBuildPathReq_eq {buflen : ℕ} {qso : ℤ} {trace : Bool} {origin nextHop target : CStr}
    (hcalls : ∀ call ∈ [origin, nextHop, target], PathCall call) (hbuf : 37 ≤ buflen) :
    flexBuildPathReq buflen qso trace origin nextHop target =
      some (pathFrame 0x36 0x21 (qsoField qso trace) [origin, nextHop, target] []) := by
  have hlen := length_callsText_le hcalls
  have hfield := length_qsoField qso trace
  have hframe : [0x36, 0x21] ++ qsoField qso trace ++ origin ++ 0x20 :: nextHop ++ 0x20 :: target =
      pathFrame 0x36 0x21 (qsoField qso trace) [origin, nextHop, target] [] := by
    simp [pathFrame, callsText]
  unfold flexBuildPathReq
  dsimp only
  rw [hframe, if_neg]
  simp only [pathFrame, List.length_append, List.length_drop, List.length_cons, List.length_nil,
    hfield, pathQsoFieldLen, maxCallsign] at hlen ⊢
  omega

/-- An answer of callsigns that fit. -/
theorem flexBuildPathRep_eq {buflen : ℕ} {qso : ℤ} {trace : Bool} {origin : CStr}
    {hops : List CStr} (hcalls : ∀ call ∈ origin :: hops, PathCall call)
    (hlen : hops.length < maxPathHops) (hbuf : pathHeaderLen + maxCallsign * maxPathHops < buflen) :
    flexBuildPathRep buflen qso trace (origin :: hops) =
      some (pathFrame 0x37 (UInt8.ofNat (0x20 + (hops.length + 1))) (qsoField qso trace)
        (origin :: hops) []) := by
  have htext := length_callsText_le hcalls
  have hfield := length_qsoField qso trace
  simp only [maxCallsign, maxPathHops, pathHeaderLen, pathQsoFieldLen, List.length_cons]
    at hlen hbuf htext hfield
  unfold flexBuildPathRep
  rw [if_neg (by simp only [List.length_cons, maxPathHops]; omega),
    if_neg (by simp only [pathHeaderLen, pathQsoFieldLen]; omega),
    appendCalls_first (fun c hc => (hcalls c hc).1)]
  · simp [pathFrame]
  · simp only [List.length_append, List.length_cons, List.length_nil, hfield]
    omega

end FlexNet
