import FlexNet.Path.Layer

/-!
# The address field of a frame

Destination, origin and up to eight digipeaters, seven octets each; the end bit of the SSID octet
marks the last of them, and the control octet follows.  The helpers that read and rewrite a buffer
(`flex_l2_addr_last`, `flex_l2_append_digi`, ...) are translated octet by octet.  `L2Frame` is a
frame as its addresses and what follows; the end bit is no part of an `L2Addr`, since it is the last
one's.  The `_octets` theorems say that each helper does to the octets of a frame what the operation
of the same name does to the frame.
-/

namespace FlexNet

/-! ## Octets -/

/-- `FLEXNET_L2_MAX_FRAME`. -/
def l2MaxFrame : ℕ := 330

section Buffers

variable (buf : CStr)

/-- An octet of the buffer. -/
def octetAt (i : ℕ) : UInt8 := buf.getD i 0

/-- The end bit of the address at an offset. -/
def endBit (off : ℕ) : Bool := octetAt buf (off + 6) &&& 0x01 != 0

/-- `flex_l2_same_call` on the address at an offset. -/
def sameCallAt (off : ℕ) (call : AxCall) : Bool :=
  (buf.drop off).take 6 == call.call && octetAt buf (off + 6) &&& 0x1E == call.ssid &&& 0x1E

/-- `flex_l2_addr_last`: the offset of the address with the end bit. -/
def flexL2AddrLast : Option ℕ :=
  ((List.range (2 + l2MaxDigis)).find? fun i => endBit buf (7 * i)).map (7 * ·)

/-- `flex_l2_digi_count`. -/
def flexL2DigiCount : ℕ :=
  if endBit buf 7 then 0
  else match (List.range l2MaxDigis).find? fun i => endBit buf (14 + 7 * i) with
    | some i => i + 1
    | none => l2MaxDigis

/-- `flex_l2_call_in_chain`. -/
def flexL2CallInChain (call : AxCall) : Bool :=
  sameCallAt buf 0 call || sameCallAt buf 7 call ||
    (!endBit buf 7 &&
      (List.range (flexL2DigiCount buf)).any fun i => sameCallAt buf (14 + 7 * i) call)

/-- `flex_l2_append_digi`. -/
def flexL2AppendDigi (call : AxCall) : Option CStr :=
  match flexL2AddrLast buf with
  | none => none
  | some last =>
    let addrLen := last + 7
    if buf.length < addrLen ∨ l2MaxFrame < buf.length + 7 then none
    else some ((buf.take addrLen).modify (last + 6) (· &&& 0xFE) ++ call.call ++
      [(call.ssid &&& 0x7E) ||| 0x01] ++ buf.drop addrLen)

/-- `flex_l2_remove_digi` of the address at an offset. -/
def flexL2RemoveDigi (off : ℕ) : Option CStr :=
  if off < 14 ∨ buf.length < off + 7 then none
  else
    let moved := buf.take off ++ buf.drop (off + 7)
    if endBit buf off then some (moved.modify (if 21 ≤ off then off - 1 else 13) (· ||| 0x01))
    else some moved

end Buffers

/-! ## Frames -/

/-- An address of a frame, the end bit left out. -/
structure L2Addr extends AxCall where
  noEnd : ssid &&& 0x01 = 0
deriving DecidableEq

namespace L2Addr

/-- What holds of 256 octets holds of all. -/
theorem forall_octet {P : UInt8 → Prop} (h : ∀ n : Fin 256, P (UInt8.ofFin n)) (b : UInt8) :
    P b := by
  have hb := h b.toFin
  rwa [UInt8.ofFin_toFin] at hb

/-- Setting the H bit keeps the other bits. -/
theorem or_h (b : UInt8) : (b ||| 0x80) &&& 0x01 = b &&& 0x01 ∧ (b ||| 0x80) &&& 0x1E = b &&& 0x1E ∧
    (b ||| 0x80) &&& 0x80 = 0x80 ∧ (b ||| 0x80) &&& 0x7E = b &&& 0x7E :=
  forall_octet (P := fun b => (b ||| 0x80) &&& 0x01 = b &&& 0x01 ∧
    (b ||| 0x80) &&& 0x1E = b &&& 0x1E ∧ (b ||| 0x80) &&& 0x80 = 0x80 ∧
      (b ||| 0x80) &&& 0x7E = b &&& 0x7E) (by decide +kernel) b

/-- A copied address keeps the SSID and the reserved bits. -/
theorem and_copy (b : UInt8) : (b &&& 0x7E) &&& 0x01 = 0 ∧ (b &&& 0x7E) &&& 0x1E = b &&& 0x1E ∧
    (b &&& 0x7E) &&& 0x80 = 0 ∧ (b &&& 0x7E) &&& 0x7E = b &&& 0x7E :=
  forall_octet (P := fun b => (b &&& 0x7E) &&& 0x01 = 0 ∧ (b &&& 0x7E) &&& 0x1E = b &&& 0x1E ∧
    (b &&& 0x7E) &&& 0x80 = 0 ∧ (b &&& 0x7E) &&& 0x7E = b &&& 0x7E) (by decide +kernel) b

/-- Setting and clearing the end bit. -/
theorem or_end (b : UInt8) : (b ||| 0x01) &&& 0x01 = 0x01 ∧ (b ||| 0x01) &&& 0x1E = b &&& 0x1E ∧
    (b &&& 0x01 = 0 → (b ||| 0x01) &&& 0xFE = b) :=
  forall_octet (P := fun b => (b ||| 0x01) &&& 0x01 = 0x01 ∧ (b ||| 0x01) &&& 0x1E = b &&& 0x1E ∧
    (b &&& 0x01 = 0 → (b ||| 0x01) &&& 0xFE = b)) (by decide +kernel) b

/-- A callsign as it is put into a chain: not repeated. -/
def ofCall (call : AxCall) : L2Addr :=
  ⟨{ call with ssid := call.ssid &&& 0x7E }, (and_copy call.ssid).1⟩

/-- The H bit. -/
def repeated (a : L2Addr) : Bool := a.ssid &&& 0x80 != 0

/-- The address with its H bit set. -/
def setRepeated (a : L2Addr) : L2Addr :=
  ⟨{ a.toAxCall with ssid := a.ssid ||| 0x80 }, (or_h a.ssid).1.trans a.noEnd⟩

/-- The octets of an address. -/
def octets (a : L2Addr) (last : Bool) : CStr :=
  a.call ++ [if last then a.ssid ||| 0x01 else a.ssid]

@[simp] theorem length_octets (a : L2Addr) (last : Bool) : (a.octets last).length = 7 := by
  simp [octets, a.len]

end L2Addr

/-- A frame: what follows the addresses starts with the control octet. -/
structure L2Frame where
  dest : L2Addr
  origin : L2Addr
  digis : List L2Addr
  tail : CStr
deriving DecidableEq

namespace L2Frame

variable (f : L2Frame)

/-- The addresses in the order they are sent. -/
def addrs : List L2Addr := f.dest :: f.origin :: f.digis

/-- An address field. -/
def field : List L2Addr → CStr
  | [] => []
  | [a] => a.octets true
  | a :: rest => a.octets false ++ field rest

/-- The octets of a frame, from the destination on. -/
def octets : CStr := field f.addrs ++ f.tail

/-- A frame with one more digipeater. -/
def appendDigi (call : AxCall) : Option L2Frame :=
  if l2MaxFrame < f.octets.length + 7 then none
  else some { f with digis := f.digis ++ [.ofCall call] }

theorem appendDigi_some {f f' : L2Frame} {call : AxCall} (h : f.appendDigi call = some f') :
    f' = { f with digis := f.digis ++ [.ofCall call] } := by
  unfold appendDigi at h
  split at h
  · cases h
  · exact (Option.some.inj h).symm

/-- A frame less one digipeater. -/
def removeDigi (i : ℕ) : L2Frame := { f with digis := f.digis.eraseIdx i }

/-- A callsign that the frame has. -/
def callInChain (call : AxCall) : Bool := f.addrs.any fun a => a.toAxCall.same call

/-! ### The octets of an address field -/

theorem field_append_last (as : List L2Addr) (a : L2Addr) :
    field (as ++ [a]) = as.flatMap (·.octets false) ++ a.octets true := by
  induction as with
  | nil => simp [field]
  | cons b as ih =>
      rw [List.cons_append, List.flatMap_cons, List.append_assoc, ← ih]
      cases as <;> rfl

theorem field_append {as bs : List L2Addr} (hbs : bs ≠ []) :
    field (as ++ bs) = as.flatMap (·.octets false) ++ field bs := by
  induction as with
  | nil => simp
  | cons a as ih =>
      rw [List.cons_append, List.flatMap_cons, List.append_assoc, ← ih]
      cases hcat : as ++ bs with
      | nil => exact absurd (List.append_eq_nil_iff.mp hcat).2 hbs
      | cons => rfl

theorem length_flatMap_octets (as : List L2Addr) (last : Bool) :
    (as.flatMap (·.octets last)).length = 7 * as.length := by
  induction as with
  | nil => rfl
  | cons a as ih =>
      rw [List.flatMap_cons, List.length_append, ih, a.length_octets, List.length_cons]
      omega

theorem length_field (as : List L2Addr) : (field as).length = 7 * as.length := by
  rcases as.eq_nil_or_concat with rfl | ⟨as, a, rfl⟩
  · rfl
  · rw [List.concat_eq_append, field_append_last, List.length_append, length_flatMap_octets,
      a.length_octets, List.length_append, List.length_singleton]
    omega

theorem length_octets : f.octets.length = 14 + 7 * f.digis.length + f.tail.length := by
  rw [octets, List.length_append, length_field, addrs, List.length_cons, List.length_cons]
  omega

theorem field_cons (a : L2Addr) (bs : List L2Addr) :
    field (a :: bs) = a.octets bs.isEmpty ++ field bs := by
  cases bs with
  | nil => simp [field]
  | cons b bs => rfl

/-- The addresses before an address, the address, and what follows. -/
theorem octets_at {as bs : List L2Addr} {a : L2Addr} (h : f.addrs = as ++ a :: bs) :
    f.octets = as.flatMap (·.octets false) ++ (a.octets bs.isEmpty ++ (field bs ++ f.tail)) := by
  rw [octets, h, field_append (List.cons_ne_nil a bs), field_cons, List.append_assoc,
    List.append_assoc]

theorem octetAt_ssid {as bs : List L2Addr} {a : L2Addr} (h : f.addrs = as ++ a :: bs) :
    octetAt f.octets (7 * as.length + 6) = if bs.isEmpty then a.ssid ||| 0x01 else a.ssid := by
  have hlen := length_flatMap_octets as false
  rw [octetAt, f.octets_at h, L2Addr.octets, List.getD_eq_getElem?_getD,
    List.getElem?_append_right (by omega), hlen, Nat.add_sub_cancel_left, List.append_assoc,
    List.getElem?_append_right (by rw [a.len]), a.len]
  rfl

theorem endBit_octets {as bs : List L2Addr} {a : L2Addr} (h : f.addrs = as ++ a :: bs) :
    endBit f.octets (7 * as.length) = bs.isEmpty := by
  rw [endBit, f.octetAt_ssid h]
  cases bs with
  | nil => simp [(L2Addr.or_end a.ssid).1]
  | cons => simp [a.noEnd]

theorem sameCallAt_octets {as bs : List L2Addr} {a : L2Addr} (h : f.addrs = as ++ a :: bs)
    (call : AxCall) : sameCallAt f.octets (7 * as.length) call = a.toAxCall.same call := by
  have hlen := length_flatMap_octets as false
  have hcall : (f.octets.drop (7 * as.length)).take 6 = a.call := by
    rw [f.octets_at h, List.drop_append_of_le_length (by omega), List.drop_of_length_le (by omega),
      List.nil_append, L2Addr.octets, List.append_assoc]
    exact List.take_left' a.len
  rw [sameCallAt, AxCall.same, hcall, f.octetAt_ssid h]
  cases bs with
  | nil => rw [List.isEmpty_nil, if_pos rfl, (L2Addr.or_end a.ssid).2.1]
  | cons => simp

/-- An address and its place. -/
theorem addrs_split {i : ℕ} (hi : i < f.addrs.length) :
    f.addrs = f.addrs.take i ++ f.addrs[i] :: f.addrs.drop (i + 1) ∧
      (f.addrs.take i).length = i := by
  refine ⟨?_, List.length_take_of_le hi.le⟩
  rw [List.getElem_cons_drop, List.take_append_drop]

theorem endBit_index {i : ℕ} (hi : i < f.addrs.length) :
    endBit f.octets (7 * i) = decide (i + 1 = f.addrs.length) := by
  obtain ⟨hsplit, hlen⟩ := f.addrs_split hi
  have hbit := f.endBit_octets hsplit
  rw [hlen] at hbit
  rw [hbit, Bool.eq_iff_iff, List.isEmpty_iff, List.drop_eq_nil_iff, decide_eq_true_eq]
  omega

theorem sameCallAt_index {i : ℕ} (hi : i < f.addrs.length) (call : AxCall) :
    sameCallAt f.octets (7 * i) call = f.addrs[i].toAxCall.same call := by
  obtain ⟨hsplit, hlen⟩ := f.addrs_split hi
  have hsame := f.sameCallAt_octets hsplit call
  rwa [hlen] at hsame

theorem length_addrs : f.addrs.length = f.digis.length + 2 := rfl

/-! ### Reading -/

/-- A search that holds at the last of `m` places only. -/
theorem find_last {p : ℕ → Bool} {n m : ℕ} (hm : 0 < m)
    (hp : ∀ i, i < n → i < m → p i = decide (i + 1 = m)) :
    (List.range n).find? p = if m ≤ n then some (m - 1) else none := by
  split_ifs with h
  · rw [List.find?_range_eq_some]
    refine ⟨?_, List.mem_range.mpr (by omega), fun j hj => ?_⟩
    · rw [hp _ (by omega) (by omega), decide_eq_true_eq]
      omega
    · rw [hp j (by omega) (by omega), Bool.not_eq_true', decide_eq_false_iff_not]
      omega
  · rw [List.find?_range_eq_none]
    intro i hi
    rw [hp i hi (by omega), Bool.not_eq_true', decide_eq_false_iff_not]
    omega

/-- The last address of a frame with eight digipeaters at most. -/
theorem flexL2AddrLast_octets : flexL2AddrLast f.octets =
    if f.digis.length ≤ l2MaxDigis then some (7 * (f.digis.length + 1)) else none := by
  have hlen := f.length_addrs
  rw [flexL2AddrLast, find_last (m := f.digis.length + 2) (by omega) fun i _ hi => by
    rw [f.endBit_index (by omega), hlen]]
  by_cases h : f.digis.length ≤ l2MaxDigis
  · rw [if_pos h, if_pos (by omega)]
    rfl
  · rw [if_neg h, if_neg (by omega)]
    rfl

theorem flexL2DigiCount_octets : flexL2DigiCount f.octets = min f.digis.length l2MaxDigis := by
  have hlen := f.length_addrs
  have horigin : endBit f.octets 7 = decide (f.digis.length = 0) := by
    rw [f.endBit_index (i := 1) (by omega), hlen, decide_eq_decide]
    omega
  rw [flexL2DigiCount, horigin]
  by_cases hnone : f.digis.length = 0
  · simp [hnone]
  · rw [decide_eq_false hnone, if_neg (by simp),
      find_last (m := f.digis.length) (by omega) fun i _ hi => by
        rw [show 14 + 7 * i = 7 * (i + 2) by omega, f.endBit_index (by omega), hlen,
          decide_eq_decide]
        omega]
    by_cases h : f.digis.length ≤ l2MaxDigis
    · rw [if_pos h]
      dsimp only
      omega
    · rw [if_neg h]
      dsimp only
      omega

theorem flexL2CallInChain_octets (h : f.digis.length ≤ l2MaxDigis) (call : AxCall) :
    flexL2CallInChain f.octets call = f.callInChain call := by
  have hlen := f.length_addrs
  have hdest := f.sameCallAt_index (i := 0) (by omega) call
  have horigin := f.sameCallAt_index (i := 1) (by omega) call
  have hend : endBit f.octets 7 = decide (f.digis.length = 0) := by
    rw [f.endBit_index (i := 1) (by omega), hlen, decide_eq_decide]
    omega
  have hdigis : (List.range f.digis.length).any (fun i => sameCallAt f.octets (14 + 7 * i) call) =
      f.digis.any fun a => a.toAxCall.same call := by
    rw [Bool.eq_iff_iff, List.any_eq_true, List.any_eq_true]
    constructor
    · rintro ⟨i, hi, hsame⟩
      rw [List.mem_range] at hi
      rw [show 14 + 7 * i = 7 * (i + 2) by omega, f.sameCallAt_index (by omega)] at hsame
      exact ⟨f.digis[i], List.getElem_mem hi, hsame⟩
    · rintro ⟨a, ha, hsame⟩
      obtain ⟨i, hi, rfl⟩ := List.getElem_of_mem ha
      refine ⟨i, List.mem_range.mpr hi, ?_⟩
      rw [show 14 + 7 * i = 7 * (i + 2) by omega, f.sameCallAt_index (by omega)]
      exact hsame
  rw [flexL2CallInChain, show (0 : ℕ) = 7 * 0 from rfl, hdest, show (7 : ℕ) = 7 * 1 from rfl,
    horigin, flexL2DigiCount_octets, min_eq_left h, hdigis, hend, callInChain]
  simp only [addrs, List.any_cons, List.getElem_cons_zero, List.getElem_cons_succ]
  by_cases hnone : f.digis.length = 0
  · simp [List.eq_nil_of_length_eq_zero hnone]
  · simp [hnone, Bool.or_assoc]

/-! ### Rewriting -/

theorem modify_append_right (as bs : CStr) (i : ℕ) (g : UInt8 → UInt8) :
    (as ++ bs).modify (as.length + i) g = as ++ bs.modify i g := by
  induction as with
  | nil => simp
  | cons a as ih =>
      rw [List.cons_append, List.length_cons, show as.length + 1 + i = (as.length + i) + 1 by omega,
        List.modify_succ_cons, ih, List.cons_append]

/-- The end bit of an address, set or cleared. -/
theorem modify_octets (a : L2Addr) (rest : CStr) :
    ((a.octets true ++ rest).modify 6 (· &&& 0xFE) = a.octets false ++ rest) ∧
      ((a.octets false ++ rest).modify 6 (· ||| 0x01) = a.octets true ++ rest) := by
  have hlen := a.len
  constructor
  · have hmod := modify_append_right a.call ([a.ssid ||| 0x01] ++ rest) 0 (· &&& 0xFE)
    rw [hlen] at hmod
    simp only [L2Addr.octets, List.append_assoc, if_pos, Nat.add_zero] at hmod ⊢
    rw [hmod]
    simp [(L2Addr.or_end a.ssid).2.2 a.noEnd]
  · have hmod := modify_append_right a.call ([a.ssid] ++ rest) 0 (· ||| 0x01)
    rw [hlen] at hmod
    simp only [L2Addr.octets, List.append_assoc, Nat.add_zero] at hmod ⊢
    rw [if_neg (by simp), hmod]
    simp

/-- `flex_l2_append_digi` puts one more digipeater behind the others. -/
theorem flexL2AppendDigi_octets (h : f.digis.length ≤ l2MaxDigis) (call : AxCall) :
    flexL2AppendDigi f.octets call = (f.appendDigi call).map octets := by
  have hlen := f.length_octets
  have hcount := f.length_addrs
  rw [flexL2AppendDigi, flexL2AddrLast_octets, if_pos h]
  dsimp only
  by_cases hlong : l2MaxFrame < f.octets.length + 7
  · rw [if_pos (.inr hlong), appendDigi, if_pos hlong]
    rfl
  rw [if_neg (by omega), appendDigi, if_neg hlong, Option.map_some]
  -- the last address, and what is before it
  obtain ⟨hsplit, hbefore⟩ := f.addrs_split (i := f.digis.length + 1) (by omega)
  have hrest : f.addrs.drop (f.digis.length + 1 + 1) = [] := List.drop_eq_nil_of_le (by omega)
  rw [hrest] at hsplit
  generalize f.addrs.take (f.digis.length + 1) = as at hsplit hbefore
  generalize f.addrs[f.digis.length + 1] = a at hsplit
  have hoctets := f.octets_at hsplit
  have hflat := length_flatMap_octets as false
  rw [List.isEmpty_nil, field, List.nil_append] at hoctets
  have htake : f.octets.take (7 * (f.digis.length + 1) + 7) =
      as.flatMap (·.octets false) ++ a.octets true := by
    rw [hoctets, ← List.append_assoc]
    exact List.take_left' (by rw [List.length_append, hflat, a.length_octets, hbefore])
  have hdrop : f.octets.drop (7 * (f.digis.length + 1) + 7) = f.tail := by
    rw [hoctets, ← List.append_assoc]
    exact List.drop_left' (by rw [List.length_append, hflat, a.length_octets, hbefore])
  have hmod :=
    modify_append_right (as.flatMap (·.octets false)) (a.octets true ++ []) 6 (· &&& 0xFE)
  rw [(modify_octets a []).1, List.append_nil, List.append_nil, hflat, hbefore] at hmod
  rw [htake, hdrop, hmod]
  have hadd : ({ f with digis := f.digis ++ [.ofCall call] } : L2Frame).addrs =
      as ++ a :: [.ofCall call] := by
    rw [addrs]
    dsimp only
    rw [← List.cons_append, ← List.cons_append, ← addrs, hsplit, List.append_assoc]
    rfl
  rw [octets_at _ hadd]
  simp [field, L2Addr.octets, L2Addr.ofCall]

/-- `flex_l2_remove_digi` takes one digipeater out. -/
theorem flexL2RemoveDigi_octets {i : ℕ} (hi : i < f.digis.length) :
    flexL2RemoveDigi f.octets (14 + 7 * i) = some (f.removeDigi i).octets := by
  have hlen := f.length_octets
  have hcount := f.length_addrs
  have hbit : endBit f.octets (14 + 7 * i) = decide (i + 1 = f.digis.length) := by
    rw [show 14 + 7 * i = 7 * (i + 2) by omega, f.endBit_index (by omega), hcount, decide_eq_decide]
    omega
  obtain ⟨hsplit, hbefore⟩ := f.addrs_split (i := i + 2) (by omega)
  have herase : (f.removeDigi i).addrs = f.addrs.take (i + 2) ++ f.addrs.drop (i + 2 + 1) := by
    rw [addrs, removeDigi]
    dsimp only
    rw [List.eraseIdx_eq_take_drop_succ]
    rfl
  generalize f.addrs.take (i + 2) = as at hsplit hbefore herase
  generalize f.addrs.drop (i + 2 + 1) = bs at hsplit herase
  generalize f.addrs[i + 2] = a at hsplit
  have hoctets := f.octets_at hsplit
  have hflat := length_flatMap_octets as false
  have hmoved : f.octets.take (14 + 7 * i) ++ f.octets.drop (14 + 7 * i + 7) =
      as.flatMap (·.octets false) ++ (field bs ++ f.tail) := by
    rw [hoctets, ← List.append_assoc (as.flatMap _),
      List.drop_left' (by rw [List.length_append, hflat, a.length_octets, hbefore]; omega),
      List.append_assoc, List.take_left' (by rw [hflat, hbefore]; omega)]
  rw [flexL2RemoveDigi, if_neg (by omega)]
  dsimp only
  rw [hmoved, hbit]
  by_cases hlast : i + 1 = f.digis.length
  · -- the address before it becomes the last one
    have hnil : bs = [] := by
      have hall := congrArg List.length hsplit
      rw [hcount, List.length_append, List.length_cons, hbefore] at hall
      exact List.eq_nil_of_length_eq_zero (by omega)
    obtain ⟨as', p, rfl⟩ : ∃ as' p, as = as' ++ [p] := by
      rcases as.eq_nil_or_concat with rfl | ⟨as', p, rfl⟩
      · simp at hbefore
      · exact ⟨as', p, List.concat_eq_append⟩
    rw [List.length_append, List.length_singleton] at hbefore
    subst hnil
    rw [List.append_nil] at herase
    have hflat' := length_flatMap_octets as' false
    have hmod := modify_append_right (as'.flatMap (·.octets false)) (p.octets false ++ f.tail) 6
      (· ||| 0x01)
    rw [(modify_octets p f.tail).2, hflat'] at hmod
    rw [decide_eq_true hlast, if_pos rfl, octets_at _ herase,
      show (if 21 ≤ 14 + 7 * i then 14 + 7 * i - 1 else 13) = 7 * as'.length + 6 by
        split_ifs <;> omega]
    simp only [List.flatMap_append, List.flatMap_cons, List.flatMap_nil, List.append_nil, field,
      List.nil_append, List.append_assoc, List.isEmpty_nil]
    rw [hmod]
    rfl
  · have hmore : bs ≠ [] := by
      rintro rfl
      have hall := congrArg List.length hsplit
      rw [hcount, List.length_append, List.length_cons, hbefore, List.length_nil] at hall
      omega
    rw [decide_eq_false hlast, if_neg (by simp), octets, herase, field_append hmore,
      List.append_assoc]
    rfl

end L2Frame

end FlexNet
