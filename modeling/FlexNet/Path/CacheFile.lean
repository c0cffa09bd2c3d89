import FlexNet.Lib.Text
import FlexNet.Routing.Effects
import FlexNet.Setup.Listed

/-!
# The file of the path cache

`flex_path_cache_save` writes a line for every row whose chain is young enough, and
`flex_path_cache_load` makes rows of such lines.  The reader takes hops apart at tabs and newlines,
the writer does not keep them out.  `flexPathCacheLoad_saved` is the round trip: from a table whose
chains have neither, a node without rows reads back the rows it may have, with their chains and
time stamps.  A file that cannot be written leaves the old one; only files that were written are
modelled.
-/

namespace FlexNet

/-- `FLEXNET_PATH_CACHE_PERSIST_TTL`. -/
def pathCachePersistTtl : ℤ := 18000

/-- The octets of a text. -/
def octets (text : String) : CStr := text.toList.map fun c => UInt8.ofNat c.toNat

/-- The first two lines of the file. -/
def cacheHeader : List CStr :=
  [octets "# linbpq-flexnet path cache v1",
    octets "# format: call ssid_lo ssid_hi path_updated path_len hop1 hop2 ..."]

/-! ## Writing -/

namespace DestEntry

/-- A row that is written: it has a chain, a callsign, and its chain is young enough. -/
def isSaved (now : ℤ) (d : DestEntry) : Bool :=
  !d.path.isEmpty && !d.key.call.isEmpty && decide (now - d.pathUpdated < pathCachePersistTtl)

/-- The hops of its line. -/
def cacheHops (d : DestEntry) : List CStr :=
  ((d.path.take maxPathHops).filter fun h => !h.isEmpty).map Callsign.bytes

/-- The line of a row, without its newline. -/
def cacheLine (d : DestEntry) : CStr :=
  d.key.call.bytes ++ 0x20 :: decimalInt d.key.lo ++ 0x20 :: decimalInt d.key.hi ++
    0x20 :: decimalInt d.pathUpdated ++ 0x20 :: decimal d.path.length ++
    Text.spaced 0x20 d.cacheHops

end DestEntry

/-- The file of a table, and how many rows it has. -/
def flexPathCacheSave (now : ℤ) (dests : List DestEntry) : CStr × ℕ :=
  let rows := dests.filter fun d => d.isSaved now
  (Text.endLines 0x0A (cacheHeader ++ rows.map DestEntry.cacheLine), rows.length)

/-! ## Reading -/

/-- The sign of a number, and what follows it. -/
def scanSign : CStr → ℤ × CStr
  | 0x2D :: q => (-1, q)
  | 0x2B :: q => (1, q)
  | q => (1, q)

/-- `%ld` of `sscanf`, with the text after the number. -/
def scanLong (p : CStr) : Option (ℤ × CStr) :=
  let r := scanSign (p.dropWhile isSpace)
  if !r.2.head?.any isDigit then none
  else
    some (max (-(2 ^ 63)) (min (2 ^ 63 - 1) (r.1 * digitsValue (r.2.takeWhile isDigit))),
      r.2.dropWhile isDigit)

/-- `%d` is `%ld`, cut down to an `int`. -/
theorem scanInt_eq (p : CStr) : scanInt p = (scanLong p).map fun r => (wrap32 r.1, r.2) := by
  unfold scanInt scanLong
  generalize p.dropWhile isSpace = text
  have hboth : ∀ r : ℤ × CStr,
      (if !r.2.head?.any isDigit then none
        else some (wrap32 (max (-(2 ^ 63))
          (min (2 ^ 63 - 1) (r.1 * digitsValue (r.2.takeWhile isDigit)))), r.2.dropWhile isDigit)) =
      Option.map (fun r : ℤ × CStr => (wrap32 r.1, r.2))
        (if !r.2.head?.any isDigit then none
          else some (max (-(2 ^ 63))
            (min (2 ^ 63 - 1) (r.1 * digitsValue (r.2.takeWhile isDigit))),
              r.2.dropWhile isDigit)) := by
    intro r
    split_ifs <;> rfl
  exact hboth (scanSign text)

/-- `sscanf(line, "%15s %d %d %ld %d%n", call, &ssid_lo, &ssid_hi, &path_updated, &path_len,
&consumed)`, when all five are there, with the text after them.  Nothing the node writes has a call
that overruns its buffer. -/
def scanCacheLine (line : CStr) : Option (Key × ℤ × ℤ × CStr) :=
  let text := line.dropWhile isSpace
  let call := (text.take 15).takeWhile fun b => !isSpace b
  if call.isEmpty then none
  else
    (scanInt (text.drop call.length)).bind fun (lo, p) =>
      (scanInt p).bind fun (hi, p) =>
        (scanLong p).bind fun (updated, p) =>
          (scanInt p).map fun (len, p) => (⟨.ofCStr call, lo, hi⟩, updated, len, p)

/-- `FLEXNET_PATH_CACHE_FILE`, line by line: `fgets` into 1024 octets, as C strings. -/
def cacheLines (text : CStr) : List CStr :=
  (Text.pieces 0x0A 1023 text).map fun line => line.takeWhile (· != 0)

namespace Node

variable (n : Node)

/-- The row a line stands for, when it passes the checks. -/
def cacheRow (line : CStr) : Option (Key × List Callsign × ℤ) :=
  if line.head?.all fun b => b == 0x23 || b == 0x0A then none
  else match scanCacheLine line with
    | none => none
    | some (k, updated, len, rest) =>
      if len < 1 ∨ maxPathHops < len then none
      else if pathCachePersistTtl ≤ n.now - updated then none
      else
        let hops := (Text.words isBlank (· == 0x0A) (maxCallsign - 1) len.toNat rest).map .ofCStr
        if (hops.length : ℤ) ≠ len then none
        else if flexChainHasCall hops n.cfg.pathCall then none
        else if !flexChainEndsAt hops k then none
        else some (k, hops, updated)

/-- One line of the file; a row that is not there needs room. -/
def loadCacheLine (state : Node × ℕ) (line : CStr) : Node × ℕ :=
  match state.1.cacheRow line with
  | none => state
  | some (k, path, updated) =>
    if (flexFindDest state.1.dests k).isNone ∧ maxDests ≤ state.1.dests.length then state
    else (state.1.loadPathRow k path updated, state.2 + 1)

/-- `flex_path_cache_load`, with how many rows it loaded; without a file nothing happens. -/
def flexPathCacheLoad (file : Option CStr) : Node × ℕ :=
  (file.elim [] cacheLines).foldl loadCacheLine (n, 0)

end Node

/-! ## Numbers -/

/-- What an `int` holds. -/
def FitsInt (z : ℤ) : Prop := -(2 ^ 31) ≤ z ∧ z < 2 ^ 31

/-- What a `time_t` holds. -/
def FitsLong (z : ℤ) : Prop := -(2 ^ 63) ≤ z ∧ z < 2 ^ 63

instance (z : ℤ) : Decidable (FitsLong z) := inferInstanceAs (Decidable (_ ∧ _))

/-- What does not go on a number. -/
def EndsNumber (rest : CStr) : Prop := ∀ b, rest.head? = some b → isDigit b = false

theorem not_isSpace_of_isDigit {b : UInt8} : isDigit b = true → isSpace b = false :=
  L2Addr.forall_octet (P := fun b => isDigit b = true → isSpace b = false) (by decide +kernel) b

theorem scan_digits (n : ℕ) {rest : CStr} (hrest : EndsNumber rest) :
    (decimal n ++ rest).takeWhile isDigit = decimal n ∧
      (decimal n ++ rest).dropWhile isDigit = rest := by
  have hdigits : ∀ b ∈ decimal n, isDigit b = true := fun b => isDigit_of_mem_decimal
  rw [List.takeWhile_append_of_pos hdigits, List.dropWhile_append_of_pos hdigits]
  cases rest with
  | nil => exact ⟨List.append_nil _, rfl⟩
  | cons b rest =>
      have hb : ¬ isDigit b = true := by rw [hrest b rfl]; decide
      rw [List.takeWhile_cons_of_neg hb, List.dropWhile_cons_of_neg hb]
      exact ⟨List.append_nil _, rfl⟩

theorem scanSign_digit {b : UInt8} (hb : isDigit b = true) (q : CStr) :
    scanSign (b :: q) = (1, b :: q) := by
  unfold scanSign
  split
  · rename_i heq
    rw [(List.cons.inj heq).1] at hb
    exact absurd hb (by decide)
  · rename_i heq
    rw [(List.cons.inj heq).1] at hb
    exact absurd hb (by decide)
  · rfl

/-- A number that fits is read back. -/
theorem scanLong_decimalInt {z : ℤ} (hz : FitsLong z) {rest : CStr} (hrest : EndsNumber rest) :
    scanLong (0x20 :: decimalInt z ++ rest) = some (z, rest) := by
  obtain ⟨b, digits, hb⟩ := List.exists_cons_of_ne_nil (decimal_ne_nil z.natAbs)
  have hdigit : isDigit b = true := isDigit_of_mem_decimal (hb ▸ List.mem_cons_self)
  obtain ⟨htake, hdrop⟩ := scan_digits z.natAbs hrest
  obtain ⟨hlow, hhigh⟩ := hz
  have hclamp : max (-(2 ^ 63)) (min (2 ^ 63 - 1) z) = z := by omega
  unfold scanLong
  rw [List.cons_append, List.dropWhile_cons_of_pos (by rfl)]
  unfold decimalInt
  by_cases hneg : z < 0
  · have habs : (-1 : ℤ) * (z.natAbs : ℕ) = z := by omega
    have hsign :
        scanSign (0x2D :: (decimal z.natAbs ++ rest)) = (-1, decimal z.natAbs ++ rest) := rfl
    rw [if_pos hneg, List.cons_append, List.dropWhile_cons_of_neg (by decide), hsign]
    dsimp only
    rw [htake, hdrop, digitsValue_decimal, habs, hclamp, hb, if_neg (by simp [hdigit])]
  · have habs : (1 : ℤ) * (z.natAbs : ℕ) = z := by omega
    have hsign : scanSign (decimal z.natAbs ++ rest) = (1, decimal z.natAbs ++ rest) := by
      rw [hb, List.cons_append]
      exact scanSign_digit hdigit _
    have hspace : (decimal z.natAbs ++ rest).dropWhile isSpace = decimal z.natAbs ++ rest := by
      rw [hb, List.cons_append, List.dropWhile_cons_of_neg
        (by simp [not_isSpace_of_isDigit hdigit])]
    rw [if_neg hneg, hspace, hsign]
    dsimp only
    rw [htake, hdrop, digitsValue_decimal, habs, hclamp, hb, if_neg (by simp [hdigit])]

theorem wrap32_of_fitsInt {z : ℤ} (hz : FitsInt z) : wrap32 z = z := by
  obtain ⟨hlow, hhigh⟩ := hz
  rw [wrap32, Int.bmod_def]
  split_ifs <;> omega

theorem FitsInt.fitsLong {z : ℤ} (hz : FitsInt z) : FitsLong z := by
  obtain ⟨hlow, hhigh⟩ := hz
  constructor <;> omega

theorem scanInt_decimalInt {z : ℤ} (hz : FitsInt z) {rest : CStr} (hrest : EndsNumber rest) :
    scanInt (0x20 :: decimalInt z ++ rest) = some (z, rest) := by
  rw [scanInt_eq, scanLong_decimalInt hz.fitsLong hrest, Option.map_some, wrap32_of_fitsInt hz]

/-! ## One line -/

/-- The SSIDs of a key are `int`s. -/
structure Key.Fits (k : Key) : Prop where
  lo : FitsInt k.lo
  hi : FitsInt k.hi

namespace DestEntry

/-- A chain a node keeps: it leads to its row without coming back to us, and has no blank in it. -/
structure Charted (us : CStr) (d : DestEntry) : Prop where
  hops : ∀ h ∈ d.path, h.bytes ≠ [] ∧ ∀ b ∈ h.bytes, b ≠ 0x20 ∧ b ≠ 0
  short : d.path.length ≤ maxPathHops
  apart : flexChainHasCall d.path us = false
  ends : flexChainEndsAt d.path d.key = true
  stamp : FitsLong d.pathUpdated

/-- A chain the reader does not take apart. -/
def Clean (d : DestEntry) : Prop := ∀ h ∈ d.path, ∀ b ∈ h.bytes, b ≠ 0x09 ∧ b ≠ 0x0A

instance (d : DestEntry) : Decidable d.Clean :=
  inferInstanceAs (Decidable (∀ h ∈ d.path, ∀ b ∈ h.bytes, b ≠ 0x09 ∧ b ≠ 0x0A))

end DestEntry

/-- The octets of a base are none of those the reader looks for. -/
theorem not_isSpace_of_isAlnum {b : UInt8} :
    isAlnum b = true → isSpace b = false ∧ b ≠ 0x23 ∧ b ≠ 0 :=
  L2Addr.forall_octet (P := fun b => isAlnum b = true → isSpace b = false ∧ b ≠ 0x23 ∧ b ≠ 0)
    (by decide +kernel) b

theorem isAlnum_of_toLower {b : UInt8} : isAlnum (toLower b) = true → isAlnum b = true :=
  L2Addr.forall_octet (P := fun b => isAlnum (toLower b) = true → isAlnum b = true)
    (by decide +kernel) b

theorem isAlnum_toLower {b : UInt8} : isAlnum b = true → isAlnum (toLower b) = true :=
  L2Addr.forall_octet (P := fun b => isAlnum b = true → isAlnum (toLower b) = true)
    (by decide +kernel) b

/-- What reads as a base is one. -/
theorem IsBase.of_strcasecmp {base call : CStr} (hbase : IsBase base)
    (h : strcasecmp base call = true) : IsBase call := by
  rw [strcasecmp, beq_iff_eq] at h
  have hlen : base.length = call.length := by
    simpa only [List.length_map] using congrArg List.length h
  refine ⟨?_, by have := hbase.short; omega, ?_⟩
  · intro hnil
    have hpos := List.length_pos_iff.mpr hbase.nonempty
    rw [hlen, hnil] at hpos
    cases hpos
  · intro b hb
    have hmem : toLower b ∈ base.map toLower := h ▸ List.mem_map_of_mem hb
    obtain ⟨c, hc, heq⟩ := List.mem_map.mp hmem
    exact isAlnum_of_toLower (heq ▸ isAlnum_toLower (hbase.alnum c hc))

/-- The row a chain ends at has a base of letters and digits. -/
theorem isBase_of_flexChainEndsAt {chain : List Callsign} {k : Key}
    (h : flexChainEndsAt chain k = true) : IsBase k.call.bytes := by
  obtain ⟨last, -, hlast⟩ := (Option.any_eq_true ..).mp h
  obtain ⟨-, hsplit⟩ := Bool.and_eq_true_iff.mp hlast
  obtain ⟨⟨base, ssid⟩, hcall, hin⟩ := (Option.any_eq_true ..).mp hsplit
  exact (flexSplitCall_spec hcall).isBase.of_strcasecmp (Bool.and_eq_true_iff.mp hin).1

namespace DestEntry

variable {d : DestEntry} {us : CStr}

/-- All hops of a chain are written. -/
theorem Charted.cacheHops (h : d.Charted us) : d.cacheHops = d.path.map Callsign.bytes := by
  unfold DestEntry.cacheHops
  rw [List.take_of_length_le h.short, List.filter_eq_self.mpr]
  intro hop hmem
  have hne := (h.hops hop hmem).1
  unfold Callsign.isEmpty
  simpa using hne

theorem cacheLine_append (d : DestEntry) (tail : CStr) :
    d.cacheLine ++ tail =
      d.key.call.bytes ++ (0x20 :: decimalInt d.key.lo ++ (0x20 :: decimalInt d.key.hi ++
        (0x20 :: decimalInt d.pathUpdated ++ (0x20 :: decimalInt d.path.length ++
          (Text.spaced 0x20 d.cacheHops ++ tail))))) := by
  have hlen : decimalInt (d.path.length : ℤ) = decimal d.path.length := by
    rw [decimalInt_of_nonneg (Int.natCast_nonneg _), Int.toNat_natCast]
  rw [hlen, cacheLine]
  simp only [List.append_assoc, List.cons_append]

end DestEntry

/-- A blank ends a number. -/
theorem endsNumber_blank (rest : CStr) : EndsNumber (0x20 :: rest) := by
  intro b hb
  obtain rfl := Option.some.inj hb
  rfl

theorem endsNumber_spaced (ws : List CStr) {tail : CStr} (htail : EndsNumber tail) :
    EndsNumber (Text.spaced 0x20 ws ++ tail) := by
  cases ws with
  | nil => exact htail
  | cons w ws => exact endsNumber_blank _

theorem endsNumber_newline : EndsNumber [0x0A] := by
  intro b hb
  obtain rfl := Option.some.inj hb
  rfl

/-- The fields of a line are read back. -/
theorem scanCacheLine_cacheLine {d : DestEntry} (hbase : IsBase d.key.call.bytes)
    (hkey : d.key.Fits)
    (hstamp : FitsLong d.pathUpdated) (hshort : d.path.length ≤ maxPathHops) :
    scanCacheLine (d.cacheLine ++ [0x0A]) =
      some (d.key, d.pathUpdated, (d.path.length : ℤ), Text.spaced 0x20 d.cacheHops ++ [0x0A]) := by
  have hlen : FitsInt (d.path.length : ℤ) := by
    unfold maxPathHops at hshort
    constructor <;> omega
  rw [d.cacheLine_append]
  set text₄ := Text.spaced 0x20 d.cacheHops ++ [0x0A]
  have hends : EndsNumber text₄ := endsNumber_spaced _ endsNumber_newline
  set text₃ := 0x20 :: decimalInt d.path.length ++ text₄
  set text₂ := 0x20 :: decimalInt d.pathUpdated ++ text₃
  set text₁ := 0x20 :: decimalInt d.key.hi ++ text₂
  have hends₁ : EndsNumber text₁ := endsNumber_blank _
  have hends₂ : EndsNumber text₂ := endsNumber_blank _
  have hends₃ : EndsNumber text₃ := endsNumber_blank _
  -- the call is the first word
  obtain ⟨b, rest, hb⟩ := List.exists_cons_of_ne_nil hbase.nonempty
  have hword : ∀ c ∈ d.key.call.bytes, (!isSpace c) = true := fun c hc => by
    rw [(not_isSpace_of_isAlnum (hbase.alnum c hc)).1]
    rfl
  have hstart : ∀ t : CStr, (d.key.call.bytes ++ t).dropWhile isSpace = d.key.call.bytes ++ t := by
    intro t
    have hspace : ¬ isSpace b = true := by
      simpa using hword b (hb ▸ List.mem_cons_self)
    rw [hb, List.cons_append, List.dropWhile_cons_of_neg hspace]
  have hcall : ∀ t : CStr,
      ((d.key.call.bytes ++ 0x20 :: t).take 15).takeWhile (fun b => !isSpace b) =
      d.key.call.bytes := by
    intro t
    have hroom : 15 - d.key.call.bytes.length = (14 - d.key.call.bytes.length) + 1 := by
      have := hbase.short
      omega
    rw [List.take_append, List.take_of_length_le (by have := hbase.short; omega),
      List.takeWhile_append_of_pos hword, hroom, List.take_succ_cons,
      List.takeWhile_cons_of_neg (by decide), List.append_nil]
  unfold scanCacheLine
  dsimp only
  rw [hstart, List.cons_append, hcall, if_neg (by simp [hb]), List.drop_left, ← List.cons_append,
    scanInt_decimalInt hkey.lo hends₁, Option.bind_some]
  dsimp only
  rw [scanInt_decimalInt hkey.hi hends₂, Option.bind_some]
  dsimp only
  rw [scanLong_decimalInt hstamp hends₃, Option.bind_some]
  dsimp only
  rw [scanInt_decimalInt hlen hends, Option.map_some, Callsign.ofCStr_bytes]

theorem mem_decimalInt {z : ℤ} {b : UInt8} (h : b ∈ decimalInt z) :
    b = 0x2D ∨ isDigit b = true := by
  unfold decimalInt at h
  split_ifs at h
  · rcases List.mem_cons.mp h with rfl | h
    · exact .inl rfl
    · exact .inr (isDigit_of_mem_decimal h)
  · exact .inr (isDigit_of_mem_decimal h)

theorem length_decimalInt_le {z : ℤ} {digits : ℕ} (hpos : 0 < digits)
    (hz : z.natAbs < 10 ^ digits) :
    (decimalInt z).length ≤ digits + 1 := by
  have hlen := length_decimal_le hpos hz
  unfold decimalInt
  split_ifs
  · rw [List.length_cons]
    omega
  · omega

/-- Callsigns behind blanks take at most ten octets each. -/
theorem length_spaced_le (calls : List Callsign) :
    (Text.spaced 0x20 (calls.map Callsign.bytes)).length ≤ 10 * calls.length := by
  induction calls with
  | nil => exact Nat.le_refl 0
  | cons call calls ih =>
      have hcall := call.le
      rw [List.map_cons, Text.spaced_cons, List.length_append, List.length_cons, List.length_cons]
      omega

namespace DestEntry

variable {d : DestEntry} {us : CStr}

/-- What the octets of a line are. -/
theorem Charted.mem_cacheLine (h : d.Charted us) {b : UInt8} (hb : b ∈ d.cacheLine) :
    isAlnum b = true ∨ b = 0x20 ∨ b = 0x2D ∨ ∃ hop ∈ d.path, b ∈ hop.bytes := by
  have hnumber : ∀ z : ℤ, b ∈ decimalInt z → isAlnum b = true ∨ b = 0x2D := by
    intro z hz
    rcases mem_decimalInt hz with rfl | hdigit
    · exact .inr rfl
    · exact .inl (by simp [isAlnum, hdigit])
  have hhops : b ∈ Text.spaced 0x20 d.cacheHops → b = 0x20 ∨ ∃ hop ∈ d.path, b ∈ hop.bytes := by
    intro hmem
    rw [h.cacheHops] at hmem
    obtain ⟨w, hw, hbw⟩ := List.mem_flatMap.mp hmem
    obtain ⟨hop, hhop, rfl⟩ := List.mem_map.mp hw
    rcases List.mem_cons.mp hbw with rfl | hbw
    · exact .inl rfl
    · exact .inr ⟨hop, hhop, hbw⟩
  have hline := d.cacheLine_append []
  rw [List.append_nil, List.append_nil] at hline
  rw [hline] at hb
  simp only [List.mem_append, List.mem_cons] at hb
  have hcall : b ∈ d.key.call.bytes → isAlnum b = true :=
    (isBase_of_flexChainEndsAt h.ends).alnum b
  rcases hb with hb | ((rfl | hb) | ((rfl | hb) | ((rfl | hb) | ((rfl | hb) | hb))))
  · exact .inl (hcall hb)
  · exact .inr (.inl rfl)
  · rcases hnumber _ hb with hb | hb
    · exact .inl hb
    · exact .inr (.inr (.inl hb))
  · exact .inr (.inl rfl)
  · rcases hnumber _ hb with hb | hb
    · exact .inl hb
    · exact .inr (.inr (.inl hb))
  · exact .inr (.inl rfl)
  · rcases hnumber _ hb with hb | hb
    · exact .inl hb
    · exact .inr (.inr (.inl hb))
  · exact .inr (.inl rfl)
  · rcases hnumber _ hb with hb | hb
    · exact .inl hb
    · exact .inr (.inr (.inl hb))
  · rcases hhops hb with hb | hb
    · exact .inr (.inl hb)
    · exact .inr (.inr (.inr hb))

/-- A line has no NUL in it. -/
theorem Charted.ne_zero (h : d.Charted us) {b : UInt8} (hb : b ∈ d.cacheLine) : b ≠ 0 := by
  rcases h.mem_cacheLine hb with hb | rfl | rfl | ⟨hop, hhop, hb⟩
  · exact (not_isSpace_of_isAlnum hb).2.2
  · decide
  · decide
  · exact ((h.hops hop hhop).2 b hb).2

/-- The line of a clean chain is one line. -/
theorem Charted.ne_newline (h : d.Charted us) (hclean : d.Clean) {b : UInt8}
    (hb : b ∈ d.cacheLine) :
    b ≠ 0x0A := by
  rcases h.mem_cacheLine hb with hb | rfl | rfl | ⟨hop, hhop, hb⟩
  · rintro rfl
    exact absurd hb (by decide)
  · decide
  · decide
  · exact (hclean hop hhop b hb).2

/-- A line fits the reader's buffer. -/
theorem Charted.length_cacheLine (h : d.Charted us) (hkey : d.key.Fits) :
    d.cacheLine.length < 1023 := by
  have hcall := (isBase_of_flexChainEndsAt h.ends).short
  have hlo : (decimalInt d.key.lo).length ≤ 10 + 1 := by
    refine length_decimalInt_le (by decide) ?_
    obtain ⟨hlow, hhigh⟩ := hkey.lo
    omega
  have hhi : (decimalInt d.key.hi).length ≤ 10 + 1 := by
    refine length_decimalInt_le (by decide) ?_
    obtain ⟨hlow, hhigh⟩ := hkey.hi
    omega
  have hstamp : (decimalInt d.pathUpdated).length ≤ 19 + 1 := by
    refine length_decimalInt_le (by decide) ?_
    obtain ⟨hlow, hhigh⟩ := h.stamp
    omega
  have hshort := h.short
  unfold maxPathHops at hshort
  have hlen : (decimal d.path.length).length ≤ 2 := length_decimal_le (by decide) (by omega)
  have hhops := length_spaced_le d.path
  rw [← h.cacheHops] at hhops
  simp only [cacheLine, List.length_append, List.length_cons]
  omega

end DestEntry

/-- A chain that ends somewhere is not empty. -/
theorem ne_nil_of_flexChainEndsAt {chain : List Callsign} {k : Key}
    (h : flexChainEndsAt chain k = true) : chain ≠ [] := by
  rintro rfl
  cases h

/-- The row of a line is read back, unless it is too old or leads back to the reader. -/
theorem Node.cacheRow_cacheLine (n : Node) {d : DestEntry} {us : CStr} (h : d.Charted us)
    (hclean : d.Clean) (hkey : d.key.Fits) :
    n.cacheRow (d.cacheLine ++ [0x0A]) =
      if n.now - d.pathUpdated < pathCachePersistTtl ∧
          flexChainHasCall d.path n.cfg.pathCall = false then
        some (d.key, d.path, d.pathUpdated)
      else none := by
  have hbase := isBase_of_flexChainEndsAt h.ends
  obtain ⟨b, rest, hb⟩ := List.exists_cons_of_ne_nil hbase.nonempty
  have hhead : ¬ ((d.cacheLine ++ [0x0A]).head?.all fun b => b == 0x23 || b == 0x0A) = true := by
    obtain ⟨hspace, hcomment, -⟩ := not_isSpace_of_isAlnum (hbase.alnum b (hb ▸ List.mem_cons_self))
    have hnewline : b ≠ 0x0A := by
      rintro rfl
      exact absurd hspace (by decide)
    rw [d.cacheLine_append, hb, List.cons_append, List.head?_cons]
    simp [hcomment, hnewline]
  have hpos : 0 < d.path.length := List.length_pos_iff.mpr (ne_nil_of_flexChainEndsAt h.ends)
  have hlen : ¬ ((d.path.length : ℤ) < 1 ∨ (maxPathHops : ℤ) < d.path.length) := by
    have := h.short
    omega
  have hwords : ∀ w ∈ d.path.map Callsign.bytes,
      Text.IsWord isBlank (· == 0x0A) (maxCallsign - 1) w := by
    intro w hw
    obtain ⟨hop, hhop, rfl⟩ := List.mem_map.mp hw
    obtain ⟨hne, hchars⟩ := h.hops hop hhop
    refine ⟨hne, hop.le, ?_⟩
    intro c hc
    have hblank := (hchars c hc).1
    obtain ⟨htab, hnewline⟩ := hclean hop hhop c hc
    simp [Text.inWord, isBlank, hblank, htab, hnewline]
  have htail : ∀ b, ([0x0A] : CStr).head? = some b → Text.inWord isBlank (· == 0x0A) b = false := by
    intro b hb
    obtain rfl := Option.some.inj hb
    rfl
  have hread : (Text.words isBlank (· == 0x0A) (maxCallsign - 1) d.path.length
      (Text.spaced 0x20 d.cacheHops ++ [0x0A])).map .ofCStr = d.path := by
    have hspaced := Text.words_spaced (show isBlank 0x20 = true from rfl) hwords htail
    rw [List.length_map] at hspaced
    rw [h.cacheHops, hspaced, List.map_map]
    exact List.map_id'' (fun c => c.ofCStr_bytes) d.path
  unfold Node.cacheRow
  rw [if_neg hhead, scanCacheLine_cacheLine hbase hkey h.stamp h.short]
  dsimp only
  rw [if_neg hlen, Int.toNat_natCast, hread, h.ends]
  by_cases hold : n.now - d.pathUpdated < pathCachePersistTtl
  · have hlength : ¬ (d.path.length : ℤ) ≠ d.path.length := not_ne_iff.mpr rfl
    rw [if_neg (not_le.mpr hold), if_neg hlength]
    cases flexChainHasCall d.path n.cfg.pathCall <;> simp [hold]
  · rw [if_pos (not_lt.mp hold), if_neg (fun hboth => hold hboth.1)]

/-! ## The table -/

theorem flexFindDest_eq_none {dests : List DestEntry} {k : Key} :
    flexFindDest dests k = none ↔ ∀ d ∈ dests, ¬ SameDest d.key k := by
  rw [flexFindDest, List.findIdx?_eq_none_iff]
  refine forall₂_congr fun d _ => ?_
  rw [← Bool.not_eq_true, Bool.and_eq_true, Bool.and_eq_true, beq_iff_eq, beq_iff_eq, and_assoc,
    strcasecmp_iff]
  rfl

/-- What a destination table keeps: there is room for its rows, no two have the same key, and every
chain leads to its row. -/
structure Table (us : CStr) (dests : List DestEntry) : Prop where
  room : dests.length ≤ maxDests
  distinct : dests.Pairwise fun d d' => ¬ SameDest d.key d'.key
  keys : ∀ d ∈ dests, d.key.Fits
  chains : ∀ d ∈ dests, d.path ≠ [] → d.Charted us

/-- The row the reader makes: the chain and its time stamp, at infinity, with no next hop. -/
def placeholder (row : Key × List Callsign × ℤ) : DestEntry :=
  ⟨row.1, rttInfinity, false, .empty, 0, none, 0, row.2.1, row.2.2⟩

/-- What a row has cached. -/
def DestEntry.chart (d : DestEntry) : Key × List Callsign × ℤ := (d.key, d.path, d.pathUpdated)

namespace Node

/-- A line is one row at most. -/
theorem loadCacheLine_fst (state : Node × ℕ) (line : CStr) :
    (loadCacheLine state line).1 =
      (state.1.cacheRow line).elim state.1 fun row =>
      state.1.loadPathRow row.1 row.2.1 row.2.2 := by
  unfold loadCacheLine
  cases state.1.cacheRow line with
  | none => rfl
  | some row =>
      obtain ⟨k, path, updated⟩ := row
      dsimp only [Option.elim_some]
      by_cases hfull : (flexFindDest state.1.dests k).isNone ∧ maxDests ≤ state.1.dests.length
      · rw [if_pos hfull]
        unfold loadPathRow
        rw [Option.isNone_iff_eq_none.mp hfull.1]
        exact (if_neg (not_lt.mpr hfull.2)).symm
      · rw [if_neg hfull]

theorem loadPathRow_same (n : Node) (k : Key) (path : List Callsign) (updated : ℤ) :
    (n.loadPathRow k path updated).now = n.now ∧ (n.loadPathRow k path updated).cfg = n.cfg := by
  unfold loadPathRow
  split
  · exact ⟨rfl, rfl⟩
  · split_ifs <;> exact ⟨rfl, rfl⟩

theorem cacheRow_congr {n m : Node} (hnow : m.now = n.now) (hcfg : m.cfg = n.cfg) :
    m.cacheRow = n.cacheRow := by
  funext line
  unfold cacheRow
  rw [hnow, hcfg]

/-- Reading the file is reading the rows of its lines. -/
theorem flexPathCacheLoad_fst (n : Node) (file : Option CStr) :
    (n.flexPathCacheLoad file).1 =
      n.event (.pathCache ((file.elim [] cacheLines).filterMap n.cacheRow)) := by
  have hlines : ∀ (lines : List CStr) (m : Node) (count : ℕ), m.cacheRow = n.cacheRow →
      (lines.foldl loadCacheLine (m, count)).1 =
        (lines.filterMap n.cacheRow).foldl
          (fun m row => m.loadPathRow row.1 row.2.1 row.2.2) m := by
    intro lines
    induction lines with
    | nil => exact fun _ _ _ => rfl
    | cons line lines ih =>
        intro m count hrow
        have hstep := loadCacheLine_fst (m, count) line
        rw [List.foldl_cons, ← Prod.mk.eta (p := loadCacheLine (m, count) line), hstep, hrow]
        cases hline : n.cacheRow line with
        | none =>
            rw [List.filterMap_cons_none hline]
            exact ih m _ hrow
        | some row =>
            obtain ⟨hnow, hcfg⟩ := loadPathRow_same m row.1 row.2.1 row.2.2
            rw [List.filterMap_cons_some hline, List.foldl_cons]
            exact ih _ _ ((cacheRow_congr hnow hcfg).trans hrow)
  exact hlines _ n 0 rfl

/-- Rows that are new are appended while there is room. -/
theorem load_new (rows : List (Key × List Callsign × ℤ)) (n : Node)
    (hroom : n.dests.length + rows.length ≤ maxDests)
    (hnew : ∀ row ∈ rows, ∀ d ∈ n.dests, ¬ SameDest d.key row.1)
    (hdistinct : rows.Pairwise fun row row' => ¬ SameDest row.1 row'.1) :
    rows.foldl (fun n (k, path, updated) => n.loadPathRow k path updated) n =
      { n with dests := n.dests ++ rows.map placeholder } := by
  induction rows generalizing n with
  | nil => rw [List.map_nil, List.append_nil]; rfl
  | cons row rows ih =>
      rw [List.length_cons] at hroom
      obtain ⟨hfirst, hrest⟩ := List.pairwise_cons.mp hdistinct
      have hrow : n.loadPathRow row.1 row.2.1 row.2.2 =
          { n with dests := n.dests ++ [placeholder row] } := by
        unfold loadPathRow
        rw [flexFindDest_eq_none.mpr (hnew row List.mem_cons_self)]
        exact if_pos (by omega)
      rw [List.foldl_cons]
      dsimp only
      rw [hrow, ih _ (by simp only [List.length_append, List.length_singleton]; omega) ?_ hrest,
        List.map_cons, List.append_assoc, List.singleton_append]
      intro row' hrow' d hd
      rcases List.mem_append.mp hd with hd | hd
      · exact hnew row' (List.mem_cons_of_mem row hrow') d hd
      · obtain rfl := List.mem_singleton.mp hd
        exact hfirst row' hrow'

/-- A row the reader takes from its line. -/
def takesBack (m : Node) (d : DestEntry) : Bool :=
  decide (m.now - d.pathUpdated < pathCachePersistTtl) && !flexChainHasCall d.path m.cfg.pathCall

end Node

theorem mem_saved {now : ℤ} {dests : List DestEntry} {d : DestEntry}
    (h : d ∈ dests.filter fun d => d.isSaved now) :
    d ∈ dests ∧ d.path ≠ [] ∧ now - d.pathUpdated < pathCachePersistTtl := by
  obtain ⟨hmem, hsaved⟩ := List.mem_filter.mp h
  simp only [DestEntry.isSaved, Bool.and_eq_true, decide_eq_true_eq, Bool.not_eq_true',
    List.isEmpty_eq_false_iff] at hsaved
  exact ⟨hmem, hsaved.1.1, hsaved.2⟩

/-- The comment lines are comment lines. -/
theorem cacheHeader_lines : ∀ l ∈ cacheHeader,
    l.head? = some 0x23 ∧ l.length < 1023 ∧ ∀ b ∈ l, b ≠ 0x0A ∧ b ≠ 0 := by
  decide +kernel

section Saved

variable {us : CStr} {now : ℤ} {dests : List DestEntry}

/-- The lines of a file that was written. -/
theorem cacheLines_saved (h : Table us dests)
    (hclean : ∀ d ∈ dests, d.isSaved now = true → d.Clean) :
    cacheLines (flexPathCacheSave now dests).1 =
      (cacheHeader ++ (dests.filter fun d => d.isSaved now).map DestEntry.cacheLine).map
        (· ++ [0x0A]) := by
  have hline : ∀ l ∈ cacheHeader ++ (dests.filter fun d => d.isSaved now).map DestEntry.cacheLine,
      (0x0A ∉ l ∧ l.length < 1023) ∧ ∀ b ∈ l, b ≠ 0 := by
    intro l hl
    rcases List.mem_append.mp hl with hl | hl
    · obtain ⟨-, hlen, hchars⟩ := cacheHeader_lines l hl
      exact ⟨⟨fun hmem => (hchars _ hmem).1 rfl, hlen⟩, fun b hb => (hchars b hb).2⟩
    · obtain ⟨d, hd, rfl⟩ := List.mem_map.mp hl
      obtain ⟨hmem, hpath, -⟩ := mem_saved hd
      have hchart := h.chains d hmem hpath
      have hdclean := hclean d hmem (List.mem_filter.mp hd).2
      exact ⟨⟨fun hnl => hchart.ne_newline hdclean hnl rfl,
          hchart.length_cacheLine (h.keys d hmem)⟩,
        fun b hb => hchart.ne_zero hb⟩
  unfold cacheLines flexPathCacheSave
  dsimp only
  rw [Text.pieces_endLines fun l hl => (hline l hl).1, List.map_map]
  refine List.map_congr_left fun l hl => ?_
  refine List.takeWhile_eq_self_iff.mpr fun b hb => ?_
  rcases List.mem_append.mp hb with hb | hb
  · simpa using (hline l hl).2 b hb
  · obtain rfl := List.mem_singleton.mp hb
    rfl

/-- The rows of a file that was written. -/
theorem cacheRows_saved (h : Table us dests) (hclean : ∀ d ∈ dests, d.isSaved now = true → d.Clean)
    (m : Node) :
    (cacheLines (flexPathCacheSave now dests).1).filterMap m.cacheRow =
      ((dests.filter fun d => d.isSaved now).filter m.takesBack).map DestEntry.chart := by
  have hheader : (cacheHeader.map (· ++ [0x0A])).filterMap m.cacheRow = [] := by
    refine List.filterMap_eq_nil_iff.mpr ?_
    intro line hline
    obtain ⟨l, hl, rfl⟩ := List.mem_map.mp hline
    obtain ⟨rest, rfl⟩ := List.head?_eq_some_iff.mp (cacheHeader_lines l hl).1
    exact if_pos (by rfl)
  rw [cacheLines_saved h hclean, List.map_append, List.filterMap_append, hheader, List.nil_append,
    List.map_map, List.filterMap_map]
  have hrows : ∀ rows : List DestEntry, rows ⊆ (dests.filter fun d => d.isSaved now) →
      rows.filterMap (m.cacheRow ∘ (fun l => l ++ [0x0A]) ∘ DestEntry.cacheLine) =
        (rows.filter m.takesBack).map DestEntry.chart := by
    intro rows
    induction rows with
    | nil => exact fun _ => rfl
    | cons d rows ih =>
        intro hsub
        have hd := hsub List.mem_cons_self
        obtain ⟨hmem, hpath, -⟩ := mem_saved hd
        have hrow : (m.cacheRow ∘ (fun l => l ++ [0x0A]) ∘ DestEntry.cacheLine) d =
            if m.now - d.pathUpdated < pathCachePersistTtl ∧
                flexChainHasCall d.path m.cfg.pathCall = false then
              some d.chart
            else none :=
          m.cacheRow_cacheLine (h.chains d hmem hpath) (hclean d hmem (List.mem_filter.mp hd).2)
            (h.keys d hmem)
        have hrest := ih fun x hx => hsub (List.mem_cons_of_mem d hx)
        by_cases hback : m.takesBack d = true
        · have hboth := hback
          simp only [Node.takesBack, Bool.and_eq_true, decide_eq_true_eq,
            Bool.not_eq_true'] at hboth
          rw [if_pos hboth] at hrow
          rw [List.filterMap_cons_some hrow, List.filter_cons_of_pos hback, List.map_cons, hrest]
        · have hneither : ¬ (m.now - d.pathUpdated < pathCachePersistTtl ∧
              flexChainHasCall d.path m.cfg.pathCall = false) := by
            rintro ⟨hyoung, hapart⟩
            exact hback (by simp [Node.takesBack, hyoung, hapart])
          rw [if_neg hneither] at hrow
          rw [List.filterMap_cons_none hrow, List.filter_cons_of_neg hback, hrest]
  exact hrows _ (List.Subset.refl _)

/-- A node without rows reads back the rows it may have. -/
theorem flexPathCacheLoad_saved (h : Table us dests)
    (hclean : ∀ d ∈ dests, d.isSaved now = true → d.Clean) (m : Node) (hempty : m.dests = []) :
    (m.flexPathCacheLoad (some (flexPathCacheSave now dests).1)).1 =
      { m with dests :=
          ((dests.filter fun d => d.isSaved now).filter m.takesBack).map fun d =>
              placeholder d.chart } := by
  rw [m.flexPathCacheLoad_fst]
  change ((cacheLines (flexPathCacheSave now dests).1).filterMap m.cacheRow).foldl _ m = _
  have hsub : (((dests.filter fun d => d.isSaved now).filter m.takesBack)).Sublist dests :=
    List.filter_sublist.trans List.filter_sublist
  rw [cacheRows_saved h hclean m, Node.load_new, hempty, List.nil_append, List.map_map]
  · rfl
  · rw [hempty, List.length_map, List.length_nil, Nat.zero_add]
    exact hsub.length_le.trans h.room
  · rw [hempty]
    exact fun _ _ d hd => absurd hd List.not_mem_nil
  · exact List.pairwise_map.mpr (h.distinct.sublist hsub)

end Saved

/-! ## Any file -/

theorem fitsInt_wrap32 (z : ℤ) : FitsInt (wrap32 z) := by
  have hlow := Int.le_bmod (x := z) (m := 2 ^ 32) (by decide)
  have hhigh := Int.bmod_lt (x := z) (m := 2 ^ 32) (by decide)
  unfold FitsInt wrap32
  constructor <;> omega

theorem scanLong_fits {p rest : CStr} {z : ℤ} (h : scanLong p = some (z, rest)) :
    FitsLong z ∧ rest <:+ p := by
  unfold scanLong at h
  dsimp only at h
  split_ifs at h
  obtain ⟨rfl, rfl⟩ := Prod.mk.inj (Option.some.inj h)
  refine ⟨⟨by omega, by omega⟩, ?_⟩
  have hsign : ∀ q : CStr, (scanSign q).2 <:+ q := by
    intro q
    unfold scanSign
    split
    · exact List.suffix_cons _ _
    · exact List.suffix_cons _ _
    · exact List.suffix_refl _
  exact (List.dropWhile_suffix _).trans ((hsign _).trans (List.dropWhile_suffix _))

theorem scanInt_fits {p rest : CStr} {z : ℤ} (h : scanInt p = some (z, rest)) :
    FitsInt z ∧ rest <:+ p := by
  rw [scanInt_eq] at h
  obtain ⟨⟨long, rest'⟩, hlong, heq⟩ := Option.map_eq_some_iff.mp h
  obtain ⟨rfl, rfl⟩ := Prod.mk.inj heq
  exact ⟨fitsInt_wrap32 long, (scanLong_fits hlong).2⟩

/-- What the fields of any line are. -/
theorem scanCacheLine_fits {line rest : CStr} {k : Key} {updated len : ℤ}
    (h : scanCacheLine line = some (k, updated, len, rest)) :
    k.Fits ∧ FitsLong updated ∧ rest <:+ line := by
  unfold scanCacheLine at h
  dsimp only at h
  split_ifs at h
  obtain ⟨⟨lo, p₁⟩, hlo, h⟩ := Option.bind_eq_some_iff.mp h
  obtain ⟨⟨hi, p₂⟩, hhi, h⟩ := Option.bind_eq_some_iff.mp h
  obtain ⟨⟨stamp, p₃⟩, hstamp, h⟩ := Option.bind_eq_some_iff.mp h
  obtain ⟨⟨count, p₄⟩, hcount, h⟩ := Option.map_eq_some_iff.mp h
  simp only [Prod.mk.injEq] at h
  obtain ⟨rfl, rfl, rfl, rfl⟩ := h
  obtain ⟨hlo, hsuffix₁⟩ := scanInt_fits hlo
  obtain ⟨hhi, hsuffix₂⟩ := scanInt_fits hhi
  obtain ⟨hstamp, hsuffix₃⟩ := scanLong_fits hstamp
  have hsuffix₄ := (scanInt_fits hcount).2
  exact ⟨⟨hlo, hhi⟩, hstamp, hsuffix₄.trans <| hsuffix₃.trans <| hsuffix₂.trans <| hsuffix₁.trans <|
    (List.drop_suffix _ _).trans (List.dropWhile_suffix _)⟩

/-- Whatever the file, a row that is read has a clean chain that leads to it. -/
theorem Node.cacheRow_charted {n : Node} {line : CStr} (hline : ∀ b ∈ line, b ≠ 0)
    {row : Key × List Callsign × ℤ} (h : n.cacheRow line = some row) :
    row.1.Fits ∧ (placeholder row).Charted n.cfg.pathCall ∧ (placeholder row).Clean ∧
      n.now - row.2.2 < pathCachePersistTtl := by
  unfold cacheRow at h
  split at h
  · cases h
  split at h
  · cases h
  rename_i k updated len rest hscan
  obtain ⟨hkey, hstamp, hsuffix⟩ := scanCacheLine_fits hscan
  dsimp only at h
  split at h
  · cases h
  rename_i hlen
  split at h
  · cases h
  rename_i hyoung
  split at h
  · cases h
  rename_i hcount
  split at h
  · cases h
  rename_i hapart
  split at h
  · cases h
  rename_i hends
  obtain rfl := Option.some.inj h
  have hhop : ∀ hop ∈ (Text.words isBlank (· == 0x0A) (maxCallsign - 1) len.toNat rest).map
      Callsign.ofCStr, hop.bytes ≠ [] ∧
        ∀ b ∈ hop.bytes, b ≠ 0x20 ∧ b ≠ 0x09 ∧ b ≠ 0x0A ∧ b ≠ 0 := by
    intro hop hmem
    obtain ⟨w, hw, rfl⟩ := List.mem_map.mp hmem
    obtain ⟨hword, hin⟩ := Text.mem_words hw
    have hbytes : (Callsign.ofCStr w).bytes = w := List.take_of_length_le hword.fits
    rw [hbytes]
    refine ⟨hword.ne, ?_⟩
    intro b hb
    have hclean := hword.clean b hb
    simp only [Text.inWord, isBlank, Bool.not_or, Bool.and_eq_true, Bool.not_eq_true',
      beq_eq_false_iff_ne]
      at hclean
    exact ⟨hclean.1.1, hclean.1.2, hclean.2, hline b (hsuffix.subset (hin b hb))⟩
  refine ⟨hkey, ⟨?_, ?_, ?_, ?_, hstamp⟩, ?_, not_le.mp hyoung⟩
  · intro hop hmem
    obtain ⟨hne, hchars⟩ := hhop hop hmem
    exact ⟨hne, fun b hb => ⟨(hchars b hb).1, (hchars b hb).2.2.2⟩⟩
  · have hcount' := not_ne_iff.mp hcount
    dsimp only [placeholder]
    omega
  · exact Bool.not_eq_true _ ▸ hapart
  · rw [Bool.not_eq_true', Bool.not_eq_false] at hends
    exact hends
  · intro hop hmem b hb
    obtain ⟨-, htab, hnewline, -⟩ := (hhop hop hmem).2 b hb
    exact ⟨htab, hnewline⟩

/-- The lines of a file have no NUL in them. -/
theorem ne_zero_of_mem_cacheLines {text line : CStr} (h : line ∈ cacheLines text) :
    ∀ b ∈ line, b ≠ 0 := by
  obtain ⟨piece, -, rfl⟩ := List.mem_map.mp h
  intro b hb
  simpa using List.mem_takeWhile_imp hb

/-- What is read is clean, whatever the file. -/
theorem Node.clean_flexPathCacheLoad {n : Node} (h : ∀ d ∈ n.dests, d.Clean) (file : Option CStr) :
    ∀ d ∈ (n.flexPathCacheLoad file).1.dests, d.Clean := by
  have hlines : ∀ lines : List CStr, (∀ line ∈ lines, ∀ b ∈ line, b ≠ 0) →
      ∀ state : Node × ℕ, (∀ d ∈ state.1.dests, d.Clean) →
        ∀ d ∈ (lines.foldl loadCacheLine state).1.dests, d.Clean := by
    intro lines
    induction lines with
    | nil => exact fun _ _ hstate => hstate
    | cons line lines ih =>
        intro hlines state hstate
        refine ih (fun l hl => hlines l (List.mem_cons_of_mem line hl)) _ ?_
        rw [loadCacheLine_fst]
        cases hrow : state.1.cacheRow line with
        | none => exact hstate
        | some row =>
            have hclean := (cacheRow_charted (hlines line List.mem_cons_self) hrow).2.2.1
            unfold loadPathRow
            dsimp only [Option.elim_some]
            intro d hd
            split at hd
            · rcases mem_modify hd with hd | ⟨old, -, rfl⟩
              · exact hstate d hd
              · exact hclean
            · split at hd
              · rcases List.mem_append.mp hd with hd | hd
                · exact hstate d hd
                · obtain rfl := List.mem_singleton.mp hd
                  exact hclean
              · exact hstate d hd
  refine hlines _ ?_ (n, 0) h
  cases file with
  | none => exact fun line hline => absurd hline List.not_mem_nil
  | some text => exact fun line hline => ne_zero_of_mem_cacheLines hline

end FlexNet
