import Mathlib.Data.Nat.Digits.Defs
import Mathlib.Data.List.DropRight

/-!
# Octet strings and callsigns

C strings are lists of octets without their terminating NUL.  A routing callsign is what fits
the `char callsign[FLEXNET_MAX_CALLSIGN]` fields: at most nine octets.  An AX.25 address is the
six shifted characters and the SSID octet of a link-table row.
-/

namespace FlexNet

/-- A C string, without its NUL. -/
abbrev CStr := List UInt8

/-- `tolower` on ASCII. -/
def toLower (b : UInt8) : UInt8 :=
  if 0x41 ≤ b ∧ b ≤ 0x5A then b + 0x20 else b

/-- `strcasecmp(a, b) == 0`. -/
def strcasecmp (a b : CStr) : Bool :=
  a.map toLower == b.map toLower

/-- `isdigit`. -/
def isDigit (b : UInt8) : Bool :=
  0x30 ≤ b && b ≤ 0x39

/-- `isalnum` on ASCII. -/
def isAlnum (b : UInt8) : Bool :=
  isDigit b || (0x41 ≤ b && b ≤ 0x5A) || (0x61 ≤ b && b ≤ 0x7A)

/-- The value of a run of decimal digits. -/
def digitsValue (s : CStr) : ℕ :=
  s.foldl (fun v b => 10 * v + (b.toNat - 0x30)) 0

/-- `atoi`: optional sign, then the longest run of digits. -/
def atoi (s : CStr) : ℤ :=
  match s.dropWhile (· == 0x20) with
  | 0x2D :: t => -(digitsValue (t.takeWhile isDigit))
  | 0x2B :: t => digitsValue (t.takeWhile isDigit)
  | t => digitsValue (t.takeWhile isDigit)

/-- `"%d"` of a natural number. -/
def decimal (n : ℕ) : CStr :=
  if n = 0 then [0x30] else (Nat.digits 10 n).reverse.map fun d => UInt8.ofNat (0x30 + d)

/-- `"%d"`. -/
def decimalInt (z : ℤ) : CStr :=
  if z < 0 then 0x2D :: decimal z.natAbs else decimal z.natAbs

/-- The octet `(char)(FLEXNET_SSID_BASE + ssid)`. -/
def ssidOctet (ssid : ℤ) : UInt8 :=
  UInt8.ofNat ((0x30 + ssid) % 256).toNat

/-- `FLEXNET_MAX_CALLSIGN`, the size of a callsign field with its NUL. -/
def maxCallsign : ℕ := 10

/-- A routing callsign: a string that fits a callsign field.  On such strings the
`strncmp(.., FLEXNET_MAX_CALLSIGN)` of the source is equality. -/
structure Callsign where
  bytes : CStr
  le : bytes.length ≤ 9
deriving DecidableEq

namespace Callsign

/-- `strncpy(field, s, FLEXNET_MAX_CALLSIGN - 1)` into a cleared field. -/
def ofCStr (s : CStr) : Callsign :=
  ⟨s.take (maxCallsign - 1), by simp [maxCallsign]⟩

/-- A cleared callsign field. -/
def empty : Callsign := ⟨[], by decide⟩

/-- `call[0] == '\0'`. -/
def isEmpty (c : Callsign) : Bool := c.bytes.isEmpty

theorem ext {c d : Callsign} (h : c.bytes = d.bytes) : c = d := by
  cases c; cases d; cases h; rfl

@[simp] theorem ofCStr_bytes (c : Callsign) : ofCStr c.bytes = c :=
  ext (List.take_of_length_le c.le)

end Callsign

/-! ## AX.25 addresses -/

/-- A seven-octet AX.25 address field: six characters shifted left by one, and the SSID octet
with its C/H and end-of-address bits. -/
structure AxCall where
  call : List UInt8
  ssid : UInt8
  len : call.length = 6
deriving DecidableEq

namespace AxCall

/-- The contents of a zeroed link-table row. -/
def zero : AxCall := ⟨[0, 0, 0, 0, 0, 0], 0, rfl⟩

/-- `LINKCALL[0] == 0`. -/
def isEmpty (a : AxCall) : Bool := a.call.head? == some 0

/-- `flex_l2_same_call`: equal up to the H and end-of-address bits. -/
def same (a b : AxCall) : Bool :=
  a.call == b.call && a.ssid &&& 0x1E == b.ssid &&& 0x1E

end AxCall

/-- `ConvFromAX25`: the characters up to a padding blank, then `-n` for a non-zero SSID. -/
def convFromAX25 (a : AxCall) : CStr :=
  let ssid := ((a.ssid >>> 1) &&& 0x0F).toNat
  (a.call.takeWhile (· != 0x40)).map (fun b : UInt8 => b >>> 1) ++
    if ssid = 0 then [] else 0x2D :: decimal ssid

/-- A decoded callsign as the callers of `ConvFromAX25` use it: up to the first NUL, trailing
blanks trimmed (`flex_normalize_callsign`). -/
def flexNormalizeCallsign (a : AxCall) : CStr :=
  ((convFromAX25 a).takeWhile (· != 0)).rdropWhile (· == 0x20)

/-- `strchr(s, '-')`: the base before the first dash and, when there is one, the text after
it. -/
def splitFirstDash (s : CStr) : CStr × Option CStr :=
  match s.dropWhile (· != 0x2D) with
  | [] => (s, none)
  | _ :: t => (s.takeWhile (· != 0x2D), some t)

/-- `strrchr(s, '-')`: the base before the last dash and, when there is one, the text after
it. -/
def splitLastDash (s : CStr) : CStr × Option CStr :=
  if 0x2D ∈ s then
    (((s.reverse.dropWhile (· != 0x2D)).drop 1).reverse,
      some (s.reverse.takeWhile (· != 0x2D)).reverse)
  else (s, none)

/-- The SSID a split callsign names: `atoi` of the suffix, 0 for a bare call. -/
def ssidOf (suffix : Option CStr) : ℤ :=
  (suffix.map atoi).getD 0

end FlexNet
