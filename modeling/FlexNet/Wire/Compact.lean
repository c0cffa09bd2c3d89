import FlexNet.Wire.Octets

/-!
# Compact routing records

The `'3'` frame: N fixed-shape records between the type octet and a carriage return
(`flex_build_route_rec`, `flex_parse_compact_records`).
-/

namespace FlexNet

/-- `FLEXNET_RTT_INFINITY`: the withdrawal sentinel. -/
def rttInfinity : ℤ := 60000

/-- `FLEXNET_RTT_WIRE_MAX`: the largest finite cost put on the wire. -/
def rttWireMax : ℤ := 4095

/-- A destination key: base callsign and SSID range. -/
structure Key where
  call : Callsign
  lo : ℤ
  hi : ℤ
deriving DecidableEq

/-- One parsed record: the fields `flex_parse_compact_records` fills in. -/
structure Record where
  key : Key
  rtt : ℤ
  isInfinity : Bool
deriving DecidableEq

/-- The cost a record carries for a cost `rtt`: finite costs are clamped to
`FLEXNET_RTT_WIRE_MAX`, the sentinel passes. -/
def wireCost (rtt : ℤ) : ℤ :=
  if rttWireMax < rtt ∧ rtt < rttInfinity then rttWireMax else rtt

/-- `"%-6.6s"`: truncated to six characters, blank-padded on the right. -/
def callField (c : Callsign) : CStr :=
  (c.bytes.take 6).rightpad 6 0x20

/-- The octets of one compact record, without the frame's `'3'` and `'\r'`. -/
def recordOctets (k : Key) (rtt : ℤ) : CStr :=
  callField k.call ++ [ssidOctet k.lo, ssidOctet k.hi] ++ decimalInt (wireCost rtt) ++ [0x20]

/-- `flex_build_route_rec`: the record, or nothing when it does not fit in `buflen` octets. -/
def flexBuildRouteRec (buflen : ℕ) (k : Key) (rtt : ℤ) : Option CStr :=
  if buflen ≤ (recordOctets k rtt).length then none else some (recordOctets k rtt)

/-! ## The parser -/

/-- An SSID octet as the parser reads it, a signed `char` clamped to `0..15`. -/
def parseSsid (b : UInt8) : ℤ :=
  if 0x80 ≤ b then 0 else max 0 (min 15 ((b.toNat : ℤ) - 0x30))

/-- One record at the head of `p`, which is not blank, with the text after it; `none` when the
parser stops here. -/
def parseRecord (withdrawal : Bool) (p : CStr) : Option (Record × CStr) :=
  match p with
  | [] => none
  | c :: _ =>
    if c = 0x0D ∨ c = 0x0A then none
    else if p.length < 8 then none
    else
      let call := (p.take 6).filter (· != 0x20)
      let digits := ((p.drop 8).take 6).takeWhile isDigit
      let rtt : ℤ := if withdrawal then rttInfinity else digitsValue digits
      some (⟨⟨.ofCStr call, parseSsid (p.getD 6 0), parseSsid (p.getD 7 0)⟩, rtt,
        decide (rttInfinity ≤ rtt)⟩, (p.drop (8 + digits.length)).dropWhile (· == 0x20))

/-- The record loop of `flex_parse_compact_records`, at most `max` records. -/
def parseRecords (withdrawal : Bool) : ℕ → CStr → List Record
  | 0, _ => []
  | max + 1, p =>
    match parseRecord withdrawal (p.dropWhile (· == 0x20)) with
    | none => []
    | some (r, rest) => r :: parseRecords withdrawal max rest

/-- `flex_parse_compact_records`: strip the terminator, take a trailing `'-'` for a withdrawal
of every record, then read records. -/
def flexParseCompactRecords (data : CStr) (max : ℕ) : List Record :=
  match data with
  | 0x33 :: payload =>
    if data.length < 4 then []
    else
      let text := ((payload.take 2047).takeWhile (· != 0)).rdropWhile
        (fun b => b == 0x0D || b == 0x0A)
      let withdrawal := text.getLast? == some 0x2D
      let body := (if withdrawal then text.dropLast else text).rdropWhile (· == 0x20)
      parseRecords withdrawal max body
  | _ => []

end FlexNet
