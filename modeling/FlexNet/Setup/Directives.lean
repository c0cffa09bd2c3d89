import FlexNet.Path.Layer

/-!
# The directives of bpq32.cfg

`flex_load_config` reads the text line by line, at most 511 octets at a time, and offers each line
to the parsers of the directives in turn: the first that knows the keyword takes it, whether it can
use the values or not.
-/

namespace FlexNet

/-! ## Lines -/

/-- `sizeof(line)`. -/
def lineBytes : ℕ := 512

/-- The `fgets` loop: a line ends with its newline, or where the buffer is full.  `acc` is what the
buffer holds, last octet first, and `room` what it still takes. -/
def fgetsLoop : ℕ → CStr → CStr → List CStr
  | _, acc, [] => if acc.isEmpty then [] else [acc.reverse]
  | room, acc, b :: rest =>
    if b = 0x0A ∨ room ≤ 1 then (b :: acc).reverse :: fgetsLoop (lineBytes - 1) [] rest
    else fgetsLoop (room - 1) (b :: acc) rest

/-- The lines of a file, as C strings. -/
def fgetsLines (text : CStr) : List CStr :=
  (fgetsLoop (lineBytes - 1) [] text).map fun line => line.takeWhile (· != 0)

/-! ## Keywords -/

/-- A blank or a tab. -/
def isBlank (b : UInt8) : Bool := b == 0x20 || b == 0x09

/-- What may stand between a keyword and its value. -/
def isKeySep (b : UInt8) : Bool := isBlank b || b == 0x3D || b == 0x3A

/-- A comment or an empty line, once the blanks are skipped. -/
def isComment (line : CStr) : Bool :=
  line.head?.all fun b => b == 0x3B || b == 0x23 || b == 0x0D || b == 0x0A

/-- The line after a keyword, which is matched in either case. -/
def matchKey (key line : CStr) : Option CStr :=
  if (line.take key.length).map toUpper = key then some (line.drop key.length) else none

/-- The keyword and the separators after it: unrelated, without a value, or with one. -/
inductive KeyLine
  | unrelated
  | bare
  | value (text : CStr)
deriving DecidableEq

/-- A line that starts with a keyword. -/
def keyLine (key line : CStr) : KeyLine :=
  match matchKey key (line.dropWhile isBlank) with
  | none => .unrelated
  | some p => if p.head?.any isKeySep then .value (p.dropWhile isKeySep) else .bare

/-! ## `FLEXNETSSIDRANGE` -/

/-- The low 32 bits of an `int`. -/
def wrap32 (z : ℤ) : ℤ := z.bmod (2 ^ 32)

/-- The value of a run of digits in an `int`. -/
def intDigits (s : CStr) : ℤ :=
  s.foldl (fun v b => wrap32 (v * 10 + (b.toNat - 0x30))) 0

/-- `FLEXNETSSIDRANGE`. -/
def keySsidRange : CStr :=
  [0x46, 0x4C, 0x45, 0x58, 0x4E, 0x45, 0x54, 0x53, 0x53, 0x49, 0x44, 0x52, 0x41, 0x4E, 0x47, 0x45]

/-- The bounds of a range `N-M`, `N M` or `N`, when they are SSIDs in order. -/
def ssidBounds (p : CStr) : Option (ℤ × ℤ) :=
  if !p.head?.any isDigit then none
  else
    let lo := intDigits (p.takeWhile isDigit)
    let q := (p.dropWhile isDigit).dropWhile fun b => isBlank b || b == 0x2D
    let hi := if q.head?.any isDigit then intDigits (q.takeWhile isDigit) else lo
    if lo < 0 ∨ 15 < lo ∨ hi < 0 ∨ 15 < hi ∨ hi < lo then none else some (lo, hi)

/-- `flex_parse_ssidrange_line`: whether the line is the directive's, and the range after it. -/
def flexParseSsidrangeLine (line : CStr) (range : Option (ℤ × ℤ)) : Option (Option (ℤ × ℤ)) :=
  if isComment (line.dropWhile isBlank) then none
  else match keyLine keySsidRange line with
    | .unrelated => none
    | .bare => some range
    | .value p => some (ssidBounds p <|> range)

/-! ## Switches -/

/-- The value of a switch: at most seven characters, in capitals. -/
def switchWord (p : CStr) : CStr :=
  ((p.take 7).takeWhile fun b => !(isBlank b || b == 0x0D || b == 0x0A)).map toUpper

/-- `YES`, `ON`, `1` and `TRUE`. -/
def switchOn : List CStr :=
  [[0x59, 0x45, 0x53], [0x4F, 0x4E], [0x31], [0x54, 0x52, 0x55, 0x45]]

/-- `NO`, `OFF`, `0` and `FALSE`. -/
def switchOff : List CStr :=
  [[0x4E, 0x4F], [0x4F, 0x46, 0x46], [0x30], [0x46, 0x41, 0x4C, 0x53, 0x45]]

/-- `flex_parse_bool_line`: whether the line is the directive's, and the switch after it. -/
def flexParseBoolLine (key line : CStr) (out : Bool) : Option Bool :=
  if isComment (line.dropWhile isBlank) then none
  else match keyLine key line with
    | .unrelated => none
    | .bare => some out
    | .value p =>
      if switchWord p ∈ switchOn then some true
      else if switchWord p ∈ switchOff then some false
      else some out

/-- `FLEXNETLOCALAPPS`. -/
def keyLocalApps : CStr :=
  [0x46, 0x4C, 0x45, 0x58, 0x4E, 0x45, 0x54, 0x4C, 0x4F, 0x43, 0x41, 0x4C, 0x41, 0x50, 0x50, 0x53]

/-- `FLEXNETTRANSIT`. -/
def keyTransit : CStr :=
  [0x46, 0x4C, 0x45, 0x58, 0x4E, 0x45, 0x54, 0x54, 0x52, 0x41, 0x4E, 0x53, 0x49, 0x54]

/-- `FLEXNETL2TRANSIT`. -/
def keyL2Transit : CStr :=
  [0x46, 0x4C, 0x45, 0x58, 0x4E, 0x45, 0x54, 0x4C, 0x32, 0x54, 0x52, 0x41, 0x4E, 0x53, 0x49, 0x54]

/-- `FLEXNETCROSSPORT`. -/
def keyCrossport : CStr :=
  [0x46, 0x4C, 0x45, 0x58, 0x4E, 0x45, 0x54, 0x43, 0x52, 0x4F, 0x53, 0x53, 0x50, 0x4F, 0x52, 0x54]

/-- `FLEXNETPATHFORWARD`. -/
def keyPathForward : CStr :=
  [0x46, 0x4C, 0x45, 0x58, 0x4E, 0x45, 0x54, 0x50, 0x41, 0x54, 0x48, 0x46, 0x4F, 0x52, 0x57, 0x41,
    0x52, 0x44]

/-- `FLEXNETLT3BYTE`. -/
def keyLt3byte : CStr :=
  [0x46, 0x4C, 0x45, 0x58, 0x4E, 0x45, 0x54, 0x4C, 0x54, 0x33, 0x42, 0x59, 0x54, 0x45]

/-- `FLEXNETPCFQUIESCE`. -/
def keyPcfQuiesce : CStr :=
  [0x46, 0x4C, 0x45, 0x58, 0x4E, 0x45, 0x54, 0x50, 0x43, 0x46, 0x51, 0x55, 0x49, 0x45, 0x53, 0x43,
    0x45]

/-- `flex_parse_transit_line`. -/
def flexParseTransitLine : CStr → Bool → Option Bool := flexParseBoolLine keyTransit

/-- `flex_parse_l2transit_line`. -/
def flexParseL2transitLine : CStr → Bool → Option Bool := flexParseBoolLine keyL2Transit

/-- `flex_parse_lt3byte_line`. -/
def flexParseLt3byteLine : CStr → Bool → Option Bool := flexParseBoolLine keyLt3byte

/-! ## Local calls -/

/-- `FLEXNET_MAX_LOCAL_CALLS`. -/
def maxLocalCalls : ℕ := 16

/-- An entry is listed under a call. -/
def LocalCall.named (l : LocalCall) (base : CStr) (ssid : ℤ) : Bool :=
  l.base == base && decide (l.ssid = ssid)

/-- `flex_local_add`: none when the table is full. -/
def flexLocalAdd (base : CStr) (ssid : ℤ) (ls : List LocalCall) : Option (List LocalCall) :=
  if ls.any fun l => l.named base ssid then some ls
  else if maxLocalCalls ≤ ls.length then none
  else some (ls ++ [⟨base, ssid, .unchecked, 0⟩])

/-- `FLEXNETLOCAL`. -/
def keyLocal : CStr :=
  [0x46, 0x4C, 0x45, 0x58, 0x4E, 0x45, 0x54, 0x4C, 0x4F, 0x43, 0x41, 0x4C]

/-- What ends a call of a `FLEXNETLOCAL` line. -/
def endsToken (b : UInt8) : Bool :=
  isBlank b || b == 0x2C || b == 0x3B || b == 0x0D || b == 0x0A

/-- The calls of a `FLEXNETLOCAL` line, with the octets of the one that is being read, last
first. -/
def localTokens : CStr → CStr → List CStr
  | tok, [] => if tok.isEmpty then [] else [tok.reverse]
  | [], b :: rest =>
    if isKeySep b || b == 0x2C then localTokens [] rest
    else if b == 0x3B || b == 0x23 || b == 0x0D || b == 0x0A then []
    else localTokens [b] rest
  | c :: tok, b :: rest =>
    if endsToken b then
      (c :: tok).reverse ::
        if b == 0x3B || b == 0x0D || b == 0x0A then [] else localTokens [] rest
    else localTokens (b :: c :: tok) rest

/-- One call of a `FLEXNETLOCAL` line: at most 15 characters, and a callsign. -/
def addLocalToken (ls : List LocalCall) (tok : CStr) : List LocalCall :=
  if 16 ≤ tok.length then ls
  else match flexSplitCall tok with
    | none => ls
    | some (base, ssid) => (flexLocalAdd base ssid ls).getD ls

/-- `flex_parse_local_line`. -/
def flexParseLocalLine (line : CStr) (ls : List LocalCall) : Option (List LocalCall) :=
  match keyLine keyLocal line with
  | .unrelated => none
  | .bare => none
  | .value p => some ((localTokens [] p).foldl addLocalToken ls)

/-! ## External stations -/

/-- `FLEXNETEXTERNAL`. -/
def keyExternal : CStr :=
  [0x46, 0x4C, 0x45, 0x58, 0x4E, 0x45, 0x54, 0x45, 0x58, 0x54, 0x45, 0x52, 0x4E, 0x41, 0x4C]

/-- `isspace`. -/
def isSpace (b : UInt8) : Bool := b == 0x20 || (0x09 ≤ b && b ≤ 0x0D)

/-- `%d` of `sscanf`, with the text after the number: a `long` cut down to an `int`. -/
def scanInt (p : CStr) : Option (ℤ × CStr) :=
  let p := p.dropWhile isSpace
  let (sign, q) := match p with
    | 0x2D :: q => ((-1 : ℤ), q)
    | 0x2B :: q => (1, q)
    | q => (1, q)
  if !q.head?.any isDigit then none
  else
    let long := max (-(2 ^ 63)) (min (2 ^ 63 - 1) (sign * digitsValue (q.takeWhile isDigit)))
    some (wrap32 long, q.dropWhile isDigit)

/-- `sscanf(p, "%15s %d %1s", tok, &port, extra)`, when the first two are there. -/
def scanExternal (p : CStr) : Option (CStr × ℤ × Option UInt8) :=
  let tok := ((p.dropWhile isSpace).take 15).takeWhile fun b => !isSpace b
  if tok.isEmpty then none
  else (scanInt ((p.dropWhile isSpace).drop tok.length)).map fun (port, rest) =>
    (tok, port, (rest.dropWhile isSpace).head?)

/-- The station and the port of a `FLEXNETEXTERNAL` line. -/
def externalStation (p : CStr) : Option (CStr × ℤ × ℕ) :=
  match scanExternal p with
  | none => none
  | some (tok, port, extra) =>
    if port < 1 ∨ 64 < port ∨ !extra.all fun b => b == 0x3B || b == 0x23 then none
    else (flexSplitCall tok).map fun (base, ssid) => (base, ssid, port.toNat)

/-- The entry of a call is a station on a port. -/
def setExternal (base : CStr) (ssid : ℤ) (port : ℕ) (ls : List LocalCall) : List LocalCall :=
  ls.map fun l => if l.named base ssid then { l with extPort := port } else l

/-- `flex_parse_external_line`. -/
def flexParseExternalLine (line : CStr) (ls : List LocalCall) : Option (List LocalCall) :=
  match keyLine keyExternal line with
  | .unrelated => none
  | .bare => none
  | .value p =>
    match externalStation p with
    | none => some ls
    | some (base, ssid, port) =>
      some (((flexLocalAdd base ssid ls).map (setExternal base ssid port)).getD ls)

/-! ## The text -/

/-- What the directives set. -/
structure Directives where
  ssidRange : Option (ℤ × ℤ) := none
  localApps : Bool := false
  locals : List LocalCall := []
  transit : Bool := false
  l2Transit : Bool := false
  crossport : Bool := false
  pathForward : Bool := false
  lt3byte : Bool := false
  pcfQuiesce : Bool := true
deriving DecidableEq

namespace Directives

/-- One line of the text. -/
def readLine (d : Directives) (line : CStr) : Directives :=
  ((flexParseSsidrangeLine line d.ssidRange).map fun v => { d with ssidRange := v }) <|>
  ((flexParseBoolLine keyLocalApps line d.localApps).map fun v => { d with localApps := v }) <|>
  ((flexParseLocalLine line d.locals).map fun v => { d with locals := v }) <|>
  ((flexParseExternalLine line d.locals).map fun v => { d with locals := v }) <|>
  ((flexParseTransitLine line d.transit).map fun v => { d with transit := v }) <|>
  ((flexParseL2transitLine line d.l2Transit).map fun v => { d with l2Transit := v }) <|>
  ((flexParseBoolLine keyCrossport line d.crossport).map fun v => { d with crossport := v }) <|>
  ((flexParseBoolLine keyPathForward line d.pathForward).map
    fun v => { d with pathForward := v }) <|>
  ((flexParseLt3byteLine line d.lt3byte).map fun v => { d with lt3byte := v }) <|>
  ((flexParseBoolLine keyPcfQuiesce line d.pcfQuiesce).map fun v => { d with pcfQuiesce := v })
    |>.getD d

/-- `flex_load_config`; without a file the defaults stay. -/
def flexLoadConfig (text : Option CStr) : Directives :=
  (text.elim [] fgetsLines).foldl readLine {}

end Directives

end FlexNet
