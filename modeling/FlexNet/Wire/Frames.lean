import FlexNet.Wire.Octets

/-!
# CE frames

`flex_parse_ce_frame`: the type of a CE frame, from its first octets and its length.
-/

namespace FlexNet

/-- The `CE_FRAME_*` types. -/
inductive FrameType
  | keepalive | statusPos | statusNeg | status10 | compact | linkTime | token | pathReq | init
  | pathRep | status1n
deriving DecidableEq

/-- The three-octet status frames. -/
def statusFrame (data : CStr) : Option FrameType :=
  match data with
  | [a, b, 0x0D] =>
    if a = 0x33 ∧ b = 0x2B then some .statusPos
    else if a = 0x33 ∧ b = 0x2D then some .statusNeg
    else if a = 0x31 ∧ b = 0x30 then some .status10
    else if a = 0x31 ∧ 0x31 ≤ b ∧ b ≤ 0x39 then some .status1n
    else none
  | _ => none

/-- A three-octet `"1n\r"`, a link time when `FLEXNETLT3BYTE` is on. -/
def shortLinkTime (data : CStr) : Bool :=
  match data with
  | [a, b, c] => a == 0x31 && isDigit b && c == 0x0D
  | _ => false

/-- `flex_parse_ce_frame`. -/
def flexParseCeFrame (lt3byte : Bool) (data : CStr) : Option FrameType :=
  match data with
  | [] => none
  | c :: rest =>
    if c = 0x32 ∧ rest.head? = some 0x20 then some .keepalive
    else if lt3byte && shortLinkTime data then some .linkTime
    else match statusFrame data with
      | some t => some t
      | none =>
        if c = 0x30 ∧ 2 ≤ data.length then some .init
        else if c = 0x31 ∧ 3 < data.length then some .linkTime
        else if c = 0x34 ∧ 3 ≤ data.length then some .token
        else if c = 0x36 then some .pathReq
        else if c = 0x37 then some .pathRep
        else if c = 0x33 then some .compact
        else none

end FlexNet
