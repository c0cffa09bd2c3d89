import FlexNet.Lib.Collect
import FlexNet.Lib.Sections
import FlexNet.Setup.Directives

/-!
# The PORT blocks of bpq32.cfg

`flex_parse_port_block_line` sees every line of the file once, and knows only what its statics hold.
A `PortBlock` is the same text read a block at a time: its number, whether FlexNet is on there, and
the neighbours it declares.  `portBlocks_read` says that the two agree, whatever the file holds.
-/

namespace FlexNet

open Sections Collect

/-! ## Link options -/

/-- One option character after the `F` of an entry. -/
def linkOption (opts : LinkOpts) : UInt8 → Option LinkOpts
  | 0x2D => some { opts with noNbr := true }
  | 0x21 => some { opts with noBehind := true }
  | 0x3E => some { opts with noNbr := true, noBehind := true }
  | 0x3D => some { opts with noBehind := true, ownOnly := true }
  | 0x2B => some { opts with penalty := true }
  | 0x29 => some { opts with hidden := true }
  | _ => none

/-- `FlexNet_ParseLinkOpts`: none for an unknown character. -/
def flexNetParseLinkOpts (suffix : CStr) : Option LinkOpts :=
  suffix.foldlM linkOption {}

/-! ## Keywords and words -/

/-- `flex_port_key`: the value of a `KEY=value` line. -/
def flexPortKey (line key : CStr) : Option CStr :=
  match matchKey key (line.dropWhile isBlank) with
  | none => none
  | some p =>
    match p.dropWhile isBlank with
    | 0x3D :: v => some (v.dropWhile isBlank)
    | _ => none

/-- `PORT`, `ENDPORT` and `CONFIG`. -/
def wordPort : CStr := [0x50, 0x4F, 0x52, 0x54]
def wordEndport : CStr := [0x45, 0x4E, 0x44, 0x50, 0x4F, 0x52, 0x54]
def wordConfig : CStr := [0x43, 0x4F, 0x4E, 0x46, 0x49, 0x47]

/-- `PORTNUM`, `FLEXNET` and `FLEXNETLINK`. -/
def keyPortnum : CStr := [0x50, 0x4F, 0x52, 0x54, 0x4E, 0x55, 0x4D]
def keyFlexnet : CStr := [0x46, 0x4C, 0x45, 0x58, 0x4E, 0x45, 0x54]
def keyFlexnetlink : CStr :=
  [0x46, 0x4C, 0x45, 0x58, 0x4E, 0x45, 0x54, 0x4C, 0x49, 0x4E, 0x4B]

/-- `%15[A-Za-z]` of `sscanf`, in capitals. -/
def scanWord (p : CStr) : CStr :=
  ((p.take 15).takeWhile fun b => isAlnum b && !isDigit b).map toUpper

/-- `%<width>s` of `sscanf`, with the text after the token. -/
def scanToken (width : ℕ) (p : CStr) : CStr × CStr :=
  let q := p.dropWhile isSpace
  let tok := (q.take width).takeWhile fun b => !isSpace b
  (tok, q.drop tok.length)

/-! ## The scanner -/

/-- `FLEXNET_MAX_PORT_LINKS` and `FLEXNET_MAX_FLEX_PORTS`. -/
def maxPortLinks : ℕ := 16
def maxFlexPorts : ℕ := 16

/-- A `struct FLEXNET_PORT_LINK` as the scanner leaves it. -/
structure DeclaredLink where
  port : ℕ
  axcall : AxCall
  call : CStr
  opts : LinkOpts

/-- The same declaration under another number. -/
def DeclaredLink.on (port : ℕ) (l : DeclaredLink) : DeclaredLink :=
  { l with port := port }

/-- The statics of `flex_parse_port_block_line`, with the tables it fills. -/
structure PortScan where
  inPort : Bool := false
  inDriverCfg : Bool := false
  ordinal : ℕ := 0
  portnum : ℕ := 0
  wantFlexnet : Bool := false
  firstLink : ℕ := 0
  links : List DeclaredLink := []
  flexPorts : List ℕ := []

/-- The callsign of a `FLEXNETLINK=` line, and its options: default policy for unknown ones. -/
def scanPortLink (val : CStr) : Option (CStr × LinkOpts) :=
  let (call, rest) := scanToken 19 val
  let optok := (scanToken 11 rest).1
  if call.isEmpty || call.head? == some 0x3B then none
  else
    let suffix := if optok.head? = some 0x46 ∨ optok.head? = some 0x66 then optok.tail else optok
    some (call.map toUpper,
      if optok.isEmpty || optok.head? == some 0x3B || optok.head? == some 0x23 then {}
      else (flexNetParseLinkOpts suffix).getD {})

/-- `flex_parse_port_link`; `conv` is `ConvToAX25`. -/
def flexParsePortLink (conv : CStr → Option AxCall) (port : ℕ) (val : CStr)
    (links : List DeclaredLink) : List DeclaredLink :=
  match scanPortLink val with
  | none => links
  | some (call, opts) =>
    if maxPortLinks ≤ links.length then links
    else match conv call with
      | none => links
      | some axcall => links ++ [⟨port, axcall, call, opts⟩]

/-- The number of a `PORTNUM=` line. -/
def scanPortnum (val : CStr) : ℤ :=
  ((scanInt val).map Prod.fst).getD 0

/-- The switch of a `FLEXNET=` line. -/
def scanFlexnet (val : CStr) : Option Bool :=
  let b := (scanToken 7 val).1.map toUpper
  if switchOn.contains b then some true
  else if switchOff.contains b then some false
  else none

namespace PortScan

/-- `ENDPORT`: the links of the block take its number, which may have come after them. -/
def endport (s : PortScan) : PortScan :=
  { s with
    links := s.links.mapIdx fun i l => if s.firstLink ≤ i then l.on s.portnum else l
    flexPorts :=
      if s.wantFlexnet && !decide (s.portnum ∈ s.flexPorts) &&
        decide (s.flexPorts.length < maxFlexPorts) then s.flexPorts ++ [s.portnum]
      else s.flexPorts
    inPort := false }

/-- `flex_parse_port_block_line`. -/
def readLine (conv : CStr → Option AxCall) (s : PortScan) (line : CStr) : PortScan :=
  let p := line.dropWhile isBlank
  let word := scanWord p
  if !s.inPort then
    if word == wordPort && (p.drop 4).head?.all isSpace then
      { s with
        inPort := true
        inDriverCfg := false
        wantFlexnet := false
        ordinal := s.ordinal + 1
        portnum := s.ordinal + 1
        firstLink := s.links.length }
    else s
  else if word == wordEndport then s.endport
  else if s.inDriverCfg then s
  else if word == wordConfig then { s with inDriverCfg := true }
  else match flexPortKey p keyPortnum with
    | some v => if 0 < scanPortnum v then { s with portnum := (scanPortnum v).toNat } else s
    | none => match flexPortKey p keyFlexnet with
      | some v => { s with wantFlexnet := (scanFlexnet v).getD s.wantFlexnet }
      | none => match flexPortKey p keyFlexnetlink with
        | some v => { s with links := flexParsePortLink conv s.portnum v s.links }
        | none => s

/-- The lines of the file, as `flex_load_config` hands them on. -/
def read (conv : CStr → Option AxCall) (text : Option CStr) : PortScan :=
  (text.elim [] fgetsLines).foldl (readLine conv) {}

end PortScan

/-! ## The blocks -/

/-- What a line of a PORT block says. -/
inductive PortLine
  | driver
  | number (n : ℕ)
  | flexnet (on : Bool)
  | link (axcall : AxCall) (call : CStr) (opts : LinkOpts)
  | other

namespace PortLine

/-- A line that starts the section of the driver. -/
def isDriver : PortLine → Bool
  | driver => true
  | _ => false

def number? : PortLine → Option ℕ
  | number n => some n
  | _ => none

def flexnet? : PortLine → Option Bool
  | flexnet on => some on
  | _ => none

end PortLine

/-- The neighbour a `FLEXNETLINK=` line declares. -/
def linkLine (conv : CStr → Option AxCall) (val : CStr) : PortLine :=
  match scanPortLink val with
  | none => .other
  | some (call, opts) => ((conv call).map fun axcall => .link axcall call opts).getD .other

/-- The meaning of a line, once the block is known to go on. -/
def portLine (conv : CStr → Option AxCall) (line : CStr) : PortLine :=
  let p := line.dropWhile isBlank
  if scanWord p == wordConfig then .driver
  else match flexPortKey p keyPortnum with
    | some v => if 0 < scanPortnum v then .number (scanPortnum v).toNat else .other
    | none => match flexPortKey p keyFlexnet with
      | some v => ((scanFlexnet v).map .flexnet).getD .other
      | none => match flexPortKey p keyFlexnetlink with
        | some v => linkLine conv v
        | none => .other

/-- The lines that start a block and that end one. -/
def opensPort (line : CStr) : Bool :=
  let p := line.dropWhile isBlank
  scanWord p == wordPort && (p.drop 4).head?.all isSpace

def closesPort (line : CStr) : Bool :=
  scanWord (line.dropWhile isBlank) == wordEndport

/-- A PORT block: its place in the file, its lines before the section of the driver, and whether
`ENDPORT` came. -/
structure PortBlock where
  ordinal : ℕ
  lines : List PortLine
  closed : Bool

namespace PortBlock

/-- The last number given, else the place in the file. -/
def number (b : PortBlock) : ℕ :=
  (b.lines.filterMap PortLine.number?).getLast?.getD b.ordinal

/-- The last switch given. -/
def wantFlexnet (b : PortBlock) : Bool :=
  (b.lines.filterMap PortLine.flexnet?).getLast?.getD false

/-- FlexNet is on once the block has ended. -/
def flexnet (b : PortBlock) : Bool :=
  b.closed && b.wantFlexnet

/-- The neighbours that lines declare, under the number given so far. -/
def linksFrom (number : ℕ) : List PortLine → List DeclaredLink
  | [] => []
  | .number n :: ls => linksFrom n ls
  | .link axcall call opts :: ls => ⟨number, axcall, call, opts⟩ :: linksFrom number ls
  | _ :: ls => linksFrom number ls

/-- The neighbours of a block: all under its number, once it has ended. -/
def links (b : PortBlock) : List DeclaredLink :=
  let ls := linksFrom b.ordinal b.lines
  if b.closed then ls.map (DeclaredLink.on b.number) else ls

end PortBlock

/-- A section of the text as a block. -/
def portBlock (conv : CStr → Option AxCall) (x : Sect CStr) (ordinal : ℕ) : PortBlock :=
  ⟨ordinal, (x.body.map (portLine conv)).takeWhile (!·.isDriver), x.closed⟩

/-- The blocks of the text. -/
def portBlocks (conv : CStr → Option AxCall) (text : Option CStr) : List PortBlock :=
  ((sections opensPort closesPort (text.elim [] fgetsLines)).zipIdx 1).map fun (x, i) =>
    portBlock conv x i

/-! ## The scanner inside a block -/

namespace PortScan

variable {conv : CStr → Option AxCall} {s : PortScan} {line : CStr}

/-- A block begins. -/
def enter (s : PortScan) : PortScan :=
  { s with
    inPort := true
    inDriverCfg := false
    wantFlexnet := false
    ordinal := s.ordinal + 1
    portnum := s.ordinal + 1
    firstLink := s.links.length }

/-- A neighbour is entered while there is room. -/
def declare (s : PortScan) (axcall : AxCall) (call : CStr) (opts : LinkOpts) : PortScan :=
  let l : DeclaredLink := ⟨s.portnum, axcall, call, opts⟩
  { s with links := (s.links ++ [l]).take maxPortLinks }

/-- What a line does to a block that goes on. -/
def take (s : PortScan) : PortLine → PortScan
  | .driver => { s with inDriverCfg := true }
  | .number n => { s with portnum := n }
  | .flexnet on => { s with wantFlexnet := on }
  | .link axcall call opts => s.declare axcall call opts
  | .other => s

theorem readLine_skip (hs : s.inPort = false) (hline : opensPort line = false) :
    s.readLine conv line = s := by
  unfold readLine
  dsimp only
  rw [if_pos (by rw [hs]; rfl)]
  exact if_neg (by simpa [opensPort] using hline)

theorem readLine_enter (hs : s.inPort = false) (hline : opensPort line = true) :
    s.readLine conv line = s.enter := by
  unfold readLine
  dsimp only
  rw [if_pos (by rw [hs]; rfl)]
  exact if_pos (by simpa [opensPort] using hline)

theorem readLine_endport (hs : s.inPort = true) (hline : closesPort line = true) :
    s.readLine conv line = s.endport := by
  unfold closesPort at hline
  unfold readLine
  simp [hs, hline]

theorem readLine_driver (hs : s.inPort = true) (hline : closesPort line = false)
    (hdriver : s.inDriverCfg = true) : s.readLine conv line = s := by
  unfold closesPort at hline
  unfold readLine
  simp [hs, hline, hdriver]

theorem flexParsePortLink_eq {port : ℕ} {val : CStr} (hfits : s.links.length ≤ maxPortLinks)
    (hport : s.portnum = port) :
    { s with links := flexParsePortLink conv port val s.links } = s.take (linkLine conv val) := by
  subst hport
  unfold flexParsePortLink linkLine
  cases scanPortLink val with
  | none => rfl
  | some scanned =>
      obtain ⟨call, opts⟩ := scanned
      cases hcall : conv call with
      | none => simp [hcall, take]
      | some axcall =>
          simp only [hcall, Option.map_some, Option.getD_some, take, declare]
          split_ifs with hfull
          · rw [List.take_append_of_le_length hfull, List.take_of_length_le hfits]
          · rw [List.take_of_length_le (by rw [List.length_append, List.length_singleton]; omega)]

/-- One line before the section of the driver. -/
theorem readLine_take (hs : s.inPort = true) (hline : closesPort line = false)
    (hdriver : s.inDriverCfg = false) (hfits : s.links.length ≤ maxPortLinks) :
    s.readLine conv line = s.take (portLine conv line) := by
  unfold closesPort at hline
  unfold readLine portLine
  dsimp only
  rw [if_neg (by simp [hs]), if_neg (by simp [hline]), if_neg (by simp [hdriver])]
  cases scanWord (line.dropWhile isBlank) == wordConfig with
  | true =>
      rw [if_pos rfl, if_pos rfl]
      rfl
  | false =>
      simp only [Bool.false_eq_true, if_false]
      cases flexPortKey (line.dropWhile isBlank) keyPortnum with
      | some v =>
          dsimp only
          split_ifs <;> rfl
      | none =>
          cases flexPortKey (line.dropWhile isBlank) keyFlexnet with
          | some v =>
              dsimp only
              cases scanFlexnet v <;> rfl
          | none =>
              cases flexPortKey (line.dropWhile isBlank) keyFlexnetlink with
              | some v => exact flexParsePortLink_eq hfits rfl
              | none => rfl

/-- A block stays open until `ENDPORT`. -/
theorem inPort_take (hs : s.inPort = true) (l : PortLine) : (s.take l).inPort = true := by
  cases l <;> exact hs

theorem readLine_inPort (hs : s.inPort = true) (hline : closesPort line = false) :
    (s.readLine conv line).inPort = true := by
  unfold closesPort at hline
  unfold readLine
  dsimp only
  rw [if_neg (by simp [hs]), if_neg (by simp [hline])]
  repeat' split
  all_goals exact hs

/-- The scanner is a reader of blocks. -/
def reader (conv : CStr → Option AxCall) : Reader opensPort closesPort (readLine conv) where
  outside s := s.inPort = false
  inside s := s.inPort = true
  enter := enter
  leave := endport
  skips := readLine_skip
  enters hs hline := ⟨readLine_enter hs hline, rfl⟩
  stays := readLine_inPort
  leaves hs hline := ⟨readLine_endport hs hline, rfl⟩

/-- The section of the driver is its own. -/
theorem foldl_driver {body : List CStr} (hs : s.inPort = true) (hdriver : s.inDriverCfg = true)
    (hbody : ∀ z ∈ body, closesPort z = false) : body.foldl (readLine conv) s = s := by
  induction body with
  | nil => rfl
  | cons z body ih =>
      obtain ⟨hz, hbody⟩ := List.forall_mem_cons.mp hbody
      rw [List.foldl_cons, readLine_driver hs hz hdriver]
      exact ih hbody

/-- The body of a block: what its lines say, and whether the driver has a section. -/
theorem foldl_body {body : List CStr} {ls : List DeclaredLink} (hs : s.inPort = true)
    (hdriver : s.inDriverCfg = false) (hbody : ∀ z ∈ body, closesPort z = false)
    (hlinks : s.links = ls.take maxPortLinks) :
    let lines := (body.map (portLine conv)).takeWhile (!·.isDriver)
    ∃ inCfg, body.foldl (readLine conv) s =
      { s with
        inDriverCfg := inCfg
        portnum := (lines.filterMap PortLine.number?).getLast?.getD s.portnum
        wantFlexnet := (lines.filterMap PortLine.flexnet?).getLast?.getD s.wantFlexnet
        links := (ls ++ PortBlock.linksFrom s.portnum lines).take maxPortLinks } := by
  induction body generalizing s ls with
  | nil => exact ⟨s.inDriverCfg, by simp [PortBlock.linksFrom, ← hlinks]⟩
  | cons z body ih =>
      obtain ⟨hz, hbody⟩ := List.forall_mem_cons.mp hbody
      have hfits : s.links.length ≤ maxPortLinks := hlinks ▸ List.length_take_le _ _
      rw [List.foldl_cons, readLine_take hs hz hdriver hfits, List.map_cons]
      cases hline : portLine conv z with
      | driver =>
          refine ⟨true, ?_⟩
          rw [foldl_driver (inPort_take hs _) rfl hbody]
          simp [take, PortLine.isDriver, PortBlock.linksFrom, ← hlinks]
      | number n =>
          obtain ⟨inCfg, heq⟩ := ih (s := s.take (.number n)) hs hdriver hbody hlinks
          exact ⟨inCfg, by simpa [take, PortLine.isDriver, PortLine.number?, PortLine.flexnet?,
            PortBlock.linksFrom, List.getLast?_cons] using heq⟩
      | flexnet on =>
          obtain ⟨inCfg, heq⟩ := ih (s := s.take (.flexnet on)) hs hdriver hbody hlinks
          exact ⟨inCfg, by simpa [take, PortLine.isDriver, PortLine.number?, PortLine.flexnet?,
            PortBlock.linksFrom, List.getLast?_cons] using heq⟩
      | link axcall call opts =>
          have hdeclare : (s.take (.link axcall call opts)).links =
              (ls ++ [DeclaredLink.mk s.portnum axcall call opts]).take maxPortLinks := by
            rw [take, declare, hlinks]
            exact Collect.take_fill ls _
          obtain ⟨inCfg, heq⟩ := ih (s := s.take (.link axcall call opts)) hs hdriver hbody hdeclare
          exact ⟨inCfg, by simpa [take, declare, PortLine.isDriver, PortLine.number?,
            PortLine.flexnet?, PortBlock.linksFrom] using heq⟩
      | other =>
          obtain ⟨inCfg, heq⟩ := ih (s := s) hs hdriver hbody hlinks
          exact ⟨inCfg, by simpa [take, PortLine.isDriver, PortLine.number?, PortLine.flexnet?,
            PortBlock.linksFrom] using heq⟩

/-! ## The scanner over the file -/

/-- The tables hold what some blocks say. -/
structure Holds (s : PortScan) (blocks : List PortBlock) : Prop where
  ordinal : s.ordinal = blocks.length
  links : s.links = (blocks.flatMap PortBlock.links).take maxPortLinks
  flexPorts : s.flexPorts =
    ((blocks.filter PortBlock.flexnet).map PortBlock.number).eraseDups.take maxFlexPorts

/-- `ENDPORT` gives the links of the block its number, and no others. -/
theorem renumber (ls new : List DeclaredLink) (n : ℕ) :
    (((ls ++ new).take maxPortLinks).mapIdx fun i l =>
      if (ls.take maxPortLinks).length ≤ i then l.on n else l) =
      (ls ++ new.map (DeclaredLink.on n)).take maxPortLinks := by
  refine List.ext_getElem (by simp) fun i hi _ => ?_
  have hcap : i < maxPortLinks := by
    rw [List.length_mapIdx, List.length_take] at hi
    omega
  simp only [List.getElem_mapIdx, List.getElem_take, List.getElem_append, List.length_take,
    List.getElem_map]
  by_cases hnew : i < ls.length
  · rw [dif_pos hnew, dif_pos hnew, if_neg (by omega)]
  · rw [dif_neg hnew, dif_neg hnew, if_pos (by omega)]

theorem endport_flexPorts : s.endport.flexPorts =
    if s.wantFlexnet then collect maxFlexPorts s.flexPorts s.portnum else s.flexPorts := by
  unfold endport collect
  cases s.wantFlexnet <;> simp

/-- A section adds what its block says. -/
theorem Holds.sect {blocks : List PortBlock} {x : Sect CStr} (h : s.Holds blocks)
    (hbody : ∀ z ∈ x.body, closesPort z = false) :
    ((reader conv).sect s x).Holds (blocks ++ [portBlock conv x (blocks.length + 1)]) := by
  have hstart : s.enter.portnum = blocks.length + 1 := by rw [← h.ordinal]; rfl
  generalize hb : portBlock conv x (blocks.length + 1) = b
  have hclosed : x.closed = b.closed := by rw [← hb]; rfl
  obtain ⟨inCfg, hinner⟩ : ∃ inCfg, x.body.foldl (readLine conv) s.enter =
      { s.enter with
        inDriverCfg := inCfg
        portnum := b.number
        wantFlexnet := b.wantFlexnet
        links := (blocks.flatMap PortBlock.links ++ PortBlock.linksFrom b.ordinal b.lines).take
          maxPortLinks } := by
    have hfold := @foldl_body conv s.enter x.body _ rfl rfl hbody h.links
    rw [hstart] at hfold
    rw [← hb]
    exact hfold
  unfold Reader.sect
  change (if x.closed then (x.body.foldl (readLine conv) s.enter).endport
    else x.body.foldl (readLine conv) s.enter).Holds _
  rw [hinner, hclosed]
  cases hend : b.closed with
  | false =>
      refine ⟨?_, ?_, ?_⟩
      · simp [enter, h.ordinal]
      · simp [PortBlock.links, hend]
      · simp [PortBlock.flexnet, hend, enter, h.flexPorts]
  | true =>
      have hfirst :
          s.enter.firstLink = ((blocks.flatMap PortBlock.links).take maxPortLinks).length := by
        rw [← h.links]
        rfl
      refine ⟨?_, ?_, ?_⟩
      · simp [endport, enter, h.ordinal]
      · simp only [if_true, endport, hfirst, renumber]
        simp [PortBlock.links, hend]
      · rw [if_pos rfl, endport_flexPorts]
        simp only [enter, h.flexPorts, Collect.collect_take]
        cases hwant : b.wantFlexnet with
        | false => simp [PortBlock.flexnet, hwant]
        | true => simp [PortBlock.flexnet, hwant, hend, List.filter_append]

/-- Sections add their blocks, in the order of the file. -/
theorem Holds.foldl {blocks : List PortBlock} {xs : List (Sect CStr)} (h : s.Holds blocks)
    (hxs : ∀ x ∈ xs, ∀ z ∈ x.body, closesPort z = false) :
    (xs.foldl (reader conv).sect s).Holds
      (blocks ++ (xs.zipIdx (blocks.length + 1)).map fun x => portBlock conv x.1 x.2) := by
  induction xs generalizing s blocks with
  | nil => simpa using h
  | cons x xs ih =>
      obtain ⟨hx, hxs⟩ := List.forall_mem_cons.mp hxs
      have hsect : ((reader conv).sect s x).Holds _ := h.sect hx
      have hrest := ih hsect hxs
      simpa using hrest

theorem read_holds (conv : CStr → Option AxCall) (text : Option CStr) :
    (read conv text).Holds (portBlocks conv text) := by
  have hstart : ({} : PortScan).Holds [] := ⟨rfl, rfl, rfl⟩
  unfold read portBlocks
  rw [(reader conv).foldl_sections (s := {}) rfl]
  simpa using hstart.foldl fun x hx => not_closes_of_mem hx

end PortScan

/-- The text is read as its blocks say, whatever it holds: the neighbours in the order of their
lines, under the numbers of their blocks, as far as the table goes, and the ports of the blocks that
end with FlexNet on. -/
theorem portBlocks_read (conv : CStr → Option AxCall) (text : Option CStr) :
    (PortScan.read conv text).links =
      ((portBlocks conv text).flatMap PortBlock.links).take maxPortLinks ∧
    (PortScan.read conv text).flexPorts =
      (((portBlocks conv text).filter PortBlock.flexnet).map PortBlock.number).eraseDups.take
        maxFlexPorts :=
  ⟨(PortScan.read_holds conv text).links, (PortScan.read_holds conv text).flexPorts⟩

end FlexNet
