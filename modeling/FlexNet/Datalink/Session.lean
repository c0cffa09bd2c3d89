import Mathlib.Logic.Function.Basic

/-!
# The data phase of a layer-2 session

What a link entry does with the I frames and supervisory frames of a session that is up (`L2STATE`
5, or 6 while it waits for a frame that is missing): the send window of `SDETX`, the check of a
received N(R) with the release of what it acknowledges, the receiver with its store of frames that
came early, and the timers that poll.  Setting a session up, the frame reject state and clearing
down are outside; a session that leaves the data phase takes no further part.

Every function returns the entry and the frames it sends, in order.  A frame that finds no buffer is
not sent, which for a supervisory frame is a frame lost at once, but for the timer:
`L2SENDCOMMAND` and `L2SENDRESPONSE` then set `L2TIMER` to 10 s if the frame has the P/F bit, and
that is left out.  The I frames need a buffer before anything is changed, so the free buffers are an
argument there.
-/

namespace FlexNet

/-! ## Control octets -/

/-- What the command and response bits of the addresses say of a frame. -/
inductive MsgFlag
  | cmd
  | resp
  | ver1
  deriving DecidableEq, Repr

/-- `PFBIT`. -/
def pfBit : Nat := 0x10

/-- The low four bits of the supervisory frames. -/
def ctlRR : Nat := 0x1
def ctlRNR : Nat := 0x5
def ctlREJ : Nat := 0x9
def ctlSREJ : Nat := 0xd

def ctlNr (ctl : Nat) : Nat := (ctl >>> 5) &&& 7
def ctlNs (ctl : Nat) : Nat := (ctl >>> 1) &&& 7
def ctlPf (ctl : Nat) : Bool := ctl &&& pfBit != 0

/-- The control octet of an I frame. -/
def iCtl (nr ns : Nat) (pf : Bool) : Nat :=
  (nr <<< 5) ||| (ns <<< 1) ||| (if pf then pfBit else 0)

/-- The control octet of a supervisory frame. -/
def sCtl (kind nr : Nat) (pf : Bool) : Nat :=
  kind ||| (nr <<< 5) ||| (if pf then pfBit else 0)

/-- A frame of the data phase; an I frame has an information field. -/
structure LinkFrame (α : Type) where
  ctl : Nat
  flag : MsgFlag
  info : Option α
  deriving DecidableEq, Repr

/-! ## The link entry -/

/-- `ONEMINUTE`, `TENSECS` and `THREESECS`, in ticks of 100 ms. -/
def oneMinute : Nat := 60 * 10
def tenSecs : Nat := 10 * 10
def threeSecs : Nat := 3 * 10

/-- The fields of `_LINKTABLE` the data phase uses; `α` is what an I frame carries from its PID
on. -/
structure DataLink (α : Type) where
  linkNr : Nat := 0
  linkNs : Nat := 0
  linkWs : Nat := 0
  linkOws : Nat := 0
  sdtSlot : Nat := 0
  linkWindow : Nat
  frames : Nat → Option α := fun _ => none
  rxFrames : Nat → Option α := fun _ => none
  txQ : List α := []
  /-- What `PROC_I_FRAME` has handed up, oldest first.  Which layer takes it, `RX_Q` or another that
  its PID names, is left out. -/
  rxQ : List α := []
  lastFrameSent : Nat := 0
  l2State : Nat := 5
  /-- `L2FLAGS`, one field for each bit. -/
  rejSent : Bool := false
  rnrSet : Bool := false
  discPending : Bool := false
  rnrSent : Bool := false
  pollSent : Bool := false
  ver1Flag : Bool := false
  ver2point2 : Bool := false
  l2Timer : Nat := 0
  l2Time : Nat
  l2SlotTim : Nat := 0
  l2AckReq : Nat := 0
  rejTimer : Nat := 0
  killTimer : Nat := 0
  lastFTime : Nat := 0
  l2Retries : Nat := 0
  iFrameRetryCounter : Nat := 0
  /-- `SDREJF`, which only an N(R) out of the window sets here, and `SDRBYTE`. -/
  sdRejF : Bool := false
  sdRByte : Nat := 0

/-- What a call reads outside the entry: the two clocks, whether the session's own reader or the
buffer pool is short (`CHECKIFBUSYL2`, `QCOUNT`), the free buffers, and `rand() % 15`. -/
structure LinkEnv where
  now : Nat
  seconds : Nat
  busy : Bool
  buffers : Nat
  jitter : Nat

/-- The settings of the port and of the node: `PORTT2`, `PORTN2`, `T3` and `L2KILLTIME`. -/
structure LinkPort where
  portT2 : Nat
  portN2 : Nat
  t3 : Nat
  l2KillTime : Nat

namespace DataLink

variable {α : Type} (port : LinkPort) (env : LinkEnv)

/-! ## The sender -/

/-- The frames a window holds unacknowledged, over the wrap. -/
def outstanding (l : DataLink α) : Nat :=
  if l.linkNs < l.linkOws then l.linkNs + 8 - l.linkOws else l.linkNs - l.linkOws

/-- `COUNT_AT_L2`. -/
def countAtL2 (l : DataLink α) : Nat :=
  l.txQ.length + ((List.range 8).filter fun n => (l.frames n).isSome).length

/-- The first loop of `SDETX`, without compression: frames go from `TX_Q` to the free slots. -/
def loadFrames : List α → DataLink α → DataLink α
  | [], l => l
  | a :: q, l =>
    if (l.frames l.sdtSlot).isSome then l
    else loadFrames q
      { l with
        txQ := q
        lastFrameSent := env.seconds
        frames := Function.update l.frames l.sdtSlot (some a)
        sdtSlot := (l.sdtSlot + 1) % 8 }

/-- The second loop of `SDETX`, with the free buffers: the frame at N(S) is sent until there is none
or a poll is out. -/
def sendFrames : Nat → DataLink α → DataLink α × List (LinkFrame α)
  | 0, l => (l, [])
  | buffers + 1, l =>
    if l.pollSent then (l, [])
    else match l.frames l.linkNs with
      | none => (l, [])
      | some a =>
        let l' := { l with
          l2AckReq := 0
          l2SlotTim := port.t3 + env.jitter
          killTimer := 0
          linkNs := (l.linkNs + 1) % 8
          l2Timer := oneMinute }
        -- the last frame of the window, or of what there is to send, asks for an answer
        let poll := !l.ver1Flag &&
          (decide (l.linkWindow ≤ l'.outstanding) || (l'.frames l'.linkNs).isNone)
        let rest := sendFrames buffers { l' with pollSent := poll }
        (rest.1, ⟨iCtl l.linkNr l.linkNs poll, .cmd, some a⟩ :: rest.2)

/-- `SDETX`.  A link that has sent nothing for a minute and has more than sixteen frames waiting is
closed. -/
def sdEtx (l : DataLink α) : DataLink α × List (LinkFrame α) :=
  if (l.linkWindow = 0 ∨ l.lastFrameSent = 0 ∨ 60 < env.seconds - l.lastFrameSent) ∧
      (16 < l.countAtL2 ∨ l.linkWindow = 0) then
    ({ l with l2Retries := (l.l2Retries + 255) % 256, l2State := 4 }, [])
  else if l.linkWindow ≤ l.outstanding then (l, [])
  else sendFrames port env env.buffers (loadFrames env l.txQ l)

/-- One turn of the release loop of `ACKMSG`. -/
def releaseOne (l : DataLink α) : DataLink α :=
  { l with
    frames := Function.update l.frames l.linkOws none
    iFrameRetryCounter := 0
    linkOws := (l.linkOws + 1) % 8
    l2Retries := if l.l2Retries = 0 then 0 else 1 }

/-- The release loop of `ACKMSG`, for a number of turns. -/
def releaseFrames : Nat → DataLink α → DataLink α
  | 0, l => l
  | n + 1, l => releaseFrames n l.releaseOne

/-- `ACKMSG`: what lies before the new window start is released, and the timer is restarted, stopped
or, after too many repeats, used to close the link. -/
def ackMsg (l₀ : DataLink α) : DataLink α :=
  let l := releaseFrames ((l₀.linkWs + 8 - l₀.linkOws) % 8) l₀
  if l.linkWs ≠ l.linkNs then
    let l' := { l with iFrameRetryCounter := l.iFrameRetryCounter + 1 }
    if port.portN2 < l.iFrameRetryCounter then { l' with l2Timer := 1, l2State := 4 }
    else { l' with l2Timer := l.l2Time }
  else
    let l' := if l.ver1Flag ∨ l.l2Retries = 0 then { l with l2Timer := 0, pollSent := false } else l
    if l'.discPending ∧ l'.txQ.isEmpty then
      { l' with discPending := false, l2Timer := 1, l2State := 4 }
    else l'

/-- The test of `SDNRCHK`: from the window start up to N(S), over the wrap. -/
def nrValid (l : DataLink α) (nr : Nat) : Bool :=
  if l.linkWs ≤ nr then decide (nr ≤ l.linkNs) || decide (l.linkNs < l.linkWs)
  else decide (nr ≤ l.linkNs)

/-- `SDNRCHK`. -/
def sdNrChk (ctl : Nat) (l : DataLink α) : DataLink α :=
  if l.nrValid (ctlNr ctl) then
    if ctl &&& 0xf = ctlSREJ ∧ ctlPf ctl = false then l
    else ackMsg port { l with linkWs := ctlNr ctl }
  else { l with sdRejF := true, sdRByte := ctl }

/-- `RESETNS`. -/
def resetNs (ns : Nat) (l : DataLink α) : DataLink α := { l with linkNs := ns }

/-- `SDFRMR`: the link is in the frame reject state. -/
def sdFrmr (l : DataLink α) : DataLink α := { l with l2State := 3, l2Timer := l.l2Time }

/-! ## The receiver -/

/-- `PROC_I_FRAME`, without its check of the length and its dispatch on the PID: every frame is
handed up. -/
def procIFrame (a : α) (l : DataLink α) : DataLink α :=
  let l := { l with linkNr := (l.linkNr + 1) % 8 }
  if l.discPending then l
  else { l with rxQ := l.rxQ ++ [a], l2AckReq := port.portT2, killTimer := 0 }

/-- Some frame that came early is kept. -/
def anySaved (l : DataLink α) : Bool := (List.range 8).any fun n => (l.rxFrames n).isSome

/-- The loop of `RR_OR_RNR` over the frames kept, from N(R) on.  Every turn empties a slot, so eight
turns are enough. -/
def processSaved : Nat → DataLink α → DataLink α
  | 0, l => l
  | n + 1, l =>
    match l.rxFrames l.linkNr with
    | none => l
    | some a =>
      let l := procIFrame port a { l with rxFrames := Function.update l.rxFrames l.linkNr none }
      let l := if l.ver2point2 && l.anySaved then l else { l with l2State := 5, rejSent := false }
      processSaved n { l with l2AckReq := 0 }

/-- `RR_OR_RNR`: the entry, and the supervisory frame to send. -/
def rrOrRnr (cmd : Bool) (l₀ : DataLink α) : DataLink α × Nat :=
  let l := { l₀ with rnrSent := false }
  if env.busy then ({ l with rnrSent := true }, ctlRNR)
  else if l.l2State = 6 then
    let l := processSaved port 8 l
    if l.l2State = 6 then
      (l, if l₀.rnrSent || cmd then ctlREJ else if l.ver2point2 then ctlSREJ else ctlREJ)
    else (l, ctlRR)
  else (l, ctlRR)

/-- `SEND_RR_RESP`. -/
def sendRrResp (pf : Bool) (l : DataLink α) : DataLink α × List (LinkFrame α) :=
  let r := rrOrRnr port env false l
  (ackMsg port { r.1 with l2SlotTim := port.t3 + env.jitter },
    [⟨sCtl r.2 r.1.linkNr pf, .resp, none⟩])

/-- `CheckNSLoop` of `SDIFRM`: frames that were kept are processed until N(R) is the N(S) received,
or the next one is missing.  Every turn empties a slot, so eight turns are enough. -/
def checkNs (ns : Nat) : Nat → DataLink α → DataLink α
  | 0, l => l
  | n + 1, l =>
    if ns = l.linkNr then l
    else match l.rxFrames l.linkNr with
      | none => l
      | some a => checkNs ns n
          (procIFrame port a { l with rxFrames := Function.update l.rxFrames l.linkNr none })

/-- `SDIFRM` for a frame that is not the next one: it is kept, and a REJ is due. -/
def outOfSeq (ns : Nat) (a : α) (l : DataLink α) : DataLink α :=
  { l with
    l2State := 6
    rejTimer := if l.ver1Flag then tenSecs else l.rejTimer
    l2AckReq := if threeSecs < port.portT2 then port.portT2 else threeSecs
    rxFrames := Function.update l.rxFrames ns (some a) }

/-- `SDIFRM` for the next frame. -/
def inSeq (ns : Nat) (a : α) (l₀ : DataLink α) : DataLink α :=
  let l := { l₀ with rxFrames := Function.update l₀.rxFrames ns none }
  let l := if l.l2State = 6 ∧ ¬ (l.ver2point2 && l.anySaved) then
      { l with l2State := 5, rejSent := false }
    else l
  procIFrame port a l

/-- `CheckPF` of `SDIFRM`: the answer to an I frame. -/
def checkPf (ctl : Nat) (l : DataLink α) : DataLink α × List (LinkFrame α) :=
  if l.ver2point2 = false ∧ l.rejSent then (l, [])
  else if ctlPf ctl then
    let l := if l.l2State = 6 then { l with rejSent := true }
      else { l with rxFrames := fun _ => none }
    let r := sendRrResp port env true { l with l2AckReq := 0 }
    ({ r.1 with lastFTime := env.now % 65536 }, r.2)
  else if l.l2AckReq = 0 then sendRrResp port env false l
  else (l, [])

/-- `SDIFRM` behind its checks of N(R). -/
def takeIFrame (ctl : Nat) (a : α) (l : DataLink α) : DataLink α × List (LinkFrame α) :=
  let ns := ctlNs ctl
  if (ns + 1) % 8 = l.linkNr ∧ ctlPf ctl then
    -- the frame before the next one, with a poll: the other end asks whether it has arrived
    let l := { l with l2State := 6, l2AckReq := 0 }
    if env.now < l.lastFTime + 25 then (l, [])
    else
      let r := sendRrResp port env true l
      ({ r.1 with lastFTime := env.now % 65536 }, r.2)
  else
    let l := checkNs port ns 8 l
    checkPf port env ctl (if ns = l.linkNr then inSeq port ns a l else outOfSeq port ns a l)

/-- `SDIFRM`. -/
def sdIFrm (ctl : Nat) (a : α) (l : DataLink α) : DataLink α × List (LinkFrame α) :=
  if l.sdRejF then (l.sdFrmr, [])
  else
    let l := sdNrChk port ctl l
    if l.sdRejF then (l.sdFrmr, []) else takeIFrame port env ctl a l

/-! ## Supervisory frames -/

/-- The answer of `SFRAME` to an SREJ: a response with F has its frame sent again. -/
def answerSrej (ctl : Nat) (flag : MsgFlag) (l : DataLink α) : DataLink α × List (LinkFrame α) :=
  if flag = .resp ∧ ctlPf ctl then
    let ns := ctlNr ctl
    let l := { l with pollSent := false }
    match l.frames ns with
    | none => (l, [])
    | some a =>
      if env.buffers = 0 then (l, [])
      else
        let poll := !l.ver1Flag
        ({ l with
            l2AckReq := 0
            l2SlotTim := port.t3 + env.jitter
            killTimer := 0
            pollSent := poll
            l2Timer := oneMinute },
          [⟨iCtl l.linkNr ns poll, .cmd, some a⟩])
  else (l, [])

/-- `SFRAME` from `treatasRR` on: a command is answered, a response with F to a poll has the frames
from its N(R) on sent again. -/
def treatAsRR (ctl : Nat) (flag : MsgFlag) (l : DataLink α) : DataLink α × List (LinkFrame α) :=
  let l := { l with rnrSet := decide (ctl &&& 0xf = ctlRNR) }
  if flag = .cmd then
    if env.now < l.lastFTime + 15 then (l, [])
    else
      let r := rrOrRnr port env false l
      ({ r.1 with
          l2SlotTim := port.t3 + env.jitter
          l2AckReq := 0
          lastFTime := env.now % 65536 },
        [⟨sCtl r.2 r.1.linkNr true, .resp, none⟩])
  else if ctlPf ctl = false ∧ l.ver1Flag = false then (l, [])
  else
    let l := if l.pollSent then { l.resetNs (ctlNr ctl) with l2Retries := 0, l2Timer := 0 } else l
    let l := { l with pollSent := false }
    (if ctl &&& 0xf = ctlRNR then { l with l2Timer := l.l2Time } else l, [])

/-- `SFRAME`. -/
def sFrame (ctl : Nat) (flag : MsgFlag) (l : DataLink α) : DataLink α × List (LinkFrame α) :=
  if l.sdRejF then (l.sdFrmr, [])
  else
    let l := sdNrChk port ctl l
    if l.sdRejF then (l.sdFrmr, [])
    else if ctl &&& 0xf = ctlSREJ ∧
        ¬ (flag = .resp ∧ ctlPf ctl ∧ ctlNr ctl = l.linkNs) then
      answerSrej port env ctl flag l
    else treatAsRR port env ctl flag l

/-- `L2_PROCESS` for the I and supervisory frames of a link that is up. -/
def l2Process (f : LinkFrame α) (l₀ : DataLink α) : DataLink α × List (LinkFrame α) :=
  let l := if f.flag ≠ .cmd ∧ (ctlPf f.ctl ∨ l₀.ver1Flag) then { l₀ with l2Timer := 0 } else l₀
  if l.l2State < 5 then (l, [])
  else match f.info with
    | some a => if f.ctl &&& 1 = 0 then sdIFrm port env f.ctl a l else (l, [])
    | none => if f.ctl &&& 3 = 1 then sFrame port env f.ctl f.flag l else (l, [])

/-! ## Timers -/

/-- `SendSupervisCmd`: a poll. -/
def sendSupervisCmd (l₀ : DataLink α) : DataLink α × List (LinkFrame α) :=
  let s := if l₀.ver1Flag then sdEtx port env { l₀ with linkNs := l₀.linkOws } else (l₀, [])
  let r := rrOrRnr port env true { s.1 with l2AckReq := 0 }
  ({ r.1 with pollSent := true, l2Timer := oneMinute, l2SlotTim := port.t3 + env.jitter },
    s.2 ++ [⟨sCtl r.2 r.1.linkNr true, .cmd, none⟩])

/-- `L2TIMEOUT` for a link that is up. -/
def l2Timeout (l₀ : DataLink α) : DataLink α × List (LinkFrame α) :=
  if l₀.l2State < 5 then (l₀, [])
  else
    let l := { l₀ with l2Retries := l₀.l2Retries + 1 }
    if port.portN2 ≤ l.l2Retries then
      ({ l with l2Retries := l.l2Retries - 1, l2State := 4 }, [])
    else sendSupervisCmd port env l

/-- The end of a turn of `L2TimerProc`: the REJ timer, the validation poll, the idle timer. -/
def idleTimers (l₀ : DataLink α) : DataLink α × List (LinkFrame α) :=
  let l := { l₀ with
    rejTimer := l₀.rejTimer - 1
    l2State := if l₀.rejTimer = 1 ∧ l₀.l2State = 6 then 5 else l₀.l2State
    l2SlotTim := l₀.l2SlotTim - 1 }
  if l₀.l2SlotTim = 1 then sendSupervisCmd port env l
  else
    let l := { l with killTimer := (l.killTimer + 1) % 65536 }
    if port.l2KillTime ≠ 0 ∧ port.l2KillTime < l.killTimer then
      ({ l with killTimer := 0, l2Timer := 1, l2State := 4 }, [])
    else (l, [])

/-- A turn of `L2TimerProc` for a link that is up. -/
def l2TimerProc (l₀ : DataLink α) : DataLink α × List (LinkFrame α) :=
  let l := { l₀ with l2Timer := l₀.l2Timer - 1 }
  if l₀.l2Timer = 1 then l2Timeout port env l
  else if l.rnrSent then
    let r := rrOrRnr port env false l
    if r.2 = ctlRNR then idleTimers port env r.1
    else if r.1.l2Retries = 0 then sendSupervisCmd port env { r.1 with l2AckReq := 0 }
    else idleTimers port env { r.1 with l2AckReq := 0 }
  else if l.l2AckReq ≠ 0 ∧ l.l2Retries = 0 then
    if l.l2AckReq = 1 then sendRrResp port env false { l with l2AckReq := 0 }
    else idleTimers port env { l with l2AckReq := l.l2AckReq - 1 }
  else idleTimers port env l

end DataLink

end FlexNet
