import FlexNet.Node.Decision

/-!
# The token bucket

`flex_advertise_drain`: refill a peer's bucket, spend one token a frame on its queued records,
and close a `'3+'` answer once the queue has stayed empty.  A frame is packed by
`packRecords`, which commits each record as it takes it; `drainFrames` is the loop over frames.
-/

namespace FlexNet

/-- `FLEXNET_PID_CE`. -/
def pidCE : UInt8 := 0xCE

/-- The `'3-'` end-of-batch token, as sent. -/
def releaseToken : CStr := [0x33, 0x2D, 0x0D]

/-- `FLEXNET_ADVERT_FRAME_BYTES`. -/
def advertFrameBytes : ℕ := 200

/-- `flex_peer_is_pcf`: unknown families count as PC/Flexnet. -/
def Session.flexPeerIsPcf (s : Session) : Bool :=
  s.peerKaTerm != 0x20

/-- `FLEXNET_BUCKET_REFILL_PCF_S` and `FLEXNET_BUCKET_REFILL_XNET_S`. -/
def bucketRefill (isPcf : Bool) : ℤ := if isPcf then 5 else 2

/-- `FLEXNET_BUCKET_SIZE_PCF` and `FLEXNET_BUCKET_SIZE_XNET`. -/
def bucketSize (isPcf : Bool) : ℚ := if isPcf then 2 else 4

/-- `FLEXNET_ADVERT_RECS_PCF` and `FLEXNET_ADVERT_RECS_XNET`. -/
def advertRecs (isPcf : Bool) : ℕ := if isPcf then 16 else 20

/-- `FLEXNET_EOB_QUIET_REFILLS`. -/
def eobQuietRefills : ℤ := 2

/-! ## Sending -/

/-- `flex_send_frame`: the frame is queued when a buffer is found, lost otherwise. -/
def Env.flexSendFrame (e : Env) (p : Slot) (pid : UInt8) (data : CStr) (x : Peer) : Peer :=
  { x with
    getBuffCalls := x.getBuffCalls + 1
    wire := if e.cfg.getBuff p x.getBuffCalls then x.wire ++ [.frame pid data] else x.wire }

/-! ## One frame -/

namespace AdvRoute

/-- Commit on emission: what was queued becomes what the peer was told. -/
def commit (now : ℤ) (a : AdvRoute) : AdvRoute :=
  { a with lastRtt := a.pendingRtt, lastPen := a.pendingPen, lastAt := now, pending := false }

end AdvRoute

namespace AdvertisedState

/-- The refill of the token bucket; the first use starts it full. -/
def refill (isPcf : Bool) (now : ℤ) (st : AdvertisedState) : AdvertisedState :=
  if st.lastTokensRefill = 0 then
    { st with tokens := bucketSize isPcf, lastTokensRefill := now }
  else if st.lastTokensRefill < now then
    { st with
      tokens := min (bucketSize isPcf)
        (st.tokens + (now - st.lastTokensRefill : ℤ) / (bucketRefill isPcf : ℤ))
      lastTokensRefill := now }
  else st

/-- The first queued entry. -/
def pick (st : AdvertisedState) : Option AdvRoute :=
  st.advs.find? fun a => a.pending

/-- Something is queued. -/
def queued (st : AdvertisedState) : Bool :=
  st.advs.any fun a => a.pending

end AdvertisedState

/-- The packing loop: up to `max` records into a frame of which `body` is already built.  The
result is the body, the number of records, and the table with those committed. -/
def packRecords (now : ℤ) : ℕ → CStr → ℕ → AdvertisedState → CStr × ℕ × AdvertisedState
  | 0, body, inFrame, st => (body, inFrame, st)
  | max + 1, body, inFrame, st =>
    match st.pick with
    | none => (body, inFrame, st)
    | some a =>
      -- one octet is kept for the frame's carriage return
      match flexBuildRouteRec (advertFrameBytes - body.length - 1) a.key a.pendingRtt with
      | none =>
        (body, inFrame, if inFrame = 0 then st.put { a with pending := false } else st)
      | some record =>
        packRecords now max (body ++ record) (inFrame + 1) (st.put (a.commit now))

/-- One turn of the frame loop: pack a frame and send it for one token, unless nothing was
packed. -/
def Env.emitFrame (e : Env) (p : Slot) (isPcf : Bool) (x : Peer) : Peer × Bool :=
  let (body, inFrame, st) := packRecords e.now (advertRecs isPcf) [0x33] 0 x.adv
  if inFrame = 0 then ({ x with adv := st }, false)
  else
    (e.flexSendFrame p pidCE (body ++ [0x0D])
      { x with adv := { st with tokens := st.tokens - 1 } }, true)

/-- The frame loop and the number of frames sent.  Every turn spends one token, so the loop
runs for the whole part of the token count at most. -/
def Env.drainFrames (e : Env) (p : Slot) (isPcf : Bool) : ℕ → Peer → Peer × ℕ
  | 0, x => (x, 0)
  | turns + 1, x =>
    match e.emitFrame p isPcf x with
    | (y, false) => (y, 0)
    | (y, true) =>
      let (z, frames) := e.drainFrames p isPcf turns y
      (z, frames + 1)

/-! ## The end of a `'3+'` answer -/

/-- The `'3-'` owed after a `'3+'` walk: it goes out once the queue has stayed empty, and arms
the quiesce of a PC/Flexnet peer. -/
def Env.drainEob (e : Env) (p : Slot) (isPcf : Bool) (frames : ℕ) (x : Peer) : Peer :=
  if !x.adv.eobPending then x
  else if x.adv.queued || decide (0 < frames) then
    { x with adv := { x.adv with eobEmptySince := 0 } }
  else if x.adv.eobEmptySince = 0 then
    { x with adv := { x.adv with eobEmptySince := e.now } }
  else if bucketRefill isPcf * eobQuietRefills ≤ e.now - x.adv.eobEmptySince then
    let y := e.flexSendFrame p pidCE releaseToken x
    let y := { y with adv := { y.adv with eobPending := false, eobEmptySince := 0 } }
    if e.cfg.pcfQuiesce && isPcf && !y.pcfQuiesced then
      { y with pcfQuiesced := true, quiescedSince := e.now }
    else y
  else x

/-! ## `flex_advertise_drain` -/

/-- `flex_advertise_drain` on the peer it is about. -/
def Env.flexAdvertiseDrain (e : Env) (p : Slot) (x : Peer) : Peer :=
  if !(e.cfg.transit && (e.sessions p).active && (e.sessions p).link.isSome) then x
  else if !x.adv.queued && !x.adv.eobPending then x
  else
    let isPcf := (e.sessions p).flexPeerIsPcf
    let x := { x with adv := x.adv.refill isPcf e.now }
    -- while quiesced no record leaves, but an end-of-batch already owed does
    let turns := if e.cfg.recordsAllowed x then x.adv.tokens.floor.toNat else 0
    let (x, frames) := e.drainFrames p isPcf turns x
    e.drainEob p isPcf frames x

end FlexNet
