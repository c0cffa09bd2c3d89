import FlexNet.Advert.Answer

/-!
# What a node says in answer to a frame

A frame received on a session may make the node say something to the peer of that session.  Whatever
it says of its own accord calls for nothing (`stake` is 0), and what it says in answer to such a
frame it says once: the INIT, the own frame, the corrective keepalive, the echo and the link time
each stand behind a gate that shuts for as long as the clock stands (`Node.Open`).
-/

namespace FlexNet

/-! ## Frames -/

/-- `"3+\r"`. -/
def requestToken : CStr := [0x33, 0x2B, 0x0D]

/-- What a frame may still set off, whatever the gates: a path request, an answer, a `'3+'`, or a
keepalive that no node running this code sends. -/
def stake (data : CStr) : ℕ :=
  if data.head? = some 0x36 then 3
  else if data.head? = some 0x37 then 1
  else if data = requestToken then 1
  else if data.head? = some 0x32 ∧ data ≠ flexBuildKeepalive then 1
  else 0

/-- The stake of what is on a transmit queue. -/
def WireEvent.stake : WireEvent → ℕ
  | .frame pid data => if pid = pidCE then FlexNet.stake data else 0
  | .cleared => 0

theorem WireEvent.stake_frame {data : CStr} (pid : UInt8) (h : FlexNet.stake data = 0) :
    (WireEvent.frame pid data).stake = 0 := by
  change (if pid = pidCE then FlexNet.stake data else 0) = 0
  split_ifs
  · exact h
  · rfl

theorem stake_keepalive : stake flexBuildKeepalive = 0 := by
  unfold stake
  rw [if_neg (by decide), if_neg (by decide), if_neg (by decide), if_neg (fun h => h.2 rfl)]

theorem stake_of_head {b : UInt8} {rest : CStr} (h36 : b ≠ 0x36) (h37 : b ≠ 0x37) (h32 : b ≠ 0x32)
    (h : b :: rest ≠ requestToken) : stake (b :: rest) = 0 := by
  unfold stake
  simp [h36, h37, h32, h]

theorem stake_init (max : ℤ) : stake (flexBuildInit max) = 0 :=
  stake_of_head (by decide) (by decide) (by decide) (by simp [requestToken])

/-- What the advertiser sends: records, and the `'3-'`. -/
def WireEvent.IsAdvert (w : WireEvent) : Prop :=
  ∃ rest, w = .frame pidCE (0x33 :: rest) ∧ 0x33 :: rest ≠ requestToken

theorem WireEvent.IsAdvert.stake {w : WireEvent} (h : w.IsAdvert) : w.stake = 0 := by
  obtain ⟨rest, rfl, hrest⟩ := h
  exact stake_frame pidCE (stake_of_head (by decide) (by decide) (by decide) hrest)

/-! ## Peers -/

/-- The peer is told something, and all of it satisfies `P`. -/
def Peer.Gains (P : WireEvent → Prop) (x y : Peer) : Prop :=
  ∃ gained, y.wire = x.wire ++ gained ∧ ∀ w ∈ gained, P w

/-- The peer is told something, and nothing of it has a stake. -/
abbrev Peer.Told (x y : Peer) : Prop := x.Gains (fun w => w.stake = 0) y

namespace Peer

variable {P Q : WireEvent → Prop} {x y z : Peer}

theorem Gains.of_eq (h : y.wire = x.wire) : x.Gains P y :=
  ⟨[], by simp [h], fun _ hw => absurd hw List.not_mem_nil⟩

theorem Gains.refl (x : Peer) : x.Gains P x := .of_eq rfl

theorem Gains.trans (h : x.Gains P y) (h' : y.Gains P z) : x.Gains P z := by
  obtain ⟨gained, hy, hP⟩ := h
  obtain ⟨gained', hz, hP'⟩ := h'
  refine ⟨gained ++ gained', by rw [hz, hy, List.append_assoc], fun w hw => ?_⟩
  exact (List.mem_append.mp hw).elim (hP w) (hP' w)

theorem Gains.mono (hPQ : ∀ w, P w → Q w) (h : x.Gains P y) : x.Gains Q y :=
  let ⟨gained, hwire, hP⟩ := h
  ⟨gained, hwire, fun w hw => hPQ w (hP w hw)⟩

end Peer

namespace Env

variable (e : Env) (p : Slot)

theorem gains_send {P : WireEvent → Prop} {pid : UInt8} {data : CStr} (h : P (.frame pid data))
    (x : Peer) : x.Gains P (e.flexSendFrame p pid data x) := by
  unfold flexSendFrame
  split_ifs
  · refine ⟨[.frame pid data], rfl, fun w hw => ?_⟩
    rw [List.mem_singleton.mp hw]
    exact h
  · exact .of_eq rfl

theorem isAdvert_releaseToken : (WireEvent.frame pidCE releaseToken).IsAdvert :=
  ⟨[0x2D, 0x0D], rfl, by decide⟩

/-- A frame with a record is longer than a token. -/
theorem isAdvert_records {body : CStr} (h : ∃ rest, body = 0x33 :: rest ∧ 3 < body.length) :
    (WireEvent.frame pidCE (body ++ [0x0D])).IsAdvert := by
  obtain ⟨rest, rfl, hlen⟩ := h
  refine ⟨rest ++ [0x0D], rfl, fun htoken => ?_⟩
  have htwo := congrArg List.length htoken
  rw [List.length_cons, List.length_append, List.length_singleton] at htwo
  rw [List.length_cons] at hlen
  simp only [requestToken, List.length_cons, List.length_nil] at htwo
  omega

/-- Packing adds whole records. -/
theorem packRecords_body (now : ℤ) (max : ℕ) (body : CStr) (inFrame : ℕ) (st : AdvertisedState) :
    ∃ rest, (packRecords now max body inFrame st).1 = body ++ rest ∧
      inFrame ≤ (packRecords now max body inFrame st).2.1 ∧
      ((packRecords now max body inFrame st).2.1 ≠ inFrame → 3 ≤ rest.length) := by
  induction max generalizing body inFrame st with
  | zero => exact ⟨[], (List.append_nil _).symm, le_rfl, fun h => absurd rfl h⟩
  | succ max ih =>
      unfold packRecords
      split
      · exact ⟨[], (List.append_nil _).symm, le_rfl, fun h => absurd rfl h⟩
      · rename_i a _
        split
        · exact ⟨[], (List.append_nil _).symm, le_rfl, fun h => absurd rfl h⟩
        · rename_i record hrecord
          obtain ⟨rest, hbody, hle, -⟩ := ih (body ++ record) (inFrame + 1) (st.put (a.commit now))
          refine ⟨record ++ rest, by rw [hbody, List.append_assoc], by omega, fun _ => ?_⟩
          unfold flexBuildRouteRec at hrecord
          split_ifs at hrecord
          cases hrecord
          simp only [recordOctets, List.length_append, List.length_cons, List.length_nil,
            length_callField]
          omega

theorem gains_emitFrame (isPcf : Bool) (x : Peer) :
    x.Gains WireEvent.IsAdvert (e.emitFrame p isPcf x).1 := by
  obtain ⟨rest, hbody, -, hlong⟩ := packRecords_body e.now (advertRecs isPcf) [0x33] 0 x.adv
  unfold emitFrame
  generalize packRecords e.now (advertRecs isPcf) [0x33] 0 x.adv = r at hbody hlong ⊢
  obtain ⟨body, inFrame, st⟩ := r
  dsimp only at hbody hlong ⊢
  split_ifs with hnone
  · exact .of_eq rfl
  · have hadvert : (WireEvent.frame pidCE (body ++ [0x0D])).IsAdvert := by
      refine isAdvert_records ⟨rest, hbody, ?_⟩
      have hthree := hlong hnone
      rw [hbody, List.length_append, List.length_singleton]
      omega
    exact (Peer.Gains.of_eq rfl).trans (e.gains_send p hadvert _)

theorem gains_drainFrames (isPcf : Bool) (turns : ℕ) (x : Peer) :
    x.Gains WireEvent.IsAdvert (e.drainFrames p isPcf turns x).1 := by
  induction turns generalizing x with
  | zero => exact .refl x
  | succ turns ih =>
      have hframe := e.gains_emitFrame p isPcf x
      unfold drainFrames
      rcases hemit : e.emitFrame p isPcf x with ⟨y, _ | _⟩
      · rw [hemit] at hframe
        exact hframe
      · rw [hemit] at hframe
        exact hframe.trans (ih y)

theorem gains_drain (x : Peer) : x.Gains WireEvent.IsAdvert (e.flexAdvertiseDrain p x) := by
  unfold flexAdvertiseDrain
  split_ifs
  · exact .refl x
  · exact .refl x
  · dsimp only
    set isPcf := (e.sessions p).flexPeerIsPcf
    set y : Peer := { x with adv := x.adv.refill isPcf e.now }
    have hframes := e.gains_drainFrames p isPcf
      (if e.cfg.recordsAllowed y = true then y.adv.tokens.floor.toNat else 0) y
    generalize e.drainFrames p isPcf _ y = r at hframes ⊢
    obtain ⟨z, frames⟩ := r
    have heob : z.Gains WireEvent.IsAdvert (e.drainEob p isPcf frames z) := by
      rcases View.drainEob_wire (p := p) e isPcf frames z with hwire | hwire
      · exact .of_eq hwire
      · refine ⟨_, hwire, fun w hw => ?_⟩
        rw [List.mem_singleton.mp hw]
        exact isAdvert_releaseToken
    exact (Peer.Gains.of_eq rfl).trans (hframes.trans heob)

/-- A check says nothing. -/
theorem flexAdvertiseCheck_wire (k : Key) (force : Bool) (x : Peer) :
    (e.flexAdvertiseCheck p k force x).wire = x.wire := by
  rcases e.flexAdvertiseCheck_cases p k force x with h | ⟨a, h, -⟩ <;> rw [h]

theorem flexAdvertiseWalkForPeer_wire (directOnly force : Bool) (x : Peer) :
    (e.flexAdvertiseWalkForPeer p directOnly force x).1.wire = x.wire := by
  rw [flexAdvertiseWalkForPeer_fst]
  generalize e.walkKeys p directOnly = keys
  induction keys generalizing x with
  | nil => rfl
  | cons k keys ih => exact (ih _).trans (e.flexAdvertiseCheck_wire p k force x)

/-- A list of records only goes on with the body of a frame. -/
theorem prefix_of_foldlM {buflen : ℕ} {keys : List Key} {body frame : CStr}
    (h : keys.foldlM (fun body k =>
      (flexBuildRouteRec (buflen - body.length - 1) k 1).map (body ++ ·)) body = some frame) :
    body <+: frame := by
  induction keys generalizing body with
  | nil =>
      rw [List.foldlM_nil] at h
      exact (Option.some.inj h) ▸ List.prefix_rfl
  | cons k keys ih =>
      rw [List.foldlM_cons, Option.bind_eq_bind, Option.bind_eq_some_iff] at h
      obtain ⟨next, hnext, h⟩ := h
      obtain ⟨record, -, rfl⟩ := Option.map_eq_some_iff.mp hnext
      exact (List.prefix_append body record).trans (ih h)

/-- The own frame has a record. -/
theorem isAdvert_ownFrame {cfg : Config} {frame : CStr} (h : cfg.ownFrame = some frame) :
    (WireEvent.frame pidCE frame).IsAdvert := by
  unfold Config.ownFrame flexBuildOwnFrame at h
  dsimp only at h
  split_ifs at h
  obtain ⟨body, hbody, rfl⟩ := Option.map_eq_some_iff.mp h
  rw [List.foldlM_cons, Option.bind_eq_bind, Option.bind_eq_some_iff] at hbody
  obtain ⟨next, hnext, hbody⟩ := hbody
  obtain ⟨record, hrecord, rfl⟩ := Option.map_eq_some_iff.mp hnext
  obtain ⟨rest, rfl⟩ := prefix_of_foldlM hbody
  unfold flexBuildRouteRec at hrecord
  split_ifs at hrecord
  cases hrecord
  refine isAdvert_records ⟨_, rfl, ?_⟩
  simp only [recordOctets, List.length_append, List.length_cons, List.length_nil, length_callField]
  omega

theorem gains_ownRoutes (deferEob : Bool) (x : Peer) :
    x.Gains WireEvent.IsAdvert (e.flexSendOwnRoutes p deferEob x) := by
  have heob : ∀ y : Peer, y.Gains WireEvent.IsAdvert
      (if deferEob then y else e.flexSendFrame p pidCE releaseToken y) := fun y => by
    split_ifs
    · exact .refl y
    · exact e.gains_send p isAdvert_releaseToken y
  unfold flexSendOwnRoutes
  cases hframe : e.cfg.ownFrame with
  | none => exact heob x
  | some frame => exact (e.gains_send p (isAdvert_ownFrame hframe) x).trans (heob _)

end Env

end FlexNet
