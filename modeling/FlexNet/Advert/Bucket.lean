import FlexNet.Advert.WireTruth
import FlexNet.Lib.TokenBucket
import Mathlib.Data.Rat.Cast.Order
import Mathlib.Algebra.Order.Floor.Ring

/-!
# The rate a peer is sent records at

Only a drain sends records of the advertised table, and it spends one token a frame.  `drain_uses`
reads a drain as one use of a token bucket, and the window bound of `TokenBucket` becomes a bound
on the frames a peer is sent, whoever calls the drain and however often.
-/

namespace FlexNet

open TokenBucket

/-! ## Calls -/

/-- What may happen to a peer while its table is not cleared. -/
inductive PeerOp
  /-- `flex_advertise_check` -/
  | check (k : Key) (force : Bool)
  /-- `flex_advertise_walk_for_peer` -/
  | walk (directOnly force : Bool)
  /-- `flex_advertise_drain` -/
  | drain
  /-- a `'3-'` is owed to the peer -/
  | owe
  /-- the quiesce latch is lifted -/
  | release
  /-- any other frame is handed to `flex_send_frame` -/
  | send (pid : UInt8) (data : CStr)

/-- A call, with the clock and the tables it finds. -/
structure PeerCall where
  env : Env
  op : PeerOp

/-- A frame of compact records. -/
def WireEvent.isRecords : WireEvent → Bool
  | .frame pid data => pid == pidCE && flexParseCeFrame false data == some .compact
  | .cleared => false

/-- The frames of compact records on a transmit queue. -/
def recordFrames (wire : List WireEvent) : ℕ := wire.countP WireEvent.isRecords

namespace PeerCall

variable (p : Slot)

/-- The peer after a call. -/
def apply (x : Peer) (c : PeerCall) : Peer :=
  match c.op with
  | .check k force => c.env.flexAdvertiseCheck p k force x
  | .walk directOnly force => (c.env.flexAdvertiseWalkForPeer p directOnly force x).1
  | .drain => c.env.flexAdvertiseDrain p x
  | .owe => { x with adv := { x.adv with eobPending := true } }
  | .release => { x with pcfQuiesced := false, quiescedSince := 0 }
  | .send pid data => c.env.flexSendFrame p pid data x

/-- The transit record frames a call sends. -/
def transitFrames (x : Peer) (c : PeerCall) : ℕ :=
  match c.op with
  | .drain => recordFrames (c.apply p x).wire - recordFrames x.wire
  | _ => 0

/-- The peer after some calls. -/
def after (x : Peer) (cs : List PeerCall) : Peer := cs.foldl (apply p) x

/-- The transit record frames some calls send in the window `[t₁, t₂]`. -/
def framesIn (t₁ t₂ : ℤ) : Peer → List PeerCall → ℕ
  | _, [] => 0
  | x, c :: cs =>
    (if t₁ ≤ c.env.now ∧ c.env.now ≤ t₂ then c.transitFrames p x else 0) +
      framesIn t₁ t₂ (c.apply p x) cs

end PeerCall

/-! ## The bucket of a peer -/

/-- The token bucket of a family. -/
def bucketRate (isPcf : Bool) : Rate ℚ where
  cap := bucketSize isPcf
  rate := 1 / (bucketRefill isPcf : ℤ)
  cap_nonneg := by cases isPcf <;> decide
  rate_nonneg := by cases isPcf <;> norm_num [bucketRefill]

namespace AdvertisedState

variable {st : AdvertisedState} {isPcf : Bool} {now t : ℤ}

/-- The bucket as the peer keeps it; `last_tokens_refill` 0 marks one never used. -/
def credit (st : AdvertisedState) : Option (Credit ℚ) :=
  if st.lastTokensRefill = 0 then none else some ⟨st.tokens, st.lastTokensRefill⟩

/-- The tokens are within the bucket, and were counted no later than `t`. -/
structure BucketOk (isPcf : Bool) (t : ℤ) (st : AdvertisedState) : Prop where
  tokens : 0 ≤ st.tokens ∧ st.tokens ≤ bucketSize isPcf
  since : st.lastTokensRefill = 0 ∨ st.lastTokensRefill ≤ t

theorem BucketOk.mono (h : st.BucketOk isPcf t) (hle : t ≤ now) : st.BucketOk isPcf now :=
  ⟨h.tokens, h.since.imp_right fun hs => hs.trans hle⟩

theorem BucketOk.valid (h : st.BucketOk isPcf t) : Valid (bucketRate isPcf) st.credit t := by
  intro c hc
  unfold credit at hc
  split_ifs at hc with hnever
  obtain rfl := Option.some.inj hc
  refine ⟨h.tokens.1, h.tokens.2, ?_⟩
  have hsince := h.since.resolve_left hnever
  change (st.lastTokensRefill : ℚ) ≤ t
  exact_mod_cast hsince

theorem bucketOk_empty : ({} : AdvertisedState).BucketOk isPcf t :=
  ⟨⟨le_rfl, (bucketRate isPcf).cap_nonneg⟩, .inl rfl⟩

/-- A refill brings the tokens to the level of the bucket. -/
theorem refill_level (h : st.BucketOk isPcf now) :
    (st.refill isPcf now).tokens = level (bucketRate isPcf) st.credit now ∧
      (st.refill isPcf now).lastTokensRefill = now := by
  unfold refill credit
  by_cases hnever : st.lastTokensRefill = 0
  · rw [if_pos hnever, if_pos hnever]
    exact ⟨rfl, rfl⟩
  · rw [if_neg hnever, if_neg hnever]
    by_cases hlater : st.lastTokensRefill < now
    · rw [if_pos hlater]
      refine ⟨?_, rfl⟩
      change min _ _ = min _ _
      simp only [bucketRate]
      push_cast
      ring_nf
    · have hnow : st.lastTokensRefill = now := by
        have := h.since.resolve_left hnever
        omega
      rw [if_neg hlater]
      refine ⟨?_, hnow⟩
      change st.tokens = min _ _
      simp only [hnow, sub_self, zero_mul, add_zero]
      exact (min_eq_right h.tokens.2).symm

end AdvertisedState

open AdvertisedState

/-! ## A drain is one use of the bucket -/

theorem recordFrames_send_le {e : Env} {p : Slot} {pid : UInt8} {data : CStr} {x : Peer} :
    recordFrames (e.flexSendFrame p pid data x).wire ≤ recordFrames x.wire + 1 := by
  unfold Env.flexSendFrame
  dsimp only
  split_ifs
  · rw [recordFrames, List.countP_append]
    exact Nat.add_le_add_left (List.countP_le_length ..) _
  · exact Nat.le_succ _

/-- A packed frame leaves the bucket alone. -/
theorem packRecords_bucket {now : ℤ} {max inFrame : ℕ} {body : CStr} {st : AdvertisedState} :
    (packRecords now max body inFrame st).2.2.tokens = st.tokens ∧
      (packRecords now max body inFrame st).2.2.lastTokensRefill = st.lastTokensRefill := by
  induction max generalizing body inFrame st with
  | zero => exact ⟨rfl, rfl⟩
  | succ max ih =>
      unfold packRecords
      split
      · exact ⟨rfl, rfl⟩
      · split
        · dsimp only
          split_ifs <;> exact ⟨rfl, rfl⟩
        · exact ih

namespace Env

variable (e : Env) (p : Slot) (isPcf : Bool)

/-- One turn of the frame loop spends one token on one frame, or stops. -/
theorem emitFrame_spends (x : Peer) :
    let r := e.emitFrame p isPcf x
    r.1.adv.lastTokensRefill = x.adv.lastTokensRefill ∧
      (r.2 = false → r.1.adv.tokens = x.adv.tokens ∧ r.1.wire = x.wire) ∧
      (r.2 = true → r.1.adv.tokens = x.adv.tokens - 1 ∧
        recordFrames r.1.wire ≤ recordFrames x.wire + 1) := by
  have hpack := @packRecords_bucket e.now (advertRecs isPcf) 0 [0x33] x.adv
  unfold emitFrame
  rcases hp : packRecords e.now (advertRecs isPcf) [0x33] 0 x.adv with ⟨body, inFrame, st⟩
  rw [hp] at hpack
  obtain ⟨htokens, hrefill⟩ := hpack
  dsimp only at htokens hrefill ⊢
  split_ifs
  · exact ⟨hrefill, fun _ => ⟨htokens, rfl⟩, by simp⟩
  · refine ⟨hrefill, by simp, fun _ => ⟨?_, recordFrames_send_le⟩⟩
    simp [htokens]

theorem drainFrames_spends (turns : ℕ) (x : Peer) :
    let r := e.drainFrames p isPcf turns x
    r.1.adv.lastTokensRefill = x.adv.lastTokensRefill ∧ r.2 ≤ turns ∧
      r.1.adv.tokens = x.adv.tokens - r.2 ∧
      recordFrames r.1.wire ≤ recordFrames x.wire + r.2 := by
  induction turns generalizing x with
  | zero => simp [drainFrames]
  | succ turns ih =>
      obtain ⟨hrefill, hstop, hgo⟩ := e.emitFrame_spends p isPcf x
      unfold drainFrames
      rcases hemit : e.emitFrame p isPcf x with ⟨y, _ | _⟩
      · rw [hemit] at hrefill hstop
        obtain ⟨htokens, hwire⟩ := hstop rfl
        dsimp only at hrefill htokens hwire ⊢
        refine ⟨hrefill, Nat.zero_le _, ?_, ?_⟩
        · simp [htokens]
        · simp [hwire]
      · rw [hemit] at hrefill hgo
        obtain ⟨htokens, hwire⟩ := hgo rfl
        obtain ⟨hrefill', hturns, htokens', hwire'⟩ := ih y
        dsimp only at hrefill htokens hwire hrefill' hturns htokens' hwire' ⊢
        refine ⟨hrefill'.trans hrefill, by omega, ?_, by omega⟩
        rw [htokens', htokens]
        push_cast
        ring

theorem drainEob_bucket (frames : ℕ) (x : Peer) :
    (e.drainEob p isPcf frames x).adv.tokens = x.adv.tokens ∧
      (e.drainEob p isPcf frames x).adv.lastTokensRefill = x.adv.lastTokensRefill ∧
      recordFrames (e.drainEob p isPcf frames x).wire = recordFrames x.wire := by
  refine ⟨?_, ?_, ?_⟩
  · unfold drainEob flexSendFrame
    dsimp only
    split_ifs <;> rfl
  · unfold drainEob flexSendFrame
    dsimp only
    split_ifs <;> rfl
  · rcases View.drainEob_wire e isPcf frames x with hwire | hwire <;> rw [hwire]
    rw [recordFrames, List.countP_append]
    rfl

/-- A drain is one use of the peer's bucket, and sends no more frames than it spends tokens. -/
theorem drain_uses {x : Peer} (hnow : e.now ≠ 0)
    (hfam : (e.sessions p).flexPeerIsPcf = isPcf) (hok : x.adv.BucketOk isPcf e.now) :
    ∃ n : ℕ, Uses (bucketRate isPcf) x.adv.credit e.now n (e.flexAdvertiseDrain p x).adv.credit ∧
      (e.flexAdvertiseDrain p x).adv.BucketOk isPcf e.now ∧
      recordFrames (e.flexAdvertiseDrain p x).wire ≤ recordFrames x.wire + n := by
  have hidle : ∃ n : ℕ, Uses (bucketRate isPcf) x.adv.credit e.now n x.adv.credit ∧
      x.adv.BucketOk isPcf e.now ∧ recordFrames x.wire ≤ recordFrames x.wire + n :=
    ⟨0, by simpa using Uses.idle x.adv.credit (e.now : ℚ), hok, le_rfl⟩
  unfold flexAdvertiseDrain
  split_ifs
  · exact hidle
  · exact hidle
  · rw [hfam]
    obtain ⟨hlevel, hsince⟩ := refill_level hok
    dsimp only
    set y : Peer := { x with adv := x.adv.refill isPcf e.now } with hy
    set turns := if e.cfg.recordsAllowed y = true then y.adv.tokens.floor.toNat else 0 with hturns
    have hspends := e.drainFrames_spends p isPcf turns y
    generalize e.drainFrames p isPcf turns y = r at hspends ⊢
    obtain ⟨z, frames⟩ := r
    obtain ⟨hrefill, hle, htokens, hwire⟩ := hspends
    obtain ⟨htokens', hrefill', hwire'⟩ := e.drainEob_bucket p isPcf frames z
    dsimp only at hrefill hle htokens hwire ⊢
    have hvalid := hok.valid
    have hpos : 0 ≤ level (bucketRate isPcf) x.adv.credit e.now := level_nonneg hvalid
    -- the loop runs for whole tokens
    have hspent : (frames : ℚ) ≤ level (bucketRate isPcf) x.adv.credit e.now := by
      have hturn : (turns : ℚ) ≤ y.adv.tokens := by
        have hfloor : 0 ≤ ⌊y.adv.tokens⌋ := Int.floor_nonneg.mpr (hlevel ▸ hpos)
        have hnat : ((y.adv.tokens.floor.toNat : ℕ) : ℚ) ≤ y.adv.tokens := by
          have hcast : ((y.adv.tokens.floor.toNat : ℕ) : ℚ) = (⌊y.adv.tokens⌋ : ℤ) := by
            exact_mod_cast Int.toNat_of_nonneg hfloor
          rw [hcast]
          exact Int.floor_le _
        rw [hturns]
        split_ifs
        · exact hnat
        · exact_mod_cast hlevel ▸ hpos
      have hframes : (frames : ℚ) ≤ turns := by exact_mod_cast hle
      exact hframes.trans (hturn.trans_eq hlevel)
    have hcredit : (e.drainEob p isPcf frames z).adv.credit =
        some ⟨level (bucketRate isPcf) x.adv.credit e.now - frames, e.now⟩ := by
      rw [credit, hrefill', hrefill, hsince, if_neg hnow, htokens', htokens]
      exact congrArg some (by rw [← hlevel])
    refine ⟨frames, hcredit ▸ Uses.spend _ _ _ (by positivity) hspent, ⟨?_, ?_⟩, ?_⟩
    · rw [htokens', htokens]
      have hcap := level_le_cap (r := bucketRate isPcf) (b := x.adv.credit) (t := e.now)
      rw [← hlevel] at hspent hcap
      have hn : (0 : ℚ) ≤ frames := by positivity
      exact ⟨sub_nonneg.mpr hspent, (sub_le_self _ hn).trans hcap⟩
    · rw [hrefill', hrefill, hsince]
      exact .inr le_rfl
    · rw [hwire']
      exact hwire

/-- A check leaves the bucket alone. -/
theorem check_bucket {k : Key} {force : Bool} {x : Peer} :
    (e.flexAdvertiseCheck p k force x).adv.tokens = x.adv.tokens ∧
      (e.flexAdvertiseCheck p k force x).adv.lastTokensRefill = x.adv.lastTokensRefill := by
  rcases e.flexAdvertiseCheck_cases p k force x with h | ⟨a, h, -⟩ <;> rw [h]
  · exact ⟨rfl, rfl⟩
  · exact ⟨rfl, rfl⟩

theorem walk_bucket {directOnly force : Bool} {x : Peer} :
    (e.flexAdvertiseWalkForPeer p directOnly force x).1.adv.tokens = x.adv.tokens ∧
      (e.flexAdvertiseWalkForPeer p directOnly force x).1.adv.lastTokensRefill =
        x.adv.lastTokensRefill := by
  rw [flexAdvertiseWalkForPeer_fst]
  generalize e.walkKeys p directOnly = keys
  induction keys generalizing x with
  | nil => exact ⟨rfl, rfl⟩
  | cons k keys ih =>
      obtain ⟨htokens, hrefill⟩ := ih (x := e.flexAdvertiseCheck p k force x)
      obtain ⟨htokens', hrefill'⟩ := @check_bucket e p k force x
      rw [List.foldl_cons]
      exact ⟨htokens.trans htokens', hrefill.trans hrefill'⟩

end Env

/-! ## Runs of calls -/

namespace PeerCall

variable {p : Slot} {isPcf : Bool}

/-- Every call is one use of the bucket. -/
theorem apply_uses {x : Peer} {c : PeerCall} (hnow : 0 < c.env.now)
    (hfam : (c.env.sessions p).flexPeerIsPcf = isPcf) (hok : x.adv.BucketOk isPcf c.env.now) :
    ∃ n : ℕ, Uses (bucketRate isPcf) x.adv.credit c.env.now n (c.apply p x).adv.credit ∧
      (c.apply p x).adv.BucketOk isPcf c.env.now ∧ c.transitFrames p x ≤ n := by
  have hidle : ∀ y : Peer, y.adv.tokens = x.adv.tokens →
      y.adv.lastTokensRefill = x.adv.lastTokensRefill →
      ∃ n : ℕ, Uses (bucketRate isPcf) x.adv.credit c.env.now n y.adv.credit ∧
        y.adv.BucketOk isPcf c.env.now ∧ 0 ≤ n := by
    intro y htokens hrefill
    have hcredit : y.adv.credit = x.adv.credit := by rw [credit, credit, htokens, hrefill]
    refine ⟨0, ?_, ⟨htokens ▸ hok.tokens, hrefill ▸ hok.since⟩, le_rfl⟩
    rw [hcredit, Nat.cast_zero]
    exact .idle _ _
  unfold transitFrames apply
  cases hop : c.op with
  | check k force => exact hidle _ (c.env.check_bucket p).1 (c.env.check_bucket p).2
  | walk directOnly force => exact hidle _ (c.env.walk_bucket p).1 (c.env.walk_bucket p).2
  | drain =>
      obtain ⟨n, huses, hok', hframes⟩ := c.env.drain_uses p isPcf (x := x) (by omega) hfam hok
      refine ⟨n, huses, hok', ?_⟩
      dsimp only
      omega
  | owe => exact hidle _ rfl rfl
  | release => exact hidle _ rfl rfl
  | send pid data => exact hidle _ rfl rfl

/-- What a run of calls asks of the bucket: a clock that is set and does not run back, and a peer
whose family stays. -/
structure Steady (p : Slot) (isPcf : Bool) (cs : List PeerCall) : Prop where
  clock : cs.Pairwise fun c d => c.env.now ≤ d.env.now
  set : ∀ c ∈ cs, 0 < c.env.now
  family : ∀ c ∈ cs, (c.env.sessions p).flexPeerIsPcf = isPcf

theorem Steady.tail {c : PeerCall} {cs : List PeerCall} (h : Steady p isPcf (c :: cs)) :
    Steady p isPcf cs :=
  ⟨(List.pairwise_cons.mp h.clock).2, fun d hd => h.set d (List.mem_cons_of_mem c hd),
    fun d hd => h.family d (List.mem_cons_of_mem c hd)⟩

/-- A run of calls is a trace of the bucket that accounts for every frame sent. -/
theorem run_trace {x : Peer} {cs : List PeerCall} (h : Steady p isPcf cs)
    (hok : ∀ c ∈ cs, x.adv.BucketOk isPcf c.env.now) :
    ∃ us b, Trace (bucketRate isPcf) x.adv.credit us b ∧
      us.map Prod.fst = cs.map (fun c => (c.env.now : ℚ)) ∧
      ∀ t₁ t₂ : ℤ, (framesIn p t₁ t₂ x cs : ℚ) ≤ spentIn (t₁ : ℚ) t₂ us := by
  induction cs generalizing x with
  | nil => exact ⟨[], _, .nil _, rfl, fun _ _ => by simp [framesIn, spentIn]⟩
  | cons c cs ih =>
      obtain ⟨hlater, -⟩ := List.pairwise_cons.mp h.clock
      obtain ⟨n, huses, hok', hframes⟩ := apply_uses (h.set c List.mem_cons_self)
        (h.family c List.mem_cons_self) (hok c List.mem_cons_self)
      obtain ⟨us, b, htrace, htimes, hspent⟩ := ih h.tail fun d hd => hok'.mono (hlater d hd)
      refine ⟨(c.env.now, n) :: us, b, .cons huses htrace, ?_, ?_⟩
      · rw [List.map_cons, List.map_cons, htimes]
      · intro t₁ t₂
        have hrest := hspent t₁ t₂
        have hn : (c.transitFrames p x : ℚ) ≤ n := by exact_mod_cast hframes
        unfold framesIn
        by_cases hin : t₁ ≤ c.env.now ∧ c.env.now ≤ t₂
        · have hin' : (t₁ : ℚ) ≤ c.env.now ∧ (c.env.now : ℚ) ≤ t₂ := by exact_mod_cast hin
          rw [if_pos hin, spentIn, List.filter_cons_of_pos (by simpa using hin'), List.map_cons,
            List.sum_cons]
          unfold spentIn at hrest
          push_cast
          linarith
        · have hin' : ¬ ((t₁ : ℚ) ≤ c.env.now ∧ (c.env.now : ℚ) ≤ t₂) := by exact_mod_cast hin
          rw [if_neg hin, spentIn, List.filter_cons_of_neg (by simpa using hin')]
          simpa [spentIn] using hrest

/-- The bucket stays in order. -/
theorem after_bucketOk {x : Peer} {cs : List PeerCall} {t : ℤ} (h : Steady p isPcf cs)
    (hfrom : ∀ c ∈ cs, t ≤ c.env.now) (hok : x.adv.BucketOk isPcf t) :
    ∃ t', (after p x cs).adv.BucketOk isPcf t' := by
  induction cs generalizing x t with
  | nil => exact ⟨t, hok⟩
  | cons c cs ih =>
      have hlater := (List.pairwise_cons.mp h.clock).1
      obtain ⟨n, -, hok', -⟩ := apply_uses (h.set c List.mem_cons_self)
        (h.family c List.mem_cons_self) (hok.mono (hfrom c List.mem_cons_self))
      exact ih h.tail hlater hok'

/-- The bucket bounds the rate: from a cleared table on, every window sees at most a full bucket
of record frames and what is refilled meanwhile, and the tokens stay within the bucket. -/
theorem bucket_bounds_rate {x : Peer} {cs : List PeerCall} (hx : x.adv = {})
    (h : Steady p isPcf cs) :
    (∀ t₁ t₂ : ℤ, t₁ ≤ t₂ → (framesIn p t₁ t₂ x cs : ℚ) ≤
      bucketSize isPcf + ((t₂ - t₁ : ℤ) : ℚ) / (bucketRefill isPcf : ℤ)) ∧
    ∀ done, done <+: cs →
      0 ≤ (after p x done).adv.tokens ∧ (after p x done).adv.tokens ≤ bucketSize isPcf := by
  have hok : ∀ t, x.adv.BucketOk isPcf t := fun t => hx ▸ bucketOk_empty
  refine ⟨fun t₁ t₂ ht => ?_, fun done hdone => ?_⟩
  · obtain ⟨us, b, htrace, htimes, hspent⟩ := run_trace h fun c _ => hok c.env.now
    have hsorted : us.Pairwise fun u v => u.1 ≤ v.1 := by
      have hclock : (us.map Prod.fst).Pairwise (· ≤ ·) := by
        rw [htimes, List.pairwise_map]
        exact h.clock.imp fun hle => by exact_mod_cast hle
      exact List.pairwise_map.mp hclock
    have hvalid : ∀ u ∈ us, Valid (bucketRate isPcf) x.adv.credit u.1 := by
      intro u _ c hc
      rw [hx] at hc
      cases hc
    have hle : (t₁ : ℚ) ≤ t₂ := by exact_mod_cast ht
    have hbound := htrace.spentIn_le hsorted hvalid hle
    refine (hspent t₁ t₂).trans (hbound.trans_eq ?_)
    simp only [bucketRate]
    push_cast
    ring
  · obtain ⟨rest, rfl⟩ := hdone
    have hsteady : Steady p isPcf done :=
      ⟨(List.pairwise_append.mp h.clock).1, fun c hc => h.set c (List.mem_append_left rest hc),
        fun c hc => h.family c (List.mem_append_left rest hc)⟩
    obtain ⟨t', hend⟩ := after_bucketOk hsteady (fun c hc => (hsteady.set c hc).le) (hok 0)
    exact hend.tokens

end PeerCall

namespace Bench

/-- `K`, which `A` taught us, is checked for `B`, and `B` is drained twice. -/
def drainTwice : List PeerCall :=
  [.check (dest 0x4B) false, .drain, .drain].map
    fun op => ⟨((node false).after [record 0 0x4B 10]).toEnv, op⟩

theorem steady_drainTwice : PeerCall.Steady slotB true drainTwice where
  clock := by decide +kernel
  set := by decide +kernel
  family := by decide +kernel

/-- Two drains in one second send a bucketful at most. -/
theorem bucket_bounds_rate_twice :
    (∀ t₁ t₂ : ℤ, t₁ ≤ t₂ → (PeerCall.framesIn slotB t₁ t₂ {} drainTwice : ℚ) ≤
      bucketSize true + ((t₂ - t₁ : ℤ) : ℚ) / (bucketRefill true : ℤ)) ∧
    ∀ done, done <+: drainTwice →
      0 ≤ (PeerCall.after slotB {} done).adv.tokens ∧
        (PeerCall.after slotB {} done).adv.tokens ≤ bucketSize true :=
  PeerCall.bucket_bounds_rate rfl steady_drainTwice

end Bench

end FlexNet
