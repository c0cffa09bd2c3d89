import FlexNet.Lib.SlotRing
import FlexNet.Lib.PolledWindow
import FlexNet.Datalink.Session

/-!
# The numbers behind the sequence numbers

Each end of a session counts modulo eight.  Here every counter of a link entry is given the number
it stands for: how many frames have been acknowledged, sent, loaded and received since the session
was set up (`Marks`), and every frame on the air the numbers it was built from (`Tag`).  `Stands`
says that an entry is at its marks; the lemmas about the functions of `SDETX`, `SDIFRM`, `SFRAME`
and the timers say how each moves them.  They are for links without SREJ, with frames of version 2.
-/

namespace FlexNet

open SlotRing PolledWindow

/-! ## Frames and their numbers -/

/-- The numbers a frame was built from. -/
structure Tag where
  item : Option Nat
  upTo : Nat
  poll : Bool
  final : Bool

/-- What a frame is to the end that receives its I frames, and to the end whose frames it
answers. -/
def Tag.out (t : Tag) : Outgoing := ⟨t.item, t.poll⟩
def Tag.back (t : Tag) : Answer := ⟨t.upTo, t.final⟩

@[simp] theorem Tag.back_upTo (t : Tag) : t.back.upTo = t.upTo := rfl

/-- The supervisory frames of a link without SREJ. -/
def PlainKind (kind : Nat) : Prop := kind = ctlRR ∨ kind = ctlRNR ∨ kind = ctlREJ

/-- A frame was built from these numbers, by an end whose frames to send are `own`. -/
inductive Carries {α : Type} (own : List α) : LinkFrame α → Tag → Prop
  | info (k n : Nat) (poll : Bool) (a : α) : own[k]? = some a →
      Carries own ⟨iCtl (n % 8) (k % 8) poll, .cmd, some a⟩ ⟨some k, n, poll, false⟩
  | command (kind n : Nat) : PlainKind kind →
      Carries own ⟨sCtl kind (n % 8) true, .cmd, none⟩ ⟨none, n, true, false⟩
  | response (kind n : Nat) (final : Bool) : PlainKind kind →
      Carries own ⟨sCtl kind (n % 8) final, .resp, none⟩ ⟨none, n, false, final⟩

theorem Carries.append {α : Type} {own : List α} {f : LinkFrame α} {t : Tag} (h : Carries own f t)
    (more : List α) : Carries (own ++ more) f t := by
  cases h with
  | info k n poll a ha =>
      have hlen := (List.getElem?_eq_some_iff.mp ha).1
      exact .info k n poll a (by rw [List.getElem?_append_left hlen, ha])
  | command kind n hkind => exact .command kind n hkind
  | response kind n final hkind => exact .response kind n final hkind

/-- The fields of an I frame's control octet are read back. -/
theorem iCtl_fields : ∀ nr < 8, ∀ ns < 8, ∀ poll : Bool,
    ctlNr (iCtl nr ns poll) = nr ∧ ctlNs (iCtl nr ns poll) = ns ∧ ctlPf (iCtl nr ns poll) = poll ∧
      iCtl nr ns poll &&& 1 = 0 ∧ iCtl nr ns poll &&& 0xf ≠ ctlSREJ := by
  decide

/-- The fields of a supervisory frame's control octet are read back. -/
theorem sCtl_fields {kind : Nat} (hkind : PlainKind kind) : ∀ nr < 8, ∀ pf : Bool,
    ctlNr (sCtl kind nr pf) = nr ∧ ctlPf (sCtl kind nr pf) = pf ∧ sCtl kind nr pf &&& 3 = 1 ∧
      sCtl kind nr pf &&& 0xf ≠ ctlSREJ := by
  rcases hkind with rfl | rfl | rfl <;> decide

/-- A frame's command and response bits with its P/F bit are what its numbers say. -/
theorem Carries.polls {α : Type} {own : List α} {f : LinkFrame α} {t : Tag} (h : Carries own f t) :
    (f.flag = .cmd ∧ ctlPf f.ctl = true ↔ t.poll = true) ∧
      (f.flag = .resp ∧ ctlPf f.ctl = true ↔ t.final = true) := by
  cases h with
  | info k n poll a =>
      obtain ⟨-, -, hpf, -⟩ :=
        iCtl_fields (n % 8) (Nat.mod_lt _ (by decide)) (k % 8) (Nat.mod_lt _ (by decide)) poll
      simp [hpf]
  | command kind n hkind =>
      obtain ⟨-, hpf, -⟩ := sCtl_fields hkind (n % 8) (Nat.mod_lt _ (by decide)) true
      simp [hpf]
  | response kind n final hkind =>
      obtain ⟨-, hpf, -⟩ := sCtl_fields hkind (n % 8) (Nat.mod_lt _ (by decide)) final
      simp [hpf]

/-! ## An entry at its marks -/

/-- The numbers the counters of an entry stand for. -/
structure Marks where
  /-- Frames the other end has acknowledged. -/
  acked : Nat
  /-- The next frame to send. -/
  next : Nat
  /-- Frames loaded into the send slots. -/
  top : Nat
  /-- Frames received in sequence. -/
  recv : Nat

/-- The entry is at these marks, but for its window start and its reject state.  `own` is all this
end has been given to send and `peer` all the other end has. -/
structure Marked {α : Type} (l : DataLink α) (own peer : List α) (m : Marks) : Prop where
  nr : l.linkNr = m.recv % 8
  ns : l.linkNs = m.next % 8
  ows : l.linkOws = m.acked % 8
  slot : l.sdtSlot = m.top % 8
  acked_le : m.acked ≤ m.next
  next_le : m.next ≤ m.top
  in_window : m.next ≤ m.acked + 7
  covers : Covers 8 l.frames own m.acked m.top
  queued : l.txQ = own.drop m.top
  saved : Within 8 l.rxFrames peer m.recv (m.recv + 7)
  handed : l.rxQ = peer.take m.recv
  window_pos : 0 < l.linkWindow
  window_le : l.linkWindow ≤ 7
  version2 : l.ver1Flag = false
  noSrej : l.ver2point2 = false
  staying : l.discPending = false
  accepted : l.sdRejF = false

/-- The entry is at these marks; while it waits for a missing frame it does not have that frame. -/
structure Stands {α : Type} (l : DataLink α) (own peer : List α) (m : Marks) : Prop
    extends Marked l own peer m where
  ws : l.linkWs = m.acked % 8
  waiting : l.l2State = 6 → l.rxFrames l.linkNr = none

namespace DataLink

variable {α : Type} (port : LinkPort) (env : LinkEnv) {l : DataLink α} {own peer : List α}
  {m : Marks}

/-! ## The sender -/

theorem outstanding_eq (h : Marked l own peer m) : l.outstanding = m.next - m.acked := by
  have := h.acked_le
  have := h.in_window
  simp only [outstanding, h.ns, h.ows]
  split <;> omega

theorem loadFrames_stands {q : List α} (h : Stands l own peer m) (hq : l.txQ = q) :
    ∃ top, Stands (loadFrames env q l) own peer { m with top := top } ∧
      (loadFrames env q l).pollSent = l.pollSent ∧
      (loadFrames env q l).linkWindow = l.linkWindow := by
  induction q generalizing l m with
  | nil => exact ⟨m.top, h, rfl, rfl⟩
  | cons a q ih =>
      rw [loadFrames]
      split
      · exact ⟨m.top, h, rfl, rfl⟩
      next hfree =>
        have hnone : l.frames (m.top % 8) = none := by
          rw [← h.slot]
          simpa using hfree
        have hroom : m.top < m.acked + 8 := by
          by_contra hge
          have htop : m.top = m.acked + 8 := le_antisymm h.covers.room (not_lt.mp hge)
          rw [htop, Nat.add_mod_right,
            h.covers.eq_none_iff le_rfl (Nat.lt_add_of_pos_right (by decide))] at hnone
          omega
        -- the head of the queue is the next frame of what the end has been given
        have hdrop : own.drop m.top = a :: q := h.queued.symm.trans hq
        have ha : own[m.top]? = some a := by rw [← List.head?_drop, hdrop, List.head?_cons]
        have hrest : q = own.drop (m.top + 1) := by rw [← List.tail_drop, hdrop, List.tail_cons]
        have hstep : Stands { l with
            txQ := q
            lastFrameSent := env.seconds
            frames := Function.update l.frames l.sdtSlot (some a)
            sdtSlot := (l.sdtSlot + 1) % 8 } own peer { m with top := m.top + 1 } :=
          { h with
            slot := by
              show (l.sdtSlot + 1) % 8 = (m.top + 1) % 8
              rw [h.slot, Nat.mod_add_mod]
            next_le := h.next_le.trans (Nat.le_succ _)
            covers := by simpa only [h.slot] using h.covers.load hroom ha
            queued := hrest }
        obtain ⟨top, htop, hpoll, hwin⟩ := ih hstep rfl
        exact ⟨top, htop, hpoll, hwin⟩

theorem sendFrames_of_pollSent (hpoll : l.pollSent = true) (buffers : Nat) :
    sendFrames port env buffers l = (l, []) := by
  cases buffers with
  | zero => rfl
  | succ n => rw [sendFrames, if_pos hpoll]

/-- A burst of I frames: they are numbered from the mark on, say how far this end has come, and in
the numbered protocol are steps of the sender. -/
structure Burst (own : List α) (m : Marks) (next : Nat) (out : List (LinkFrame α))
    (tags : List Tag) : Prop where
  air : List.Forall₂ (Carries own) out tags
  commands : ∀ f ∈ out, f.flag = .cmd
  count : next = m.next + tags.length
  tells : ∀ t ∈ tags, t.back = ⟨m.recv, false⟩
  steps : ∀ f : Flow, f.size = own.length → f.acked = m.acked → f.next = m.next → ¬ f.UnderWay →
    Steps 7 f { f with next := next, out := f.out ++ tags.map Tag.out }

theorem Burst.none : Burst own m m.next [] [] where
  air := .nil
  commands _ h := by cases h
  count := rfl
  tells _ h := by cases h
  steps f _ _ hnext _ := by
    rw [← hnext]
    simp only [List.map_nil, List.append_nil]
    exact .refl

/-- One more frame in front of a burst; behind a poll there is none. -/
theorem Burst.cons {a : α} {next : Nat} {out : List (LinkFrame α)} {tags : List Tag} {poll : Bool}
    (h : Burst own { m with next := m.next + 1 } next out tags) (ha : own[m.next]? = some a)
    (hwin : m.next < m.acked + 7) (hpoll : poll = true → tags = []) :
    Burst own m next (⟨iCtl (m.recv % 8) (m.next % 8) poll, .cmd, some a⟩ :: out)
      (⟨some m.next, m.recv, poll, false⟩ :: tags) where
  air := .cons (.info m.next m.recv poll a ha) h.air
  commands f hf := by
    rcases List.mem_cons.mp hf with rfl | hf
    · rfl
    · exact h.commands f hf
  count := by
    rw [h.count, List.length_cons]
    show m.next + 1 + tags.length = _
    omega
  tells t ht := by
    rcases List.mem_cons.mp ht with rfl | ht
    · rfl
    · exact h.tells t ht
  steps f hsize hacked hnext hunder := by
    have hlen : f.next < f.size := by
      rw [hsize, hnext]
      exact (List.getElem?_eq_some_iff.mp ha).1
    have hfirst := Step.item f poll hunder hlen (by rw [hacked, hnext]; exact hwin)
    refine .head hfirst ?_
    cases poll with
    | true =>
        obtain rfl := hpoll rfl
        have hcount : next = f.next + 1 := by simpa [hnext] using h.count
        simp only [hcount, List.map_cons, List.map_nil, Tag.out, hnext]
        exact .refl
    | false =>
        have hrest := h.steps { f with next := f.next + 1, out := f.out ++ [⟨some f.next, false⟩] }
          hsize hacked (by rw [hnext]) ?_
        · simpa [hnext, Tag.out] using hrest
        · rintro (⟨o, ho, hp⟩ | hback)
          · rcases List.mem_append.mp ho with ho | ho
            · exact hunder (.inl ⟨o, ho, hp⟩)
            · obtain rfl := List.mem_singleton.mp ho
              cases hp
          · exact hunder (.inr hback)

theorem sendFrames_stands (buffers : Nat) (h : Stands l own peer m)
    (hwin : l.pollSent = false → m.next < m.acked + l.linkWindow) :
    ∃ next tags, Stands (sendFrames port env buffers l).1 own peer { m with next := next } ∧
      Burst own m next (sendFrames port env buffers l).2 tags := by
  induction buffers generalizing l m with
  | zero => exact ⟨m.next, [], h, .none⟩
  | succ buffers ih =>
      by_cases hpoll : l.pollSent = true
      · rw [sendFrames_of_pollSent port env hpoll]
        exact ⟨m.next, [], h, .none⟩
      rw [sendFrames, if_neg hpoll]
      cases hslot : l.frames l.linkNs with
      | none => exact ⟨m.next, [], h, .none⟩
      | some a =>
          have hlt : m.next < m.acked + l.linkWindow := hwin (by simpa using hpoll)
          have hle := h.window_le
          obtain ⟨htop, ha⟩ := h.covers.get h.acked_le (by omega) (h.ns ▸ hslot)
          simp only
          -- the entry behind the frame, whatever the poll bit is
          generalize hp : (!l.ver1Flag && _) = poll
          have hstep : Stands { l with
              l2AckReq := 0
              l2SlotTim := port.t3 + env.jitter
              killTimer := 0
              linkNs := (l.linkNs + 1) % 8
              l2Timer := oneMinute
              pollSent := poll } own peer { m with next := m.next + 1 } :=
            { h with
              ns := by
                show (l.linkNs + 1) % 8 = (m.next + 1) % 8
                rw [h.ns, Nat.mod_add_mod]
              acked_le := h.acked_le.trans (Nat.le_succ _)
              next_le := htop
              in_window := by
                show m.next + 1 ≤ m.acked + 7
                omega }
          obtain ⟨next, tags, hnext, hburst⟩ := ih hstep fun hfalse => by
            have hfalse : poll = false := hfalse
            have hcount : _ = m.next + 1 - m.acked := outstanding_eq hstep.toMarked
            rw [← hp, h.version2] at hfalse
            have hno : ¬ l.linkWindow ≤ m.next + 1 - m.acked := by
              intro hle'
              rw [← hcount] at hle'
              simp [outstanding] at hfalse hle'
              omega
            show m.next + 1 < m.acked + l.linkWindow
            omega
          have hlast : poll = true → tags = [] := by
            rintro rfl
            have hnil := hburst.air
            rw [sendFrames_of_pollSent port env rfl] at hnil
            exact List.forall₂_nil_left_iff.mp hnil
          have hcons := hburst.cons ha (by omega) hlast
          rw [← h.nr, ← h.ns] at hcons
          exact ⟨next, _, hnext, hcons⟩

/-- `SDETX` sends a burst. -/
theorem sdEtx_stands (h : Stands l own peer m) :
    ∃ next top tags, Stands (sdEtx port env l).1 own peer { m with next := next, top := top } ∧
      Burst own m next (sdEtx port env l).2 tags := by
  rw [sdEtx]
  split_ifs with hstuck hfull
  · exact ⟨m.next, m.top, [], { h with waiting := fun h => by cases h }, .none⟩
  · exact ⟨m.next, m.top, [], h, .none⟩
  · rw [outstanding_eq h.toMarked] at hfull
    obtain ⟨top, htop, -, hwin⟩ := loadFrames_stands env h rfl
    obtain ⟨next, tags, hnext, hburst⟩ := sendFrames_stands port env env.buffers htop fun _ => by
        rw [hwin]
        show m.next < m.acked + l.linkWindow
        omega
    exact ⟨next, top, tags, hnext, { hburst with }⟩

theorem releaseFrames_eq (n : Nat) (l : DataLink α) : ∃ frames count ows retries,
    releaseFrames n l = { l with
      frames := frames, iFrameRetryCounter := count, linkOws := ows, l2Retries := retries } := by
  induction n generalizing l with
  | zero => exact ⟨_, _, _, _, rfl⟩
  | succ n ih =>
      obtain ⟨frames, count, ows, retries, heq⟩ := ih l.releaseOne
      exact ⟨frames, count, ows, retries, heq⟩

theorem releaseFrames_marked (n : Nat) (h : Marked l own peer m) (hn : m.acked + n ≤ m.next) :
    Marked (releaseFrames n l) own peer { m with acked := m.acked + n } := by
  induction n generalizing l m with
  | zero => exact h
  | succ n ih =>
      have hnext := h.next_le
      have hwin := h.in_window
      have hone : Marked l.releaseOne own peer { m with acked := m.acked + 1 } :=
        { h with
          ows := by
            show (l.linkOws + 1) % 8 = (m.acked + 1) % 8
            rw [h.ows, Nat.mod_add_mod]
          acked_le := by
            show m.acked + 1 ≤ m.next
            omega
          in_window := by
            show m.next ≤ m.acked + 1 + 7
            omega
          covers := by simpa only [releaseOne, h.ows] using h.covers.release (by omega) }
      have hrest := ih hone (by show m.acked + 1 + n ≤ m.next; omega)
      rwa [show m.acked + (n + 1) = m.acked + 1 + n by omega]

/-- `ACKMSG` brings the old window start up to the new one. -/
theorem ackMsg_stands {n : Nat} (h : Marked l own peer m)
    (hwait : l.l2State = 6 → l.rxFrames l.linkNr = none) (hws : l.linkWs = n % 8)
    (hacked : m.acked ≤ n) (hn : n ≤ m.next) :
    Stands (ackMsg port l) own peer { m with acked := n } := by
  have hwin := h.in_window
  have hturns : (l.linkWs + 8 - l.linkOws) % 8 = n - m.acked := by
    rw [hws, h.ows]
    omega
  have hmarked := releaseFrames_marked (n - m.acked) h (by omega)
  rw [show m.acked + (n - m.acked) = n by omega] at hmarked
  obtain ⟨frames, count, ows, retries, heq⟩ := releaseFrames_eq (n - m.acked) l
  rw [ackMsg, hturns]
  rw [heq] at hmarked ⊢
  simp only
  split_ifs with hall hmany hretry hdisc hdisc
  · exact { hmarked with ws := hws, waiting := fun h => by cases h }
  · exact { hmarked with ws := hws, waiting := hwait }
  · exact { hmarked with staying := rfl, ws := hws, waiting := fun h => by cases h }
  · exact { hmarked with ws := hws, waiting := hwait }
  · exact { hmarked with staying := rfl, ws := hws, waiting := fun h => by cases h }
  · exact { hmarked with ws := hws, waiting := hwait }

/-- An N(R) of the window is accepted by the test of `SDNRCHK`. -/
theorem nrValid_of_mem {n : Nat} (h : Stands l own peer m) (hacked : m.acked ≤ n)
    (hn : n ≤ m.next) :
    l.nrValid (n % 8) = true := by
  have hwin := h.in_window
  simp only [nrValid, h.ws, h.ns]
  split <;> simp only [Bool.or_eq_true, decide_eq_true_eq] <;> omega

theorem sdNrChk_stands {n ctl : Nat} (h : Stands l own peer m) (hnr : ctlNr ctl = n % 8)
    (hkind : ctl &&& 0xf ≠ ctlSREJ) (hacked : m.acked ≤ n) (hn : n ≤ m.next) :
    Stands (sdNrChk port ctl l) own peer { m with acked := n } := by
  rw [sdNrChk, hnr, if_pos (nrValid_of_mem h hacked hn), if_neg fun h => hkind h.1]
  exact ackMsg_stands port { h.toMarked with } h.waiting rfl hacked hn

/-! ## The receiver -/

theorem procIFrame_marked {a : α} (h : Marked l own peer m) (ha : peer[m.recv]? = some a)
    (hfree : l.rxFrames l.linkNr = none) :
    Marked (procIFrame port a l) own peer { m with recv := m.recv + 1 } := by
  rw [procIFrame, if_neg (by simp [h.staying])]
  exact
    { h with
      nr := by
        show (l.linkNr + 1) % 8 = (m.recv + 1) % 8
        rw [h.nr, Nat.mod_add_mod]
      saved := h.saved.advance (by rw [← h.nr, hfree]) (Nat.add_le_add_right (Nat.le_succ _) 7)
        (Nat.le_succ _)
      handed := by
        show l.rxQ ++ [a] = peer.take (m.recv + 1)
        rw [h.handed, List.take_add_one, ha, Option.toList_some] }

theorem procIFrame_fields (a : α) (l : DataLink α) :
    (procIFrame port a l).linkWs = l.linkWs ∧ (procIFrame port a l).l2State = l.l2State ∧
      (procIFrame port a l).rxFrames = l.rxFrames := by
  rw [procIFrame]
  split <;> exact ⟨rfl, rfl, rfl⟩

theorem eraseSaved_marked (h : Marked l own peer m) (n : Nat) :
    Marked { l with rxFrames := Function.update l.rxFrames n none } own peer m :=
  { h with saved := h.saved.erase n }

/-- The frames that were kept bring the entry up to the frame received, or to one that is
missing. -/
theorem checkNs_marked {k : Nat} (fuel : Nat) (h : Marked l own peer m) (hk : m.recv ≤ k)
    (hfuel : k ≤ m.recv + fuel) (hwin : k < m.recv + 8) :
    ∃ recv, m.recv ≤ recv ∧ recv ≤ k ∧
      Marked (checkNs port (k % 8) fuel l) own peer { m with recv := recv } ∧
      (checkNs port (k % 8) fuel l).linkWs = l.linkWs ∧
      (recv < k → (checkNs port (k % 8) fuel l).rxFrames
        (checkNs port (k % 8) fuel l).linkNr = none) := by
  induction fuel generalizing l m with
  | zero =>
      have heq : m.recv = k := by omega
      exact ⟨m.recv, le_rfl, hk, h, rfl, fun hlt => absurd heq hlt.ne⟩
  | succ fuel ih =>
      rw [checkNs]
      split_ifs with hns
      · rw [h.nr] at hns
        have heq : m.recv = k := by omega
        exact ⟨m.recv, le_rfl, hk, h, rfl, fun hlt => absurd heq hlt.ne⟩
      · cases hslot : l.rxFrames l.linkNr with
        | none => exact ⟨m.recv, le_rfl, hk, h, rfl, fun _ => hslot⟩
        | some a =>
            have hlt : m.recv < k := by
              rw [h.nr] at hns
              omega
            have ha := (h.saved.head (h.nr ▸ hslot)).2
            have hone := procIFrame_marked port (eraseSaved_marked h l.linkNr) ha (by simp)
            obtain ⟨recv, hle, hle', hmarked, hws, hfree⟩ := ih hone (by show m.recv + 1 ≤ k; omega)
              (by show k ≤ m.recv + 1 + fuel; omega) (by show k < m.recv + 1 + 8; omega)
            exact ⟨recv, Nat.le_of_succ_le hle, hle', hmarked,
              hws.trans (procIFrame_fields port a _).1, hfree⟩

/-- The next frame, at an entry that is not waiting for one and has no copy of it. -/
theorem procIFrame_stands {a : α} (h : Marked l own peer m) (hws : l.linkWs = m.acked % 8)
    (ha : peer[m.recv]? = some a) (hfree : l.rxFrames (m.recv % 8) = none) (h6 : l.l2State ≠ 6) :
    Stands (procIFrame port a l) own peer { m with recv := m.recv + 1 } := by
  obtain ⟨hws', hstate, -⟩ := procIFrame_fields port a l
  exact
    { procIFrame_marked port h ha (h.nr ▸ hfree) with
      ws := hws'.trans hws
      waiting := fun h => absurd (hstate ▸ h) h6 }

theorem inSeq_stands {a : α} (h : Marked l own peer m) (hws : l.linkWs = m.acked % 8)
    (ha : peer[m.recv]? = some a) :
    Stands (inSeq port (m.recv % 8) a l) own peer { m with recv := m.recv + 1 } := by
  have herase := eraseSaved_marked h (m.recv % 8)
  rw [inSeq]
  split
  · exact procIFrame_stands port { herase with } hws ha (Function.update_self ..) (by simp)
  next h6 =>
    -- without SREJ the wait always ends here
    exact procIFrame_stands port herase hws ha (Function.update_self ..)
      fun hc => h6 ⟨hc, by simp [h.noSrej]⟩

theorem outOfSeq_stands {k : Nat} {a : α} (h : Marked l own peer m) (hws : l.linkWs = m.acked % 8)
    (hk : m.recv < k) (hwin : k < m.recv + 7) (ha : peer[k]? = some a)
    (hfree : l.rxFrames l.linkNr = none) :
    Stands (outOfSeq port (k % 8) a l) own peer m :=
  { h with
    saved := h.saved.put hk.le hwin ha
    ws := hws
    waiting := fun _ => by
      show Function.update l.rxFrames (k % 8) (some a) l.linkNr = none
      have hne : l.linkNr ≠ k % 8 := by
        rw [h.nr]
        omega
      rw [Function.update_of_ne hne, hfree] }

/-! ## Answers and polls -/

/-- What an end sends that is not an I frame: nothing, or one response, final only if it may be. -/
def Answers (m : Marks) (mayFinal : Prop) (out : List (LinkFrame α)) : Prop :=
  out = [] ∨ ∃ kind pf, PlainKind kind ∧ (pf = true → mayFinal) ∧
    out = [⟨sCtl kind (m.recv % 8) pf, .resp, none⟩]

/-- What a timer sends: nothing, a response that is not final, or a poll. -/
def TimerSends (m : Marks) (out : List (LinkFrame α)) : Prop :=
  Answers m False out ∨ ∃ kind, PlainKind kind ∧ out = [⟨sCtl kind (m.recv % 8) true, .cmd, none⟩]

theorem Answers.nil {mayFinal : Prop} : Answers m mayFinal ([] : List (LinkFrame α)) := .inl rfl

theorem Answers.mono {mayFinal mayFinal' : Prop} {out : List (LinkFrame α)}
    (h : Answers m mayFinal out) (himp : mayFinal → mayFinal') : Answers m mayFinal' out := by
  rcases h with h | ⟨kind, pf, hkind, hpf, h⟩
  · exact .inl h
  · exact .inr ⟨kind, pf, hkind, fun hp => himp (hpf hp), h⟩

/-- While it waits an end has no frame to process from its store, so the loop of `RR_OR_RNR` does
nothing. -/
theorem rrOrRnr_stands (cmd : Bool) (h : Stands l own peer m) :
    Stands (rrOrRnr port env cmd l).1 own peer m ∧ PlainKind (rrOrRnr port env cmd l).2 := by
  rw [rrOrRnr]
  split
  · exact ⟨{ h with }, .inr (.inl rfl)⟩
  split
  next h6 =>
    have hnone : l.rxFrames l.linkNr = none := h.waiting h6
    have hsaved : processSaved port 8 { l with rnrSent := false } =
        { l with rnrSent := false } := by
      rw [processSaved]
      simp only [hnone]
    simp only [hsaved]
    rw [if_pos h6]
    refine ⟨{ h with }, .inr (.inr ?_)⟩
    simp [h.noSrej]
  · exact ⟨{ h with }, .inl rfl⟩

theorem sendRrResp_stands (pf : Bool) (h : Stands l own peer m) :
    Stands (sendRrResp port env pf l).1 own peer m ∧
      Answers m (pf = true) (sendRrResp port env pf l).2 := by
  obtain ⟨hr, hkind⟩ := rrOrRnr_stands port env false h
  refine ⟨?_, .inr ⟨_, pf, hkind, id, by rw [sendRrResp, hr.nr]⟩⟩
  exact ackMsg_stands port { hr.toMarked with } hr.waiting hr.ws le_rfl h.acked_le

/-- The answer to an I frame. -/
theorem checkPf_stands {ctl : Nat} (h : Stands l own peer m) :
    Stands (checkPf port env ctl l).1 own peer m ∧
      Answers m (ctlPf ctl = true) (checkPf port env ctl l).2 := by
  rw [checkPf]
  split
  · exact ⟨h, .nil⟩
  split
  next hpf =>
    have hclear : Stands (if l.l2State = 6 then { l with rejSent := true }
        else { l with rxFrames := fun _ => none }) own peer m := by
      split
      · exact { h with }
      · exact { h with saved := .empty (by omega), waiting := fun _ => rfl }
    obtain ⟨hs, ha⟩ := sendRrResp_stands port env true
      (l := { (if l.l2State = 6 then { l with rejSent := true }
        else { l with rxFrames := fun _ => none }) with l2AckReq := 0 }) { hclear with }
    refine ⟨{ hs with }, ?_⟩
    rw [hpf]
    exact ha
  · split
    · obtain ⟨hs, ha⟩ := sendRrResp_stands port env false h
      exact ⟨hs, ha.mono fun h => by cases h⟩
    · exact ⟨h, .nil⟩

/-- `SDIFRM` with the I frame numbered `k`, which this end may not have yet. -/
theorem takeIFrame_stands {k ctl : Nat} {a : α} (h : Stands l own peer m) (hns : ctlNs ctl = k % 8)
    (hk : m.recv ≤ k) (hwin : k < m.recv + 7) (ha : peer[k]? = some a) :
    ∃ recv, m.recv ≤ recv ∧ recv ≤ k + 1 ∧
      Stands (takeIFrame port env ctl a l).1 own peer { m with recv := recv } ∧
      Answers { m with recv := recv } (ctlPf ctl = true) (takeIFrame port env ctl a l).2 := by
  -- the frame before the next one cannot come again
  have hpoll : ¬ ((k % 8 + 1) % 8 = l.linkNr ∧ ctlPf ctl = true) := by
    rw [h.nr]
    omega
  rw [takeIFrame]
  simp only [hns]
  rw [if_neg hpoll]
  obtain ⟨recv, hle, hle', hmarked, hws, hfree⟩ := checkNs_marked port 8 h.toMarked hk
    (by omega) (by omega)
  have hws' := hws.trans h.ws
  rcases hle'.lt_or_eq with hlt | rfl
  · have hne : k % 8 ≠ (checkNs port (k % 8) 8 l).linkNr := by
      rw [hmarked.nr]
      show k % 8 ≠ recv % 8
      omega
    rw [if_neg hne]
    have hs := outOfSeq_stands port hmarked hws' hlt
      (by show k < recv + 7; omega) ha (hfree hlt)
    exact ⟨recv, hle, by omega, checkPf_stands port env hs⟩
  · have heq : recv % 8 = (checkNs port (recv % 8) 8 l).linkNr := hmarked.nr.symm
    rw [if_pos heq]
    have hs := inSeq_stands port hmarked hws' ha
    exact ⟨recv + 1, by omega, le_rfl, checkPf_stands port env hs⟩

/-- A command is answered; a response with F to a poll starts the sender again from what has been
acknowledged. -/
theorem treatAsRR_stands {ctl : Nat} (flag : MsgFlag) (h : Stands l own peer m)
    (hnr : ctlNr ctl = m.acked % 8) :
    ∃ again : Bool, (again = true → flag ≠ .cmd ∧ ctlPf ctl = true) ∧
      Stands (treatAsRR port env ctl flag l).1 own peer
        { m with next := if again then m.acked else m.next } ∧
      Answers m (flag = .cmd) (treatAsRR port env ctl flag l).2 := by
  rw [treatAsRR]
  split
  next hcmd =>
    refine ⟨false, by simp, ?_⟩
    split
    · exact ⟨{ h with }, .nil⟩
    · obtain ⟨hr, hkind⟩ := rrOrRnr_stands port env false
        (l := { l with rnrSet := decide (ctl &&& 0xf = ctlRNR) }) { h with }
      refine ⟨{ hr with }, .inr ⟨_, true, hkind, fun _ => hcmd, ?_⟩⟩
      simp only [hr.nr]
  next hcmd =>
    split
    · exact ⟨false, by simp, { h with }, .nil⟩
    next hpf =>
      have hpf : ctlPf ctl = true := by
        by_contra hno
        exact hpf ⟨by simpa using hno, h.version2⟩
      have hagain : Stands { (resetNs (ctlNr ctl) l) with l2Retries := 0, l2Timer := 0 } own peer
          { m with next := m.acked } :=
        { h with
          ns := hnr
          acked_le := le_rfl
          next_le := h.acked_le.trans h.next_le
          in_window := Nat.le_add_right _ _ }
      by_cases hpoll : l.pollSent = true
      · refine ⟨true, fun _ => ⟨hcmd, hpf⟩, ?_, .nil⟩
        simp only [hpoll, if_true]
        split <;> exact { hagain with }
      · refine ⟨false, by simp, ?_, .nil⟩
        simp only [hpoll]
        split <;> exact { h with }

theorem sFrame_stands {n ctl : Nat} (flag : MsgFlag) (h : Stands l own peer m)
    (hnr : ctlNr ctl = n % 8) (hkind : ctl &&& 0xf ≠ ctlSREJ) (hacked : m.acked ≤ n)
    (hn : n ≤ m.next) :
    ∃ again : Bool, (again = true → flag ≠ .cmd ∧ ctlPf ctl = true) ∧
      Stands (sFrame port env ctl flag l).1 own peer
        { m with acked := n, next := if again then n else m.next } ∧
      Answers m (flag = .cmd) (sFrame port env ctl flag l).2 := by
  have hs := sdNrChk_stands port h hnr hkind hacked hn
  rw [sFrame, if_neg (by simp [h.accepted])]
  simp only
  rw [if_neg (by simp [hs.accepted]), if_neg fun hc => hkind hc.1]
  exact treatAsRR_stands port env flag hs hnr

/-- What a frame from the other end does: the entry ignores it, because the session is not up here
any more, or hears what it acknowledges and takes its item. -/
theorem l2Process_stands {f : LinkFrame α} {t : Tag} (h : Stands l own peer m)
    (hf : Carries peer f t)
    (hitem : ∀ k, t.item = some k → m.recv ≤ k ∧ k < m.recv + 7)
    (hup : m.acked ≤ t.upTo ∧ t.upTo ≤ m.next) :
    (Stands (l2Process port env f l).1 own peer m ∧ (l2Process port env f l).2 = []) ∨
    ∃ recv, ∃ again : Bool, (again = true → t.final = true) ∧ m.recv ≤ recv ∧
      (recv = m.recv ∨ ∃ k, t.item = some k ∧ recv ≤ k + 1) ∧
      Stands (l2Process port env f l).1 own peer
        { m with acked := t.upTo, next := if again then t.upTo else m.next, recv := recv } ∧
      Answers { m with recv := recv } (t.poll = true) (l2Process port env f l).2 := by
  have htimer : Stands (if f.flag ≠ .cmd ∧ (ctlPf f.ctl = true ∨ l.ver1Flag = true) then
      { l with l2Timer := 0 } else l) own peer m := by
    split
    · exact { h with }
    · exact h
  rw [l2Process]
  generalize (if f.flag ≠ .cmd ∧ (ctlPf f.ctl = true ∨ l.ver1Flag = true) then
      { l with l2Timer := 0 } else l) = l' at htimer ⊢
  split
  · exact .inl ⟨htimer, rfl⟩
  right
  cases hf with
  | info k n poll a ha =>
      obtain ⟨hnr, hns, hpf, hctl, hkind⟩ :=
        iCtl_fields (n % 8) (Nat.mod_lt _ (by decide)) (k % 8) (Nat.mod_lt _ (by decide)) poll
      have hs := sdNrChk_stands port htimer hnr hkind hup.1 hup.2
      obtain ⟨recv, hle, hle', hrecv, hans⟩ := takeIFrame_stands port env hs hns
        (hitem k rfl).1 (hitem k rfl).2 ha
      refine ⟨recv, false, by simp, hle, .inr ⟨k, rfl, hle'⟩, ?_⟩
      simp only [hctl, if_true, sdIFrm]
      rw [if_neg (by simp [htimer.accepted]), if_neg (by simp [hs.accepted])]
      rw [hpf] at hans
      exact ⟨hrecv, hans⟩
  | command kind n hkind =>
      obtain ⟨hnr, -, hctl, hsrej⟩ := sCtl_fields hkind (n % 8) (Nat.mod_lt _ (by decide)) true
      obtain ⟨again, hagain, hs, hans⟩ :=
        sFrame_stands port env .cmd htimer hnr hsrej hup.1 hup.2
      have hno : again = false := by
        by_contra hyes
        exact (hagain (by simpa using hyes)).1 rfl
      refine ⟨m.recv, false, by simp, le_rfl, .inl rfl, ?_⟩
      simp only [hctl, if_true]
      rw [hno] at hs
      exact ⟨hs, hans.mono fun _ => trivial⟩
  | response kind n final hkind =>
      obtain ⟨hnr, hpf, hctl, hsrej⟩ := sCtl_fields hkind (n % 8) (Nat.mod_lt _ (by decide)) final
      obtain ⟨again, hagain, hs, hans⟩ :=
        sFrame_stands port env .resp htimer hnr hsrej hup.1 hup.2
      refine ⟨m.recv, again, fun h => hpf ▸ (hagain h).2, le_rfl, .inl rfl, ?_⟩
      simp only [hctl, if_true]
      exact ⟨hs, hans.mono fun h => by cases h⟩

/-! ## Timers -/

theorem sendSupervisCmd_stands (h : Stands l own peer m) :
    Stands (sendSupervisCmd port env l).1 own peer m ∧
      TimerSends m (sendSupervisCmd port env l).2 := by
  rw [sendSupervisCmd, if_neg (by simp [h.version2])]
  obtain ⟨hr, hkind⟩ := rrOrRnr_stands port env true (l := { l with l2AckReq := 0 }) { h with }
  exact ⟨{ hr with }, .inr ⟨_, hkind, by simp [hr.nr]⟩⟩

theorem l2Timeout_stands (h : Stands l own peer m) :
    Stands (l2Timeout port env l).1 own peer m ∧ TimerSends m (l2Timeout port env l).2 := by
  rw [l2Timeout]
  split
  · exact ⟨h, .inl .nil⟩
  simp only
  split
  · exact ⟨{ h with waiting := fun h => by cases h }, .inl .nil⟩
  · exact sendSupervisCmd_stands port env { h with }

theorem idleTimers_stands (h : Stands l own peer m) :
    Stands (idleTimers port env l).1 own peer m ∧ TimerSends m (idleTimers port env l).2 := by
  have hwait : (if l.rejTimer = 1 ∧ l.l2State = 6 then 5 else l.l2State) = 6 →
      l.rxFrames l.linkNr = none := by
    split
    · simp
    · exact h.waiting
  rw [idleTimers]
  simp only
  split
  · exact sendSupervisCmd_stands port env { h with waiting := hwait }
  split
  · exact ⟨{ h with waiting := fun h => by cases h }, .inl .nil⟩
  · exact ⟨{ h with waiting := hwait }, .inl .nil⟩

theorem l2TimerProc_stands (h : Stands l own peer m) :
    Stands (l2TimerProc port env l).1 own peer m ∧ TimerSends m (l2TimerProc port env l).2 := by
  rw [l2TimerProc]
  simp only
  split
  · exact l2Timeout_stands port env { h with }
  split
  · obtain ⟨hr, -⟩ := rrOrRnr_stands port env false (l := { l with l2Timer := l.l2Timer - 1 })
      { h with }
    split
    · exact idleTimers_stands port env hr
    split
    · exact sendSupervisCmd_stands port env { hr with }
    · exact idleTimers_stands port env { hr with }
  split
  · split
    · obtain ⟨hs, hans⟩ := sendRrResp_stands port env false
        (l := { l with l2Timer := l.l2Timer - 1, l2AckReq := 0 }) { h with }
      exact ⟨hs, .inl (hans.mono fun h => by cases h)⟩
    · exact idleTimers_stands port env { h with }
  · exact idleTimers_stands port env { h with }

end DataLink

end FlexNet
