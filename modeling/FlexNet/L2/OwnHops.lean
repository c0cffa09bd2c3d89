import FlexNet.L2.Circuits
import FlexNet.Path.Answers
import FlexNet.Lib.Runs

/-!
# Hops that were added

A run of L2 forwarding: frames, one after the other, while everything but the circuit table may
change in between.  `L2Table.history` ties the pins of a circuit to the frames that were extended on
it since it was made; from it, `removes_own_hops`: a hop is taken out of a frame only when an
earlier frame of the same pair got it from the node.
-/

namespace FlexNet

open Runs L2Circuit

/-- A frame with the node as it arrives, less the circuit table. -/
structure L2Input where
  node : L2Node
  port : ℕ
  frame : L2Frame
  our : ℕ

namespace L2Table

variable {t t' : L2Table} {x y : L2Input} {xs ys zs : List L2Input} {i : L2Slot} {hop : AxCall}

/-- The node with the circuit table. -/
def node (t : L2Table) (x : L2Input) : L2Node := { x.node with circuits := t }

/-- The table after a frame. -/
def step (t : L2Table) (x : L2Input) : L2Table :=
  ((t.node x).flexNetL2Transit x.port x.frame x.our).1.circuits

/-- What becomes of the frame. -/
def result (t : L2Table) (x : L2Input) : Option L2Out :=
  ((t.node x).flexNetL2Transit x.port x.frame x.our).2

/-- The table at the start. -/
def empty : L2Table := fun _ => {}

theorem fate (t : L2Table) (x : L2Input) :
    L2Node.L2Fate (t.node x) x.port x.frame x.our (t.step x) (t.result x) :=
  (t.node x).flexNetL2Transit_fate x.port x.frame x.our

/-- A frame got a hop, on the circuit in a slot. -/
structure ExtendedAt (t : L2Table) (x : L2Input) (i : L2Slot) (hop : AxCall) : Prop where
  result : ∃ f' toPort, t.result x = some ⟨f', x.our, toPort⟩ ∧ x.frame.appendDigi hop = some f'
  active : (t.step x i).active = true
  user : (t.step x i).user.same x.frame.origin.toAxCall = true
  dest : (t.step x i).dest.same x.frame.dest.toAxCall = true
  port : (t.step x i).port = x.port

/-- A frame leaves the circuit in a slot where it is. -/
def KeepsAt (i : L2Slot) (t : L2Table) (x : L2Input) : Prop :=
  Keeps x.node.now (t i) (t.step x i)

/-- A frame of the run got the hop on the circuit in the slot, and the circuit has been there
since. -/
def Since (xs : List L2Input) (t : L2Table) (y : L2Input) (i : L2Slot) (hop : AxCall) : Prop :=
  ∃ ys zs t₀, xs = ys ++ y :: zs ∧ Run step empty ys t₀ ∧ ExtendedAt t₀ y i hop ∧
    GuardedRun step (KeepsAt i) (t₀.step y) zs t

/-- The key of a circuit stays as long as the circuit is there. -/
theorem key_kept (h : GuardedRun step (KeepsAt i) t zs t') :
    (t' i).user = (t i).user ∧ (t' i).dest = (t i).dest ∧ (t' i).port = (t i).port := by
  induction h with
  | start => exact ⟨rfl, rfl, rfl⟩
  | step x _ hkeeps ih =>
      exact ⟨hkeeps.user.trans ih.1, hkeeps.dest.trans ih.2.1, hkeeps.port.trans ih.2.2⟩

theorem Since.step (h : Since xs t y i hop) (hkeeps : KeepsAt i t x) :
    Since (xs ++ [x]) (t.step x) y i hop := by
  obtain ⟨ys, zs, t₀, rfl, hrun, hext, hkept⟩ := h
  exact ⟨ys, zs ++ [x], t₀, by simp, hrun, hext, hkept.step x hkeeps⟩

/-- The pins of a circuit. -/
def IsPin (e : L2Circuit) (hop : AxCall) : Prop :=
  hop.isEmpty = false ∧ (hop = e.appended ∨ hop = e.prevAppended)

/-- A frame was extended on the circuit in a slot, or was not. -/
theorem stays_or_extended (t : L2Table) (x : L2Input) (i : L2Slot) :
    Stays x.node.now (t i) (t.step x i) ∨ ∃ hop, ExtendedAt t x i hop ∧
      Extended x.node.now x.frame.origin.toAxCall x.frame.dest.toAxCall x.port hop (t i)
        (t.step x i) := by
  have hfate := t.fate x
  generalize hr : t.result x = r at hfate
  generalize ht : t.step x = t' at hfate ⊢
  cases hfate with
  | looped table => exact .inl (table i)
  | passed _ table => exact .inl (table i)
  | contracted _ _ _ _ _ _ _ table => exact .inl (table i)
  | extended toPort j hop f' _ _ happend hext hothers =>
      by_cases hij : i = j
      · subst hij ht
        exact .inr ⟨hop, ⟨⟨f', toPort, hr, happend⟩, hext.active, hext.user, hext.dest, hext.port⟩,
          hext⟩
      · exact .inl (hothers i hij)

/-- A pin that a frame has left, or put there. -/
theorem pin_step (hactive : (t.step x i).active = true) (hpin : IsPin (t.step x i) hop) :
    (KeepsAt i t x ∧ IsPin (t i) hop) ∨ ExtendedAt t x i hop := by
  obtain ⟨hnamed, hpin⟩ := hpin
  rcases t.stays_or_extended x i with hstays | ⟨hop', hat, hext⟩
  · rcases hstays hactive with ⟨hkeeps, happended, hprev⟩ | ⟨-, happended, hprev⟩
    · rw [happended, hprev] at hpin
      exact .inl ⟨hkeeps, hnamed, hpin⟩
    · rw [happended, hprev, or_self] at hpin
      subst hpin
      cases hnamed
  · rcases hpin with rfl | rfl
    · rw [hext.pin]
      exact .inr hat
    · rcases hext.prev with ⟨hkeeps, hprev⟩ | ⟨-, hprev⟩
      · refine .inl ⟨hkeeps, hnamed, ?_⟩
        rw [hprev]
        split
        · exact .inr rfl
        · exact .inl rfl
      · rw [hprev] at hnamed
        cases hnamed

/-- In every run: each pin of a circuit was put behind the node in a frame of the circuit's pair,
and the circuit has been there since. -/
theorem history (hrun : Run step empty xs t) (hactive : (t i).active = true)
    (hpin : IsPin (t i) hop) :
    ∃ y, Since xs t y i hop := by
  induction hrun with
  | start => cases hactive
  | @step xs t x hprev _ ih =>
      rcases pin_step hactive hpin with ⟨hkeeps, hold⟩ | hext
      · obtain ⟨y, hsince⟩ := ih hkeeps.before hold
        exact ⟨y, hsince.step hkeeps⟩
      · exact ⟨x, xs, [], t, rfl, hprev, hext, .start⟩

/-- The hop before the node came with a frame of the reverse pair, on a circuit that is still
there. -/
def Owned (xs : List L2Input) (t : L2Table) (x : L2Input) (prev : L2Addr) : Prop :=
  prev.repeated = true ∧ x.frame.digis[x.our - 1]? = some prev ∧ 1 ≤ x.our ∧
    ∃ y i hop, Since xs t y i hop ∧ prev.toAxCall.same hop = true ∧
      y.frame.origin.toAxCall.same x.frame.dest.toAxCall = true ∧
      y.frame.dest.toAxCall.same x.frame.origin.toAxCall = true

theorem same_iff {a b : AxCall} :
    a.same b = true ↔ a.call = b.call ∧ a.ssid &&& 0x1E = b.ssid &&& 0x1E := by
  simp [AxCall.same]

theorem same_trans {a b c : AxCall} (h : a.same b = true) (h' : a.same c = true) :
    b.same c = true := by
  rw [same_iff] at *
  exact ⟨h.1.symm.trans h'.1, h.2.symm.trans h'.2⟩

/-- A frame keeps its digipeaters, or loses the one before the node, which the node had added. -/
theorem kept_or_own (hrun : Run step empty xs t) {out : L2Out} (hout : t.result x = some out) :
    x.frame.digis <+: out.frame.digis ∨ ∃ prev, Owned xs t x prev ∧
      out.frame = x.frame.removeDigi (x.our - 1) ∧ out.our = x.our - 1 := by
  have hfate := t.fate x
  rw [hout] at hfate
  cases hfate with
  | passed toPort _ => exact .inl (List.prefix_refl _)
  | contracted toPort i prev hour hprev hfound hhop _ =>
      refine .inr ⟨prev, ?_, rfl, rfl⟩
      have hreturns := List.find?_some hfound
      simp only [returns, Bool.and_eq_true, bne_iff_ne] at hreturns
      obtain ⟨⟨⟨⟨hactive, hlive⟩, huser⟩, hdest⟩, -⟩ := hreturns
      simp only [isOurHop, Bool.and_eq_true, Bool.or_eq_true, Bool.not_eq_true'] at hhop
      obtain ⟨hrepeated, hsame⟩ := hhop
      obtain ⟨hop, hpin, hsame⟩ : ∃ hop, IsPin (t i) hop ∧ prev.toAxCall.same hop = true := by
        rcases hsame with ⟨hnamed, hsame⟩ | ⟨hnamed, hsame⟩
        · exact ⟨_, ⟨hnamed, .inl rfl⟩, hsame⟩
        · exact ⟨_, ⟨hnamed, .inr rfl⟩, hsame⟩
      obtain ⟨y, ys, zs, t₀, hxs, hprevrun, hext, hkept⟩ := history hrun hactive hpin
      obtain ⟨hu, hd, -⟩ := key_kept hkept
      refine ⟨hrepeated, hprev, hour, y, i, hop, ⟨ys, zs, t₀, hxs, hprevrun, hext, hkept⟩, hsame,
        ?_, ?_⟩
      · have hthen := hext.user
        rw [← hu] at hthen
        exact same_trans hthen huser
      · have hthen := hext.dest
        rw [← hd] at hthen
        exact same_trans hthen hdest
  | extended toPort i hop f' _ _ happend _ _ =>
      refine .inl ?_
      obtain rfl := L2Frame.appendDigi_some happend
      exact List.prefix_append _ _

/-- In every run: a frame that loses a digipeater loses the one before the node, which was repeated,
and which a frame of the reverse pair had got from the node on a circuit that has been there since;
where no frame had, the digipeaters stay. -/
theorem removes_own_hops (hrun : Run step empty xs t) {out : L2Out} (hout : t.result x = some out) :
    (out.frame.digis.length < x.frame.digis.length → ∃ prev, Owned xs t x prev ∧
      out.frame = x.frame.removeDigi (x.our - 1) ∧ out.our = x.our - 1) ∧
    ((∀ prev, ¬ Owned xs t x prev) → x.frame.digis <+: out.frame.digis) := by
  have hcases := kept_or_own hrun hout
  constructor
  · intro hlost
    rcases hcases with hkept | hown
    · have hlen := hkept.length_le
      omega
    · exact hown
  · intro hnone
    rcases hcases with hkept | ⟨prev, hown, -⟩
    · exact hkept
    · exact absurd hown (hnone prev)

end L2Table

/-! ### A frame and its answer -/

namespace Bench

/-- The small node, with digipeating on its ports. -/
def digipeater : L2Node :=
  { PathNode.small with flexPorts := [], digiFlag := fun _ => some 1 }

/-- The address of a call of one letter. -/
def hopAddr (letter : UInt8) : L2Addr := .ofCall (addr letter)

/-- `U` connects to `K` over `X` and the node, which adds `A`. -/
def opening : L2Input :=
  ⟨digipeater, 1,
    ⟨hopAddr 0x4B, hopAddr 0x55, [(hopAddr 0x58).setRepeated, hopAddr 0x4E], [0x3F]⟩, 1⟩

/-- `K` answers over the chain it saw. -/
def answering : L2Input :=
  ⟨digipeater, 1, ⟨hopAddr 0x55, hopAddr 0x4B,
    [(hopAddr 0x41).setRepeated, hopAddr 0x4E, hopAddr 0x58], [0x73]⟩, 1⟩

/-- The answer as the node sends it on. -/
def answered : L2Out :=
  ⟨⟨hopAddr 0x55, hopAddr 0x4B, [hopAddr 0x4E, hopAddr 0x58], [0x73]⟩, 0, 0⟩

set_option maxRecDepth 10000 in
/-- `A` is taken out of the answer. -/
theorem removes_own_hops_answer : ∃ prev,
    L2Table.Owned [opening] (L2Table.empty.step opening) answering prev ∧
      answered.frame = answering.frame.removeDigi 0 ∧ answered.our = 0 :=
  have hrun : Run L2Table.step L2Table.empty [opening] (L2Table.empty.step opening) :=
    .step opening .start trivial
  have hout : (L2Table.empty.step opening).result answering = some answered := by decide +kernel
  (L2Table.removes_own_hops hrun hout).1 (by decide)

end Bench

end FlexNet
