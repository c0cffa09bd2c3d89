import FlexNet.L2.Pairs

/-!
# Replies and their circuits

A circuit's history is the hop it was extended with last and the one that hop replaced
(`L2Table.PinHistory`).  `L2Table.reply_undone_iff`: a reply with one of the two hops before the
node is taken back to the port the circuit came from, less the hop, exactly when the search for
returning frames comes to the circuit: it leaves, or left, on the port of the reply, and no earlier
slot holds a circuit of the pair that does.  The search stops at the first such circuit and does not
look at the hop.
-/

namespace FlexNet

open Runs L2Circuit

/-! ## The port of a returning frame -/

namespace L2Node

variable {n : L2Node} {port our : ℕ} {f : L2Frame} {kind : L2Kind} {i : L2Slot}

theorem l2FindRev_some {user dest : AxCall} (h : n.l2FindRev user dest port = some i) :
    (n.circuits i).returns n.now user dest port = true :=
  List.find?_some (p := fun i => (n.circuits i).returns n.now user dest port) h

/-- What holds of a circuit that returning frames find. -/
theorem returns_iff {e : L2Circuit} {now : ℤ} {user dest : AxCall} :
    e.returns now user dest port = true ↔ e.active = true ∧ e.state now ≠ .expired ∧
      e.user.same user = true ∧ e.dest.same dest = true ∧
      (e.outEff = port ∨ (e.prevAppended.isEmpty = false ∧ e.prevOutPort = port)) := by
  simp [returns, and_assoc]

theorem withPort_eq (n : L2Node) (port : ℕ) (f : L2Frame) (our : ℕ) :
    (n.withPort port f our).2 = some ⟨f, our, (n.flexL2ChoosePort port f our).2⟩ :=
  rfl

/-- A frame of a circuit that is found leaves on the port the circuit came from. -/
theorem chosen_port (hcross : n.cfg.crossportActive = true)
    (hrev : n.l2FindRev f.dest.toAxCall f.origin.toAxCall port = some i)
    (hport : (n.circuits i).port ≠ 0) (hdigi : n.digiFlag port ≠ some 0)
    (hexists : n.digiFlag (n.circuits i).port ≠ none) :
    (n.flexL2ChoosePort port f our).2 =
      if (n.circuits i).port = port then 0 else (n.circuits i).port := by
  obtain ⟨-, hlive, -⟩ := returns_iff.mp (l2FindRev_some hrev)
  have hsame : ((n.l2Find f.origin.toAxCall f.dest.toAxCall port false).1.circuits i) =
      n.circuits i := by
    rcases (l2Find_entry n port f).1 i with heq | ⟨hexpired, -⟩
    · exact heq
    · exact absurd hexpired hlive
  have hflags :
      (n.l2Find f.origin.toAxCall f.dest.toAxCall port false).1.digiFlag = n.digiFlag := rfl
  unfold flexL2ChoosePort
  dsimp only
  rw [hcross, Bool.true_or, Bool.true_or, Bool.true_or, if_neg (by simp), hrev]
  generalize n.l2Find f.origin.toAxCall f.dest.toAxCall port false = found at hsame hflags
  obtain ⟨m, fwd⟩ := found
  dsimp only at hsame hflags ⊢
  have hout : ∀ fwdOut extPort peerPort,
      flexL2OutPort port (m.circuits i).port fwdOut extPort peerPort = (n.circuits i).port := by
    intro fwdOut extPort peerPort
    rw [hsame, flexL2OutPort, if_pos hport]
  simp only [Option.elim_some, hout, hflags]
  split_ifs with harrive hnone
  · rfl
  · exact absurd hnone (not_or_intro hdigi hexists)
  · rfl

/-- The first slot stays the first. -/
theorem find_first {l : List L2Slot} {p p' : L2Slot → Bool} (h : l.find? p = some i)
    (hi : p' i = true) (hother : ∀ j, j ≠ i → p' j = p j) : l.find? p' = some i := by
  induction l with
  | nil => cases h
  | cons j l ih =>
      rw [List.find?_cons] at h ⊢
      by_cases hj : j = i
      · subst hj
        rw [hi]
      · rw [hother j hj]
        cases hp : p j with
        | true =>
            rw [hp] at h
            exact absurd (Option.some.inj h) hj
        | false =>
            rw [hp] at h
            exact ih h

/-- The circuit of a contracted frame is found again. -/
theorem l2FindRev_used {user dest : AxCall} (hrev : n.l2FindRev user dest port = some i) :
    (n.setCircuit i ((n.circuits i).used kind n.now)).l2FindRev user dest port = some i := by
  obtain ⟨hactive, hlive, huser, hdest, hout⟩ := returns_iff.mp (l2FindRev_some hrev)
  unfold l2FindRev flexL2FindRev at hrev ⊢
  refine find_first hrev ?_ fun j hj => ?_
  · rw [show (n.setCircuit i ((n.circuits i).used kind n.now)).circuits i =
      (n.circuits i).used kind n.now from Function.update_self _ _ _]
    have hused := @state_used _ _ kind hlive
    obtain ⟨closing, closedAt, heq, -⟩ := used_eq (n.circuits i) kind n.now
    rw [heq] at hused ⊢
    exact returns_iff.mpr ⟨hactive, hused, huser, hdest, hout⟩
  · rw [show (n.setCircuit i ((n.circuits i).used kind n.now)).circuits j = n.circuits j from
      Function.update_of_ne hj _ _]
    rfl

/-- A well-formed frame with a hop before the node, on a node that carries frames across ports. -/
structure Carried (n : L2Node) (port : ℕ) (f : L2Frame) (our : ℕ) : Prop where
  crossport : n.cfg.crossportActive = true
  short : f.digis.length ≤ l2MaxDigis
  control : f.tail ≠ []
  after : 1 ≤ our
  ours : our < f.digis.length

/-- It is first looked at for a hop of the node. -/
theorem transit_contracts (h : n.Carried port f our)
    (hrev : n.l2FindRev f.dest.toAxCall f.origin.toAxCall port = some i) {prev : L2Addr}
    (hprev : f.digis[our - 1]? = some prev) (hhop : (n.circuits i).isOurHop prev = true) :
    ∃ kind, n.flexNetL2Transit port f our =
      (n.setCircuit i ((n.circuits i).used kind n.now)).withPort port (f.removeDigi (our - 1))
        (our - 1) := by
  obtain ⟨ctl, tail, htail⟩ := List.exists_cons_of_ne_nil h.control
  obtain ⟨us, hours⟩ : ∃ us, f.digis[our]? = some us := ⟨_, List.getElem?_eq_getElem h.ours⟩
  have hcross := h.crossport
  simp only [Config.crossportActive, Bool.and_eq_true] at hcross
  have hcarries : n.l2Carries port f = true := by
    have htwo : 2 ≤ f.digis.length := by
      have hafter := h.after
      have hlt := h.ours
      omega
    simp [l2Carries, htwo]
  refine ⟨flexL2CtlKind ctl, ?_⟩
  unfold flexNetL2Transit
  dsimp only
  rw [hcross.1.2, hcross.2, if_neg (by simp), hcarries, if_neg (by simp), htail, hours]
  dsimp only [List.head?_cons]
  rw [if_neg (not_lt.mpr h.short), if_pos h.after]
  have hcontract : n.flexL2Contract port f our (flexL2CtlKind ctl) =
      (n.setCircuit i ((n.circuits i).used (flexL2CtlKind ctl) n.now),
        some (f.removeDigi (our - 1), our - 1)) := by
    unfold flexL2Contract
    rw [hrev, hprev]
    dsimp only
    rw [hhop, if_neg (by simp)]
    rfl
  rw [hcontract]

end L2Node

namespace L2Out

/-- The port a frame leaves on. -/
def leaves (out : L2Out) (arrive : ℕ) : ℕ := if out.toPort = 0 then arrive else out.toPort

end L2Out

namespace L2Node

variable {n : L2Node} {port our : ℕ} {f : L2Frame} {i : L2Slot}

/-- Then it leaves without the hop, on the port of the circuit. -/
theorem transit_contracted (h : n.Carried port f our)
    (hrev : n.l2FindRev f.dest.toAxCall f.origin.toAxCall port = some i) {prev : L2Addr}
    (hprev : f.digis[our - 1]? = some prev) (hhop : (n.circuits i).isOurHop prev = true)
    (hport : (n.circuits i).port ≠ 0) (hdigi : n.digiFlag port ≠ some 0)
    (hexists : n.digiFlag (n.circuits i).port ≠ none) :
    ∃ out, (n.flexNetL2Transit port f our).2 = some out ∧ out.frame = f.removeDigi (our - 1) ∧
      out.our = our - 1 ∧ out.leaves port = (n.circuits i).port := by
  obtain ⟨kind, htransit⟩ := transit_contracts h hrev hprev hhop
  rw [htransit]
  have hcircuit : (n.setCircuit i ((n.circuits i).used kind n.now)).circuits i =
      (n.circuits i).used kind n.now := Function.update_self _ _ _
  have hsame : ((n.circuits i).used kind n.now).port = (n.circuits i).port := by
    obtain ⟨closing, closedAt, heq, -⟩ := used_eq (n.circuits i) kind n.now
    rw [heq]
  have hchosen := @chosen_port (n.setCircuit i ((n.circuits i).used kind n.now)) _ (our - 1)
    (f.removeDigi (our - 1)) _ h.crossport (l2FindRev_used hrev)
    (by rw [hcircuit, hsame]; exact hport) hdigi (by rw [hcircuit, hsame]; exact hexists)
  rw [hcircuit, hsame] at hchosen
  refine ⟨_, withPort_eq _ _ _ _, rfl, rfl, ?_⟩
  rw [L2Out.leaves]
  dsimp only
  rw [hchosen]
  by_cases heq : (n.circuits i).port = port
  · rw [if_pos heq, if_pos rfl, heq]
  · rw [if_neg heq, if_neg hport]

end L2Node

/-! ## The history of a circuit -/

namespace L2Table

variable {t : L2Table} {x : L2Input} {xs : List L2Input} {c : L2Slot} {hop cur : AxCall}
  {old : Option AxCall}

/-- The hop that frames of the circuit in a slot were extended with last, and the one before it, if
there was another. -/
inductive PinHistory (c : L2Slot) : List L2Input → L2Table → AxCall → Option AxCall → Prop
  | first {xs : List L2Input} {t : L2Table} {x : L2Input} {hop : AxCall}
      (run : Run step empty xs t) (extended : ExtendedAt t x c hop) (new : ¬ KeepsAt c t x) :
      PinHistory c (xs ++ [x]) (t.step x) hop none
  | again {xs : List L2Input} {t : L2Table} {x : L2Input} {hop cur : AxCall} {old : Option AxCall}
      (before : PinHistory c xs t cur old) (keeps : KeepsAt c t x) (extended : ExtendedAt t x c hop)
      (same : cur.same hop = true) : PinHistory c (xs ++ [x]) (t.step x) cur old
  | replaced {xs : List L2Input} {t : L2Table} {x : L2Input} {hop cur : AxCall}
      {old : Option AxCall}
      (before : PinHistory c xs t cur old) (keeps : KeepsAt c t x) (extended : ExtendedAt t x c hop)
      (other : cur.same hop = false) : PinHistory c (xs ++ [x]) (t.step x) hop (some cur)
  | idle {xs : List L2Input} {t : L2Table} {x : L2Input} {cur : AxCall} {old : Option AxCall}
      (before : PinHistory c xs t cur old) (keeps : KeepsAt c t x)
      (none : ∀ hop, ¬ ExtendedAt t x c hop) : PinHistory c (xs ++ [x]) (t.step x) cur old

theorem PinHistory.run (h : PinHistory c xs t cur old) : Run step empty xs t := by
  induction h with
  | first hrun _ _ => exact hrun.step _ trivial
  | again _ _ _ _ ih => exact ih.step _ trivial
  | replaced _ _ _ _ ih => exact ih.step _ trivial
  | idle _ _ _ ih => exact ih.step _ trivial

/-- The hop of a frame, as it is in the frame. -/
theorem same_of_append {f f' : L2Frame} {hop' : AxCall} (h : f.appendDigi hop = some f')
    (h' : f.appendDigi hop' = some f') : hop.same hop' = true := by
  have heq := (L2Frame.appendDigi_some h).symm.trans (L2Frame.appendDigi_some h')
  have hlast := List.append_cancel_left (congrArg L2Frame.digis heq)
  have hcall := congrArg L2Addr.toAxCall (List.singleton_inj.mp hlast)
  have hname := congrArg AxCall.call hcall
  have hssid := congrArg AxCall.ssid hcall
  change hop.call = hop'.call at hname
  change hop.ssid &&& 0x7E = hop'.ssid &&& 0x7E at hssid
  rw [same_iff]
  refine ⟨hname, ?_⟩
  rw [← (L2Addr.and_copy hop.ssid).2.1, hssid, (L2Addr.and_copy hop'.ssid).2.1]

/-- What a frame that was extended on a circuit did to it. -/
theorem extendedAt_circuit (hrun : Run step empty xs t) (h : ExtendedAt t x c hop) :
    ∃ hop', Extended x.node.now x.frame.origin.toAxCall x.frame.dest.toAxCall x.port hop' (t c)
      (t.step x c) ∧ hop.same hop' = true := by
  obtain ⟨f', toPort, hresult, happend⟩ := h.result
  have hunique : (t.step x).Unique := unique_run (hrun.step x trivial)
  have hpair : (t.step x c).ofPair x.frame.origin.toAxCall x.frame.dest.toAxCall x.port = true :=
    ofPair_iff.mpr ⟨h.active, h.port, h.user, h.dest⟩
  have hfate := t.fate x
  generalize t.result x = r at hfate hresult
  generalize t.step x = t' at hfate hunique hpair
  cases hfate with
  | looped => cases hresult
  | passed =>
      obtain rfl := congrArg L2Out.frame (Option.some.inj hresult)
      have hlen := congrArg (fun f => f.digis.length) (L2Frame.appendDigi_some happend)
      simp at hlen
  | contracted _ _ _ hafter =>
      have hour : x.our - 1 = x.our := congrArg L2Out.our (Option.some.inj hresult)
      omega
  | extended _ j hop' _ _ _ happend' hext _ =>
      obtain rfl := congrArg L2Out.frame (Option.some.inj hresult)
      have hj : c = j := hunique _ _ _ c j hpair
        (ofPair_iff.mpr ⟨hext.active, hext.port, hext.user, hext.dest⟩)
      subst hj
      exact ⟨hop', hext, same_of_append happend happend'⟩

/-- The table has the history of a circuit in its pins. -/
theorem PinHistory.pins (h : PinHistory c xs t cur old) :
    (t c).appended.isEmpty = false ∧ (t c).appended.same cur = true ∧
      ∀ p, old = some p →
        (t c).prevAppended.isEmpty = false ∧ (t c).prevAppended.same p = true := by
  induction h with
  | first hrun hext hnew =>
      obtain ⟨hop', hcircuit, hsame⟩ := extendedAt_circuit hrun hext
      rw [hcircuit.pin]
      refine ⟨hcircuit.named, same_comm hsame, ?_⟩
      intro p hp
      cases hp
  | @again xs t x hop cur old hbefore hkeeps hext hcur ih =>
      obtain ⟨hnamed, happended, hold⟩ := ih
      obtain ⟨hop', hcircuit, hsame⟩ := extendedAt_circuit hbefore.run hext
      have hhop : cur.same hop' = true := same_trans (same_comm hcur) hsame
      have hstill : (t c).appended.same hop' = true := same_trans (same_comm happended) hhop
      rcases hcircuit.prev with ⟨-, hprev⟩ | ⟨hnew, -⟩
      · rw [hstill, Bool.or_true, if_pos rfl] at hprev
        rw [hcircuit.pin, hprev]
        exact ⟨hcircuit.named, same_comm hhop, hold⟩
      · exact absurd hkeeps hnew.not_keeps
  | @replaced xs t x hop cur old hbefore hkeeps hext hcur ih =>
      obtain ⟨hnamed, happended, -⟩ := ih
      obtain ⟨hop', hcircuit, hsame⟩ := extendedAt_circuit hbefore.run hext
      have hother : (t c).appended.same hop' = false := by
        rw [← Bool.not_eq_true] at hcur ⊢
        exact fun hstill =>
          hcur (same_trans (same_comm (same_trans happended hstill)) (same_comm hsame))
      rcases hcircuit.prev with ⟨-, hprev⟩ | ⟨hnew, -⟩
      · rw [hnamed, hother, Bool.or_false, if_neg (by simp)] at hprev
        rw [hcircuit.pin, hprev]
        refine ⟨hcircuit.named, same_comm hsame, ?_⟩
        intro p hp
        obtain rfl := Option.some.inj hp
        exact ⟨hnamed, happended⟩
      · exact absurd hkeeps hnew.not_keeps
  | @idle xs t x cur old hbefore hkeeps hnone ih =>
      have hstays : (t.step x c).appended = (t c).appended ∧
          (t.step x c).prevAppended = (t c).prevAppended := by
        rcases t.stays_or_extended x c with hstays | ⟨hop, hat, -⟩
        · rcases hstays hkeeps.after with ⟨-, hpins⟩ | ⟨hnew, -⟩
          · exact hpins
          · exact absurd hkeeps hnew.not_keeps
        · exact absurd hat (hnone hop)
      rw [hstays.1, hstays.2]
      exact ih

/-! ## Replies -/

/-- A reply to a circuit that is there: its addresses are the circuit's, the other way round, and
the hop before the node has been repeated. -/
structure Reply (t : L2Table) (x : L2Input) (c : L2Slot) (prev : L2Addr) : Prop where
  carried : (t.node x).Carried x.port x.frame x.our
  hop : x.frame.digis[x.our - 1]? = some prev
  repeated : prev.repeated = true
  active : (t c).active = true
  unexpired : (t c).state x.node.now ≠ .expired
  user : (t c).user.same x.frame.dest.toAxCall = true
  dest : (t c).dest.same x.frame.origin.toAxCall = true

/-- The reply loses the hop, nothing else, and leaves on a port. -/
def Undone (t : L2Table) (x : L2Input) (port : ℕ) : Prop :=
  ∃ out, t.result x = some out ∧ out.frame = x.frame.removeDigi (x.our - 1) ∧ out.our = x.our - 1 ∧
    out.leaves x.port = port

/-- A circuit that a reply on a port comes to. -/
def Returns (t : L2Table) (x : L2Input) (i : L2Slot) : Prop :=
  (t i).returns x.node.now x.frame.dest.toAxCall x.frame.origin.toAxCall x.port = true

/-- The first slot in which something holds. -/
theorem find_finRange {n : ℕ} {p : Fin n → Bool} {c : Fin n} :
    (List.finRange n).find? p = some c ↔ p c = true ∧ ∀ j, j < c → ¬ p j = true := by
  rw [List.find?_eq_some_iff_getElem]
  constructor
  · rintro ⟨hc, i, hi, rfl, hbefore⟩
    refine ⟨hc, fun j hj => ?_⟩
    have hlt : j.val < i := by simpa [Fin.lt_def] using hj
    simpa using hbefore j.val hlt
  · rintro ⟨hc, hbefore⟩
    refine ⟨hc, c.val, by simp, by simp, fun j hj => ?_⟩
    have hlt := hbefore ⟨j, by omega⟩ (Fin.lt_def.mpr hj)
    simpa using hlt

/-- The circuit that the search for returning frames comes to. -/
theorem first_back :
    (t.node x).l2FindRev x.frame.dest.toAxCall x.frame.origin.toAxCall x.port = some c ↔
    Returns t x c ∧ ∀ j, j < c → ¬ Returns t x j :=
  find_finRange (p := fun i =>
    (t i).returns x.node.now x.frame.dest.toAxCall x.frame.origin.toAxCall x.port)

theorem isOurHop_iff {e : L2Circuit} {prev : L2Addr} : e.isOurHop prev = true ↔
    prev.repeated = true ∧ ((e.appended.isEmpty = false ∧ prev.toAxCall.same e.appended = true) ∨
      (e.prevAppended.isEmpty = false ∧ prev.toAxCall.same e.prevAppended = true)) := by
  simp [isOurHop]

/-- In every run: a reply with the hop that the circuit has, or the one it replaced, before the node
is taken back to the port of the circuit exactly when the circuit leaves or left on the port of the
reply and no circuit of the pair in an earlier slot does.  Frames arrive on ports there are, and the
port of the reply digipeats. -/
theorem reply_undone_iff (hpins : PinHistory c xs t cur old) {prev : L2Addr}
    (hreply : Reply t x c prev)
    (hhop : prev.toAxCall.same cur = true ∨ ∃ p, old = some p ∧ prev.toAxCall.same p = true)
    (hdigi : x.node.digiFlag x.port ≠ some 0)
    (hports : ∀ y ∈ xs, y.port ≠ 0 ∧ x.node.digiFlag y.port ≠ none) :
    Undone t x (t c).port ↔ Returns t x c ∧ ∀ j, j < c → ¬ Returns t x j := by
  have hrun := hpins.run
  obtain ⟨hnamed, happended, hold⟩ := hpins.pins
  have hours : (t c).isOurHop prev = true := by
    refine isOurHop_iff.mpr ⟨hreply.repeated, ?_⟩
    rcases hhop with hcur | ⟨p, hp, hsame⟩
    · exact .inl ⟨hnamed, same_trans (same_comm hcur) (same_comm happended)⟩
    · obtain ⟨hnamed', hprev⟩ := hold p hp
      exact .inr ⟨hnamed', same_trans (same_comm hsame) (same_comm hprev)⟩
  have hport : ∀ i, (t i).active = true → (t i).port ≠ 0 ∧ x.node.digiFlag (t i).port ≠ none := by
    intro i hi
    obtain ⟨y, hy, heq⟩ := arrived_run hrun i hi
    rw [heq]
    exact hports y hy
  have hback : ∀ i, (t.node x).l2FindRev x.frame.dest.toAxCall x.frame.origin.toAxCall x.port =
      some i → (t i).isOurHop prev = true → Undone t x (t i).port := by
    intro i hrev hop
    obtain ⟨hactive, -⟩ := L2Node.returns_iff.mp (L2Node.l2FindRev_some hrev)
    obtain ⟨hnonzero, hexists⟩ := hport i hactive
    exact L2Node.transit_contracted hreply.carried hrev hreply.hop hop hnonzero hdigi hexists
  rw [← first_back]
  constructor
  · rintro ⟨out, hout, hframe, hour, hleaves⟩
    -- a frame that lost a digipeater was contracted, on the first circuit of the pair
    have hlt := hreply.carried.ours
    have hshorter : out.frame.digis.length < x.frame.digis.length := by
      rw [hframe, L2Frame.removeDigi, List.length_eraseIdx_of_lt (by omega)]
      omega
    have hfate := t.fate x
    rw [hout] at hfate
    generalize t.step x = t' at hfate
    cases hfate with
    | passed => exact absurd hshorter (lt_irrefl _)
    | extended _ _ _ _ _ _ happend =>
        obtain rfl := L2Frame.appendDigi_some happend
        simp at hshorter
    | contracted toPort i prev' _ hprev hfound hop =>
        obtain rfl : prev = prev' := Option.some.inj (hreply.hop.symm.trans hprev)
        obtain ⟨out', hout', -, -, hleaves'⟩ := hback i hfound hop
        rw [hout] at hout'
        obtain rfl := Option.some.inj hout'
        obtain ⟨hactive, -, huser, hdest, -⟩ :=
          L2Node.returns_iff.mp (L2Node.l2FindRev_some hfound)
        have heq : i = c := unique_run hrun x.frame.dest.toAxCall x.frame.origin.toAxCall
          (t c).port i c (ofPair_iff.mpr ⟨hactive, hleaves'.symm.trans hleaves, huser, hdest⟩)
          (ofPair_iff.mpr ⟨hreply.active, rfl, hreply.user, hreply.dest⟩)
        rw [← heq]
        exact hfound
  · intro hrev
    exact hback c hrev hours

end L2Table

/-! ### Two circuits that leave on one port -/

namespace Bench

open L2Table

/-- The small node with `FLEXNETCROSSPORT`. -/
def crossNode : L2Node := { digipeater with cfg := { digipeater.cfg with crossport := true } }

/-- `U` connects to `K` on a port. -/
def openingOn (port : ℕ) : L2Input := { opening with node := crossNode, port := port }

/-- `K` answers on port 1, over the chain it saw. -/
def replyOn1 : L2Input := { answering with node := crossNode }

/-- The frame to `K` with `A` put behind the node. -/
def openingSent : L2Frame :=
  { opening.frame with digis := opening.frame.digis ++ [hopAddr 0x41] }

/-- The first two slots of the circuit table. -/
def firstSlot : L2Slot := 0
def secondSlot : L2Slot := 1

set_option maxRecDepth 10000 in
/-- The reply of a connection that came in on port 2 goes back to it. -/
theorem reply_undone_crossport : Undone (empty.step (openingOn 2)) replyOn1 2 := by
  have hext : ExtendedAt empty (openingOn 2) firstSlot (addr 0x41) :=
    ⟨⟨openingSent, 1, by decide +kernel, by decide +kernel⟩, by decide +kernel, by decide +kernel,
      by decide +kernel, by decide +kernel⟩
  have hpins : PinHistory firstSlot [openingOn 2] (empty.step (openingOn 2)) (addr 0x41) none :=
    .first .start hext fun hkeeps => absurd hkeeps.before (by decide)
  have hreply : Reply (empty.step (openingOn 2)) replyOn1 firstSlot (hopAddr 0x41).setRepeated :=
    ⟨⟨by decide +kernel, by decide, by decide, by decide, by decide⟩, by decide +kernel,
      by decide +kernel, by decide +kernel, by decide +kernel, by decide +kernel, by decide +kernel⟩
  have hback := (reply_undone_iff hpins hreply (.inl (by decide +kernel)) (by decide +kernel)
    (by decide +kernel)).mpr
  refine hback ⟨by unfold Returns; decide +kernel, fun j hj => absurd hj (by simp [firstSlot])⟩

set_option maxRecDepth 10000 in
/-- The reply to the connection that came in last, on port 2, leaves on port 1, where another one of
the pair came in. -/
theorem reply_misrouted :
    ¬ ∀ (xs : List L2Input) (t : L2Table) (y x : L2Input) (c : L2Slot) (cur : AxCall)
      (old : Option AxCall) (prev : L2Addr) (out : L2Out), Run step empty xs t →
      ExtendedAt t y c cur → t.result y = some out → out.leaves y.port = x.port →
      PinHistory c (xs ++ [y]) (t.step y) cur old → Reply (t.step y) x c prev →
      prev.toAxCall.same cur = true → x.node.digiFlag x.port ≠ some 0 →
      (∀ z ∈ xs ++ [y], z.port ≠ 0 ∧ x.node.digiFlag z.port ≠ none) →
      Undone (t.step y) x (t.step y c).port := by
  intro hall
  have hrun : Run step empty [openingOn 1] (empty.step (openingOn 1)) :=
    .step (openingOn 1) .start trivial
  have hext : ExtendedAt (empty.step (openingOn 1)) (openingOn 2) secondSlot (addr 0x41) :=
    ⟨⟨openingSent, 1, by decide +kernel, by decide +kernel⟩, by decide +kernel, by decide +kernel,
      by decide +kernel, by decide +kernel⟩
  have hreply : Reply ((empty.step (openingOn 1)).step (openingOn 2)) replyOn1 secondSlot
      (hopAddr 0x41).setRepeated :=
    ⟨⟨by decide +kernel, by decide, by decide, by decide, by decide⟩, by decide +kernel,
      by decide +kernel, by decide +kernel, by decide +kernel, by decide +kernel, by decide +kernel⟩
  obtain ⟨out, hout, -, -, hleaves⟩ := hall [openingOn 1] _ (openingOn 2) replyOn1 secondSlot
    (addr 0x41) none (hopAddr 0x41).setRepeated ⟨openingSent, 1, 1⟩ hrun hext (by decide +kernel)
    (by decide) (.first hrun hext fun hkeeps => absurd hkeeps.before (by decide +kernel)) hreply
    (by decide +kernel) (by decide +kernel) (by decide +kernel)
  have hmisrouted : (((empty.step (openingOn 1)).step (openingOn 2)).result replyOn1).map
      (fun out => out.leaves replyOn1.port) = some 1 := by decide +kernel
  have hport : ((empty.step (openingOn 1)).step (openingOn 2) secondSlot).port = 2 := by
    decide +kernel
  rw [hout, Option.map_some, hleaves, hport] at hmisrouted
  cases hmisrouted

end Bench

end FlexNet
