import FlexNet.L2.Declines
import FlexNet.L2.Hops

/-!
# A node on a line

A connection over a line of nodes passes each of them in both directions, in on one port and out on
another.  The circuit table of a node is in order for the connection when all it holds of the pair
belongs to it (`L2Table.InOrder`).  Then the node does one thing with a frame of the connection: a
forward frame gets the next node of the line (`L2Relay.forward_next`) or goes on to its destination
(`L2Relay.forward_last`), and a reply loses the node it comes from (`L2Relay.back_next`) or passes
(`L2Relay.back_last`).  Each leaves the table in order.
-/

namespace FlexNet

open Runs L2Circuit

namespace L2Node

variable {n m k : L2Node} {arrive exit our : ℕ} {f f' : L2Frame} {kind : L2Kind} {e : Option L2Slot}

/-! ## Digipeating -/

/-- A port whose frames are digipeated, all of them. -/
def Digipeats (n : L2Node) (port : ℕ) : Prop :=
  ∃ flag, n.digiFlag port = some flag ∧ flag ≠ 0 ∧ flag ≠ -1

/-- `Digipeat`, on a port with no `DIGIPORT` and no `DIGIMASK`: the frame as it is sent, and the
port it is sent on. -/
def digipeat (n : L2Node) (arrive : ℕ) (out : L2Out) : Option (L2Frame × ℕ) :=
  let ui := (out.frame.tail.head?.map (· &&& 0xEF)) == some 0x03
  if n.digiFlag arrive = some 0 ∧ out.toPort = 0 then none
  else if n.digiFlag arrive = some (-1) ∧ !ui then none
  else if out.toPort ≠ 0 ∧ n.digiFlag out.toPort = none then none
  else some (out.sent, out.leaves arrive)

theorem digipeat_sent {out : L2Out} (harrive : n.Digipeats arrive) (hexit : n.Digipeats exit)
    (hleaves : out.leaves arrive = exit) : n.digipeat arrive out = some (out.sent, exit) := by
  obtain ⟨flag, hflag, hzero, hui⟩ := harrive
  obtain ⟨flag', hflag', -, -⟩ := hexit
  unfold digipeat
  dsimp only
  rw [hflag, if_neg (by simp [hzero]), if_neg (by simp [hui]), hleaves, if_neg]
  rintro ⟨hto, hnone⟩
  rw [L2Out.leaves, if_neg hto] at hleaves
  rw [hleaves, hflag'] at hnone
  cases hnone

/-! ## The port a frame leaves on -/

/-- The frame leaves on the one port that its circuits, or else its next station, are on. -/
theorem chosen_exit (hcross : exit = arrive ∨ n.cfg.crossportActive = true) (hexit : exit ≠ 0)
    (hdigi : n.digiFlag arrive ≠ some 0) (hexists : n.digiFlag exit ≠ none)
    (hrev : ∀ i, n.l2FindRev f.dest.toAxCall f.origin.toAxCall arrive = some i →
      (n.circuits i).port = exit)
    (hfwd : ∀ i, (n.circuits i).ofPair f.origin.toAxCall f.dest.toAxCall arrive = true →
      (n.circuits i).outEff = exit)
    (hnext : (∃ i, n.l2FindRev f.dest.toAxCall f.origin.toAxCall arrive = some i) ∨
      (∃ i, (n.circuits i).ofPair f.origin.toAxCall f.dest.toAxCall arrive = true ∧
        (n.circuits i).state n.now ≠ .expired) ∨
      flexL2OutPort arrive 0 0 (n.cfg.flexL2ExternalPort ((f.digis[our + 1]?).getD f.dest))
        (n.flexL2PeerPort ((f.digis[our + 1]?).getD f.dest).toAxCall arrive) = exit) :
    (n.flexL2ChoosePort arrive f our).2 = if exit = arrive then 0 else exit := by
  obtain ⟨hswept, hentry⟩ := l2Find_entry n arrive f
  obtain ⟨hfind, -⟩ := l2Find_spec n f.origin.toAxCall f.dest.toAxCall arrive false
  unfold flexL2ChoosePort
  dsimp only
  split
  · -- nothing lets the frame leave on another port
    rename_i hstay
    rcases hcross with rfl | hcross
    · rw [if_pos rfl]
    · rw [hcross] at hstay
      simp at hstay
  generalize n.l2Find f.origin.toAxCall f.dest.toAxCall arrive false = found at hswept hentry hfind
  obtain ⟨m, fwd⟩ := found
  dsimp only at hswept hentry hfind ⊢
  have hflags : m.digiFlag = n.digiFlag := by rw [hfind]
  have hpeer : ∀ a, m.flexL2PeerPort a arrive = n.flexL2PeerPort a arrive :=
    fun a => by rw [hfind]; rfl
  have hkept : ∀ i, (m.circuits i).active = true → m.circuits i = n.circuits i := fun i hi =>
    (hswept i).eq hi
  have hout : flexL2OutPort arrive
      ((n.l2FindRev f.dest.toAxCall f.origin.toAxCall arrive).elim 0 fun i => (m.circuits i).port)
      (fwd.elim 0 fun i => (m.circuits i).outEff)
      (n.cfg.flexL2ExternalPort ((f.digis[our + 1]?).getD f.dest))
      (m.flexL2PeerPort ((f.digis[our + 1]?).getD f.dest).toAxCall arrive) = exit := by
    cases hback : n.l2FindRev f.dest.toAxCall f.origin.toAxCall arrive with
    | some i =>
        obtain ⟨-, hlive, -⟩ := returns_iff.mp (l2FindRev_some hback)
        have hsame : m.circuits i = n.circuits i := by
          rcases hswept i with heq | ⟨hexpired, -⟩
          · exact heq
          · exact absurd hexpired hlive
        rw [Option.elim_some, hsame, hrev i hback, flexL2OutPort, if_pos hexit]
    | none =>
        cases fwd with
        | some i =>
            obtain ⟨hpair, -⟩ := hentry.found i rfl
            have hsame := hkept i (ofPair_iff.mp hpair).1
            rw [hsame] at hpair
            rw [Option.elim_none, Option.elim_some, hsame, hfwd i hpair, flexL2OutPort,
              if_neg (by simp),
              if_pos hexit]
        | none =>
            rcases hnext with ⟨i, hi⟩ | ⟨i, hpair, hlive⟩ | hnext
            · rw [hback] at hi
              cases hi
            · have hnone := hentry.none rfl i
              rw [show m.circuits i = n.circuits i by
                rcases hswept i with heq | ⟨hexpired, -⟩
                · exact heq
                · exact absurd hexpired hlive, hpair] at hnone
              cases hnone
            · rw [Option.elim_none, Option.elim_none, hpeer]
              exact hnext
  rw [hout, hflags]
  split_ifs with hsame hnone
  · rfl
  · exact absurd hnone (not_or_intro hdigi hexists)
  · rfl

/-- The choice of the port drops expired circuits, and nothing else. -/
theorem withPort_exit (hexit : exit ≠ 0)
    (hchosen : (n.flexL2ChoosePort arrive f our).2 = if exit = arrive then 0 else exit) :
    (∃ out, (n.withPort arrive f our).2 = some out ∧ out.frame = f ∧ out.our = our ∧
      out.leaves arrive = exit) ∧ n.circuits.Swept n.now (n.withPort arrive f our).1.circuits :=
  ⟨⟨_, withPort_eq _ _ _ _, rfl, rfl, leaves_chosen hexit hchosen⟩,
    (n.withPort_spec arrive f our).2⟩

theorem callInChain_same {a b : AxCall} (h : a.same b = true) (f : L2Frame) :
    f.callInChain a = f.callInChain b := by
  have hsame : ∀ c : AxCall, c.same a = c.same b := by
    intro c
    rw [Bool.eq_iff_iff]
    exact ⟨fun hc => L2Table.same_trans (L2Table.same_comm hc) h,
      fun hc => L2Table.same_trans (L2Table.same_comm hc) (L2Table.same_comm h)⟩
  unfold L2Frame.callInChain
  simp only [hsame]

end L2Node

/-! ## A connection at a node -/

/-- What a node is for a connection: the ports towards the originator and towards the destination,
and the next node; with none the destination is its neighbour. -/
structure L2Relay where
  user : AxCall
  dest : AxCall
  back : ℕ
  ahead : ℕ
  next : Option AxCall
  apart : user.same dest = false
  back_ne : back ≠ 0
  ahead_ne : ahead ≠ 0

namespace L2Relay

variable {r : L2Relay} {t t' : L2Table} {n m k : L2Node} {our : ℕ} {f f' : L2Frame} {kind : L2Kind}
  {e : Option L2Slot} {now : ℤ} {c : L2Circuit}

/-- A circuit of the connection, with the next node as its only pin. -/
structure Carries (r : L2Relay) (c : L2Circuit) : Prop where
  port : c.port = r.back
  out : c.outEff = r.ahead
  prev : c.prevAppended.isEmpty = true
  pinned : ∀ q, r.next = some q → c.appended.isEmpty = false ∧ c.appended.same q = true
  bare : r.next = none → c.appended.isEmpty = true

/-- A circuit of the other direction: it leads back and has no pin. -/
structure Reverses (r : L2Relay) (c : L2Circuit) : Prop where
  port : c.port = r.ahead
  out : c.outEff = r.back
  prev : c.prevAppended.isEmpty = true
  bare : c.appended.isEmpty = true

/-- All the table holds of the pair belongs to the connection. -/
structure InOrder (r : L2Relay) (t : L2Table) : Prop where
  ahead : ∀ i, (t i).active = true → (t i).user.same r.user = true → (t i).dest.same r.dest = true →
    r.Carries (t i)
  back : ∀ i, (t i).active = true → (t i).user.same r.dest = true → (t i).dest.same r.user = true →
    r.Reverses (t i)

/-- The table has a circuit of the connection. -/
def Holds (r : L2Relay) (t : L2Table) : Prop := ∃ i, (t i).ofPair r.user r.dest r.back = true

/-- One that has not expired. -/
def HoldsLive (r : L2Relay) (now : ℤ) (t : L2Table) : Prop :=
  ∃ i, (t i).ofPair r.user r.dest r.back = true ∧ (t i).state now ≠ .expired

theorem HoldsLive.holds (h : r.HoldsLive now t) : r.Holds t :=
  let ⟨i, hi, _⟩ := h
  ⟨i, hi⟩

theorem InOrder.swept (h : r.InOrder t) (hswept : t.Swept now t') : r.InOrder t' where
  ahead i hactive := by
    have hsame := (hswept i).eq hactive
    rw [hsame] at hactive ⊢
    exact h.ahead i hactive
  back i hactive := by
    have hsame := (hswept i).eq hactive
    rw [hsame] at hactive ⊢
    exact h.back i hactive

theorem HoldsLive.swept (h : r.HoldsLive now t) (hswept : t.Swept now t') : r.HoldsLive now t' := by
  obtain ⟨i, hpair, hlive⟩ := h
  have hsame : t' i = t i := by
    rcases hswept i with heq | ⟨hexpired, -⟩
    · exact heq
    · exact absurd hexpired hlive
  exact ⟨i, by rw [hsame]; exact hpair, by rw [hsame]; exact hlive⟩

/-- Nobody is both ends of the connection. -/
theorem not_both {a : AxCall} (h : a.same r.user = true) (h' : a.same r.dest = true) : False := by
  have hsame := L2Table.same_trans h h'
  rw [r.apart] at hsame
  cases hsame

/-- One circuit is written; the others are as they were, or swept. -/
theorem InOrder.write (h : r.InOrder t) (now : ℤ) (i : L2Slot)
    (hother : ∀ j, j ≠ i → Swept now (t j) (t' j))
    (hahead : (t' i).user.same r.user = true → (t' i).dest.same r.dest = true → r.Carries (t' i))
    (hback : (t' i).user.same r.dest = true → (t' i).dest.same r.user = true → r.Reverses (t' i)) :
    r.InOrder t' where
  ahead j hactive := by
    by_cases hj : j = i
    · subst hj
      exact hahead
    · have hsame := (hother j hj).eq hactive
      rw [hsame] at hactive ⊢
      exact h.ahead j hactive
  back j hactive := by
    by_cases hj : j = i
    · subst hj
      exact hback
    · have hsame := (hother j hj).eq hactive
      rw [hsame] at hactive ⊢
      exact h.back j hactive

/-- The use of a circuit of the connection. -/
theorem Carries.used (h : r.Carries c) (kind : L2Kind) (now : ℤ) : r.Carries (c.used kind now) := by
  obtain ⟨closing, closedAt, heq, -⟩ := used_eq c kind now
  rw [heq]
  exact ⟨h.port, h.out, h.prev, h.pinned, h.bare⟩

theorem Reverses.used (h : r.Reverses c) (kind : L2Kind) (now : ℤ) :
    r.Reverses (c.used kind now) := by
  obtain ⟨closing, closedAt, heq, -⟩ := used_eq c kind now
  rw [heq]
  exact ⟨h.port, h.out, h.prev, h.bare⟩

/-! ### What a node has to have for it -/

/-- The node forwards, has both ports, and may pass frames from one to the other. -/
structure Serves (r : L2Relay) (n : L2Node) : Prop where
  transit : n.cfg.transit = true
  l2Transit : n.cfg.l2Transit = true
  crossport : r.ahead = r.back ∨ n.cfg.crossportActive = true
  digiBack : n.Digipeats r.back
  digiAhead : n.Digipeats r.ahead

/-- The station a frame goes on to is known on the port of the line only. -/
def KnownOn (n : L2Node) (port : ℕ) (f : L2Frame) (our : ℕ) : Prop :=
  flexL2OutPort port 0 0 (n.cfg.flexL2ExternalPort ((f.digis[our + 1]?).getD f.dest))
    (n.flexL2PeerPort ((f.digis[our + 1]?).getD f.dest).toAxCall port) = port

/-- A forward frame whose last digipeater is the node. -/
structure Forward (r : L2Relay) (n : L2Node) (f : L2Frame) (our : ℕ) : Prop extends r.Serves n where
  toDest : f.dest.toAxCall.same r.dest = true
  ofUser : f.origin.toAxCall.same r.user = true
  control : f.tail ≠ []
  short : f.digis.length ≤ l2MaxDigis
  last : our + 1 = f.digis.length
  straight : ∀ d, f.digis[our]? = some d → L2Node.flexL2SelfRepeated f our d = false
  carried : n.l2Carries r.back f = true
  room : ∃ i, (n.circuits i).active = false

/-- A reply, which the node has not repeated. -/
structure Reply (r : L2Relay) (n : L2Node) (f : L2Frame) (our : ℕ) : Prop extends r.Serves n where
  toUser : f.dest.toAxCall.same r.user = true
  ofDest : f.origin.toAxCall.same r.dest = true
  control : f.tail ≠ []
  short : f.digis.length ≤ l2MaxDigis
  ours : our < f.digis.length
  live : ∀ i, (n.circuits i).ofPair r.user r.dest r.back = true →
    (n.circuits i).state n.now ≠ .expired

theorem Serves.beside (h : r.Serves n) (hbeside : L2Node.Beside n m) : r.Serves m where
  transit := (congrArg Config.transit hbeside.cfg).trans h.transit
  l2Transit := (congrArg Config.l2Transit hbeside.cfg).trans h.l2Transit
  crossport := h.crossport.imp_right fun hcross =>
    (congrArg Config.crossportActive hbeside.cfg).trans hcross
  digiBack :=
    let ⟨flag, hflag, hrest⟩ := h.digiBack
    ⟨flag, (congrFun hbeside.digiFlag _).trans hflag, hrest⟩
  digiAhead :=
    let ⟨flag, hflag, hrest⟩ := h.digiAhead
    ⟨flag, (congrFun hbeside.digiFlag _).trans hflag, hrest⟩

theorem KnownOn.beside {port : ℕ} (h : KnownOn n port f our) (hbeside : L2Node.Beside n m) :
    KnownOn m port f our := by
  unfold KnownOn L2Node.flexL2PeerPort at *
  rw [hbeside.cfg, hbeside.sessions]
  exact h

theorem digi_ne_zero {port : ℕ} (h : n.Digipeats port) : n.digiFlag port ≠ some 0 := by
  obtain ⟨flag, hflag, hzero, -⟩ := h
  rw [hflag]
  simpa using hzero

theorem digi_ne_none {port : ℕ} (h : n.Digipeats port) : n.digiFlag port ≠ none := by
  obtain ⟨flag, hflag, -, -⟩ := h
  rw [hflag]
  simp

/-! ### The port it leaves on -/

theorem l2FindRev_none {user dest : AxCall} {port : ℕ} (h : n.l2FindRev user dest port = none)
    (i : L2Slot) : (n.circuits i).returns n.now user dest port = false := by
  unfold L2Node.l2FindRev flexL2FindRev at h
  rw [List.find?_eq_none] at h
  simpa using h i (List.mem_finRange i)

/-- A forward frame leaves ahead. -/
theorem forward_exit (hs : r.Serves n) (horder : r.InOrder n.circuits)
    (hdest : f.dest.toAxCall.same r.dest = true) (horigin : f.origin.toAxCall.same r.user = true)
    (hnext : r.HoldsLive n.now n.circuits ∨ r.ahead = r.back ∧ KnownOn n r.back f our) :
    (∃ out, (n.withPort r.back f our).2 = some out ∧ out.frame = f ∧ out.our = our ∧
      out.leaves r.back = r.ahead) ∧
        n.circuits.Swept n.now (n.withPort r.back f our).1.circuits := by
  refine L2Node.withPort_exit r.ahead_ne (L2Node.chosen_exit hs.crossport r.ahead_ne
    (digi_ne_zero hs.digiBack) (digi_ne_none hs.digiAhead) ?_ ?_ ?_)
  · intro i hi
    obtain ⟨hactive, -, huser, hto, -⟩ := L2Node.returns_iff.mp (L2Node.l2FindRev_some hi)
    exact (horder.back i hactive (L2Table.same_trans (L2Table.same_comm huser) hdest)
      (L2Table.same_trans (L2Table.same_comm hto) horigin)).port
  · intro i hi
    obtain ⟨hactive, -, huser, hto⟩ := ofPair_iff.mp hi
    exact (horder.ahead i hactive (L2Table.same_trans (L2Table.same_comm huser) horigin)
      (L2Table.same_trans (L2Table.same_comm hto) hdest)).out
  · rcases hnext with ⟨i, hpair, hlive⟩ | ⟨hsame, hknown⟩
    · obtain ⟨hactive, hport, huser, hto⟩ := ofPair_iff.mp hpair
      exact .inr (.inl ⟨i, ofPair_iff.mpr ⟨hactive, hport,
        L2Table.same_trans (L2Table.same_comm huser) (L2Table.same_comm horigin),
        L2Table.same_trans (L2Table.same_comm hto) (L2Table.same_comm hdest)⟩, hlive⟩)
    · rw [hsame]
      exact .inr (.inr hknown)

/-- A reply leaves back. -/
theorem back_exit (hs : r.Serves n) (horder : r.InOrder n.circuits)
    (hdest : f.dest.toAxCall.same r.user = true) (horigin : f.origin.toAxCall.same r.dest = true)
    (hnext : r.HoldsLive n.now n.circuits ∨ r.ahead = r.back ∧ KnownOn n r.ahead f our) :
    (∃ out, (n.withPort r.ahead f our).2 = some out ∧ out.frame = f ∧ out.our = our ∧
      out.leaves r.ahead = r.back) ∧
      n.circuits.Swept n.now (n.withPort r.ahead f our).1.circuits := by
  refine L2Node.withPort_exit r.back_ne
    (L2Node.chosen_exit (hs.crossport.imp_left Eq.symm) r.back_ne
    (digi_ne_zero hs.digiAhead) (digi_ne_none hs.digiBack) ?_ ?_ ?_)
  · intro i hi
    obtain ⟨hactive, -, huser, hto, -⟩ := L2Node.returns_iff.mp (L2Node.l2FindRev_some hi)
    exact (horder.ahead i hactive (L2Table.same_trans (L2Table.same_comm huser) hdest)
      (L2Table.same_trans (L2Table.same_comm hto) horigin)).port
  · intro i hi
    obtain ⟨hactive, -, huser, hto⟩ := ofPair_iff.mp hi
    exact (horder.back i hactive (L2Table.same_trans (L2Table.same_comm huser) horigin)
      (L2Table.same_trans (L2Table.same_comm hto) hdest)).out
  · rcases hnext with ⟨i, hpair, hlive⟩ | ⟨hsame, hknown⟩
    · obtain ⟨hactive, -, huser, hto⟩ := ofPair_iff.mp hpair
      have hout := (horder.ahead i hactive huser hto).out
      cases hrev : n.l2FindRev f.dest.toAxCall f.origin.toAxCall r.ahead with
      | some j => exact .inl ⟨j, rfl⟩
      | none =>
          -- the circuit of the connection would have been found
          have hfound := l2FindRev_none hrev i
          rw [← Bool.not_eq_true, L2Node.returns_iff] at hfound
          exact absurd ⟨hactive, hlive,
            L2Table.same_trans (L2Table.same_comm huser) (L2Table.same_comm hdest),
            L2Table.same_trans (L2Table.same_comm hto) (L2Table.same_comm horigin),
            .inl hout⟩ hfound
    · rw [← hsame]
      exact .inr (.inr hknown)

/-! ### A forward frame -/

/-- It is not contracted: the circuits of the other direction have no pins. -/
theorem forward_uncontracted (h : r.InOrder n.circuits) (hdest : f.dest.toAxCall.same r.dest = true)
    (horigin : f.origin.toAxCall.same r.user = true) (port : ℕ) :
    n.flexL2Contract port f our kind = (n, none) := by
  rcases n.flexL2Contract_cases port f our kind with hnone | ⟨i, prev, hrev, -, hhop, -⟩
  · exact hnone
  obtain ⟨hactive, -, huser, hto, -⟩ := L2Node.returns_iff.mp (L2Node.l2FindRev_some hrev)
  have hcircuit := h.back i hactive (L2Table.same_trans (L2Table.same_comm huser) hdest)
    (L2Table.same_trans (L2Table.same_comm hto) horigin)
  rw [L2Circuit.isOurHop, hcircuit.bare, hcircuit.prev] at hhop
  simp at hhop

/-- It comes as far as to pick its hop. -/
theorem forward_pick (hf : r.Forward n f our) (h : r.InOrder n.circuits) :
    ∃ k e hop, n.forwardPick r.back f our = some (k, e, hop) := by
  obtain ⟨ctl, tail, htail⟩ := List.exists_cons_of_ne_nil hf.control
  have hlast := hf.last
  obtain ⟨us, hours⟩ : ∃ us, f.digis[our]? = some us := ⟨_, List.getElem?_eq_getElem (by omega)⟩
  unfold L2Node.forwardPick
  dsimp only
  rw [hf.transit, hf.l2Transit, if_neg (by simp), hf.carried, if_neg (by simp), htail, hours]
  dsimp only [List.head?_cons]
  rw [if_neg (not_lt.mpr hf.short),
    forward_uncontracted h hf.toDest hf.ofUser, if_neg (by simp), if_neg (by omega),
    hf.straight us hours, Bool.and_false, if_neg (by simp)]
  exact ⟨_, _, _, rfl⟩

/-- The hop is the pin of the circuit, which is the next node, or what routing finds. -/
theorem forward_hop {hop : L2Hop} (hf : r.Forward n f our) (h : r.InOrder n.circuits)
    (hpick : n.forwardPick r.back f our = some (k, e, hop)) :
    L2Node.Searched n k r.back f e ∧
      ((∃ i, r.next ≠ none ∧ e = some i ∧ hop = .hop (k.circuits i).appended true r.ahead) ∨
        hop = (n.flexL2ResolveHop f.dest.toAxCall).2) := by
  obtain ⟨hsearched, -⟩ := L2Node.forwardPick_searched hpick
  obtain ⟨-, m, hfound, hpicked⟩ := L2Node.forwardPick_found hpick
  obtain ⟨hfind, -⟩ := L2Node.l2Find_spec n f.origin.toAxCall f.dest.toAxCall r.back false
  rw [hfound] at hfind
  obtain ⟨hcircuits, -⟩ := m.flexL2PickHop_spec e f.kind f.dest.toAxCall
  obtain ⟨-, hcases⟩ := m.pick_cases e f.kind f.dest.toAxCall
  rw [hpicked] at hcircuits hcases
  dsimp only at hfind hcircuits
  refine ⟨hsearched, ?_⟩
  rcases hcases with ⟨i, hi, hkept, hhop⟩ | ⟨-, hhop⟩
  · obtain ⟨hactive, -, huser, hto⟩ := ofPair_iff.mp (hsearched.entry.found i hi).1
    have hcircuit := (h.swept hsearched.swept).ahead i hactive
      (L2Table.same_trans (L2Table.same_comm huser) hf.ofUser)
      (L2Table.same_trans (L2Table.same_comm hto) hf.toDest)
    rw [← hcircuits] at hhop hkept
    refine .inl ⟨i, fun hnone => ?_, hi, ?_⟩
    · rw [L2Node.KeepsPin, hcircuit.bare hnone] at hkept
      cases hkept.1
    · rw [← hcircuit.out]
      exact (Prod.ext_iff.mp hhop).2
  · refine .inr ?_
    have hresolve : (m.flexL2ResolveHop f.dest.toAxCall).2 =
        (n.flexL2ResolveHop f.dest.toAxCall).2 := by
      rw [hfind]
      exact n.resolve_circuits _ _
    rw [← hresolve]
    exact (Prod.ext_iff.mp hhop).2

/-- The frame gets the next node on a circuit that has it as its hop, or none. -/
theorem Carries.repin {q call : AxCall} {fresh : Bool} (hq : r.next = some q)
    (hport : c.port = r.back) (hprev : c.prevAppended.isEmpty = true)
    (hpin : fresh = true ∨ c.appended.same call = true) (hcall : call.same q = true)
    (hnamed : call.isEmpty = false) : r.Carries (L2Node.repin c fresh call r.ahead) := by
  obtain ⟨prevOutPort, heq⟩ := L2Node.repin_eq c fresh call r.ahead
  have hkeep : (fresh || c.appended.same call) = true := by
    rcases hpin with rfl | hsame
    · rfl
    · rw [hsame, Bool.or_true]
  rw [heq, hkeep, if_pos rfl]
  refine ⟨hport, if_neg r.ahead_ne, hprev, fun q' hq' => ?_, fun hnone => ?_⟩
  · obtain rfl := Option.some.inj (hq.symm.trans hq')
    exact ⟨hnamed, hcall⟩
  · rw [hq] at hnone
    cases hnone

/-- A circuit of the pair of a forward frame is no circuit of the other direction. -/
theorem not_reverse {P : Prop} {user : AxCall} (horigin : f.origin.toAxCall.same r.user = true)
    (huser : user.same f.origin.toAxCall = true) (hback : user.same r.dest = true) : P :=
  (not_both (L2Table.same_trans (L2Table.same_comm huser) horigin) hback).elim

/-- The circuits of a forward frame are those of the pair the node relays for. -/
theorem ofPair_relayed (hdest : f.dest.toAxCall.same r.dest = true)
    (horigin : f.origin.toAxCall.same r.user = true) {c : L2Circuit}
    (h : c.ofPair f.origin.toAxCall f.dest.toAxCall r.back = true) :
    c.ofPair r.user r.dest r.back = true := by
  obtain ⟨hactive, hport, huser, hto⟩ := ofPair_iff.mp h
  exact ofPair_iff.mpr ⟨hactive, hport, L2Table.same_comm (L2Table.same_trans horigin
    (L2Table.same_comm huser)), L2Table.same_comm (L2Table.same_trans hdest
    (L2Table.same_comm hto))⟩

/-- The table with the circuit of a frame, used, in a slot that had it or none. -/
theorem order_used (kind : L2Kind) {c : L2Circuit} {t : L2Table} {i : L2Slot}
    (horder : r.InOrder k.circuits) (hdest : f.dest.toAxCall.same r.dest = true)
    (horigin : f.origin.toAxCall.same r.user = true)
    (hswept : ∀ j, j ≠ i → Swept k.now (k.circuits j) (t j)) (hcarries : r.Carries c)
    (hown : c.ofPair f.origin.toAxCall f.dest.toAxCall r.back = true)
    (hlive : c.state k.now ≠ .expired) :
    r.InOrder (Function.update t i (c.used kind k.now)) ∧
      r.HoldsLive k.now (Function.update t i (c.used kind k.now)) := by
  have hself : Function.update t i (c.used kind k.now) i = c.used kind k.now :=
    Function.update_self ..
  refine ⟨horder.write k.now i (fun j hj => ?_) (fun _ _ => ?_) fun hback _ => ?_, i, ?_, ?_⟩
  · rw [Function.update_of_ne hj]
    exact hswept j hj
  · rw [hself]
    exact hcarries.used kind k.now
  · rw [hself, (used_key c kind k.now).1] at hback
    exact not_reverse horigin (ofPair_iff.mp hown).2.2.1 hback
  · rw [hself, ofPair_used]
    exact ofPair_relayed hdest horigin hown
  · rw [hself]
    exact state_used hlive

/-- What the extension of a frame leaves of the table, on a circuit that was found. -/
theorem extend_found (kind : L2Kind) {q call : AxCall} {pinned : Bool} {i : L2Slot}
    (hq : r.next = some q) (horder : r.InOrder k.circuits) (he : k.Entry r.back f (some i))
    (hdest : f.dest.toAxCall.same r.dest = true) (horigin : f.origin.toAxCall.same r.user = true)
    (happend : f.appendDigi call = some f') (hcall : call.same q = true)
    (hnamed : call.isEmpty = false) :
    ∃ t, k.flexL2Extend r.back f (some i) call pinned r.ahead kind =
        ({ k with circuits := t }, some f') ∧ r.InOrder t ∧ r.HoldsLive k.now t := by
  obtain ⟨hown, hlive⟩ := he.found i rfl
  obtain ⟨hactive, -, huser, hto⟩ := ofPair_iff.mp (ofPair_relayed hdest horigin hown)
  have hcircuit := horder.ahead i hactive huser hto
  unfold L2Node.flexL2Extend L2Node.l2Entry
  dsimp only
  rw [happend]
  dsimp only
  set fresh := (some i).isNone || (k.circuits i).appended.isEmpty
  set c := if pinned then k.circuits i else L2Node.repin (k.circuits i) fresh call r.ahead with hc
  have hcarries : r.Carries c := by
    rw [hc]
    split
    · exact hcircuit
    · refine Carries.repin hq (ofPair_iff.mp hown).2.1 hcircuit.prev (.inr ?_) hcall hnamed
      exact L2Table.same_trans (L2Table.same_comm (hcircuit.pinned q hq).2)
        (L2Table.same_comm hcall)
  have hkey : c.ofPair f.origin.toAxCall f.dest.toAxCall r.back = true := by
    rw [← hown, hc]
    split
    · rfl
    · exact ofPair_repin ..
  have hclive : c.state k.now ≠ .expired := by
    rw [hc]
    split
    · exact hlive
    · obtain ⟨prevOutPort, heq⟩ := L2Node.repin_eq (k.circuits i) fresh call r.ahead
      rw [heq]
      exact hlive
  exact ⟨_, rfl, order_used kind horder hdest horigin (fun j _ => .refl k.now _) hcarries hkey
    hclive⟩

/-- The same on a new circuit. -/
theorem extend_new (kind : L2Kind) {q call : AxCall} {t : L2Table} {i : L2Slot}
    (hq : r.next = some q) (horder : r.InOrder k.circuits)
    (hdest : f.dest.toAxCall.same r.dest = true) (horigin : f.origin.toAxCall.same r.user = true)
    (hswept : ∀ j, Swept k.now (k.circuits j) (t j))
    (hentry : k.l2Entry r.back f none = (({ k with circuits := t } : L2Node).setCircuit i
      (.fresh k.now f.origin.toAxCall f.dest.toAxCall r.back), some i))
    (happend : f.appendDigi call = some f') (hcall : call.same q = true)
    (hnamed : call.isEmpty = false) :
    ∃ t, k.flexL2Extend r.back f none call false r.ahead kind =
        ({ k with circuits := t }, some f') ∧ r.InOrder t ∧ r.HoldsLive k.now t := by
  unfold L2Node.flexL2Extend
  rw [hentry]
  dsimp only
  rw [happend]
  dsimp only
  set new := L2Circuit.fresh k.now f.origin.toAxCall f.dest.toAxCall r.back with hnew
  have hslot : (({ k with circuits := t } : L2Node).setCircuit i new).circuits i = new :=
    Function.update_self ..
  have hcarries : r.Carries (L2Node.repin new true call r.ahead) :=
    Carries.repin hq rfl rfl (.inl rfl) hcall hnamed
  rw [hslot, Option.isNone_none, Bool.true_or, if_neg (by simp)]
  have hown : (L2Node.repin new true call r.ahead).ofPair f.origin.toAxCall f.dest.toAxCall r.back =
      true := by
    rw [ofPair_repin]
    exact ofPair_iff.mpr ⟨rfl, rfl, same_self _, same_self _⟩
  have hlive : (L2Node.repin new true call r.ahead).state k.now ≠ .expired := by
    obtain ⟨prevOutPort, heq⟩ := L2Node.repin_eq new true call r.ahead
    rw [heq]
    exact state_fresh k.now f.origin.toAxCall f.dest.toAxCall r.back
  refine ⟨_, rfl, order_used (k := k) (t := Function.update t i new) kind horder hdest horigin
    (fun j hj => ?_) hcarries hown hlive⟩
  rw [Function.update_of_ne hj]
  exact hswept j

/-- What the extension of a frame leaves of the table. -/
theorem extend_order (kind : L2Kind) {q call : AxCall} {pinned : Bool} (hq : r.next = some q)
    (horder : r.InOrder k.circuits) (he : k.Entry r.back f e)
    (hdest : f.dest.toAxCall.same r.dest = true) (horigin : f.origin.toAxCall.same r.user = true)
    (hroom : ∃ i, (k.circuits i).active = false) (happend : f.appendDigi call = some f')
    (hcall : call.same q = true) (hnamed : call.isEmpty = false)
    (hpin : pinned = true → ∃ i, e = some i) :
    ∃ t, k.flexL2Extend r.back f e call pinned r.ahead kind = ({ k with circuits := t }, some f') ∧
      r.InOrder t ∧ r.HoldsLive k.now t := by
  rcases L2Node.l2Entry_slot he with ⟨-, -, hfull, -⟩ | ⟨i, rfl, -⟩ | ⟨i, t, rfl, -, hswept, hentry⟩
  · obtain ⟨i, hi⟩ := hroom
    have hactive := (hfull i).1
    rw [hi] at hactive
    cases hactive
  · exact extend_found kind hq horder he hdest horigin happend hcall hnamed
  · have hp : pinned = false := by
      rw [← Bool.not_eq_true]
      intro hp
      obtain ⟨j, hj⟩ := hpin hp
      cases hj
    subst hp
    exact extend_new kind hq horder hdest horigin hswept hentry happend hcall hnamed

/-- The node hands a frame to `Digipeat`, for the port on the other side, and its table is in
order. -/
structure Relayed (r : L2Relay) (result : L2Node × Option L2Out) (arrive exit : ℕ) (f' : L2Frame)
    (our' : ℕ) : Prop where
  out : ∃ out, result.2 = some out ∧ out.frame = f' ∧ out.our = our' ∧ out.leaves arrive = exit
  order : r.InOrder result.1.circuits

/-- A forward frame gets the next node. -/
theorem forward_next {q : AxCall} (hf : r.Forward n f our) (h : r.InOrder n.circuits)
    (hq : r.next = some q) (hroute : ∃ call, call.same q = true ∧
      (n.flexL2ResolveHop f.dest.toAxCall).2 = .hop call false r.ahead)
    (hchain : f.callInChain q = false) (hcap : f.digis.length < n.l2Cap r.back) (hroom : f.Room) :
    ∃ call, call.same q = true ∧
      r.Relayed (n.flexNetL2Transit r.back f our) r.back r.ahead
        { f with digis := f.digis ++ [.ofCall call] } our ∧
      r.Holds (n.flexNetL2Transit r.back f our).1.circuits := by
  obtain ⟨k, e, hop, hpick⟩ := forward_pick hf h
  obtain ⟨hsearched, hhop⟩ := forward_hop hf h hpick
  have horder := h.swept hsearched.swept
  have hpicked : ∃ call pinned, hop = .hop call pinned r.ahead ∧ call.same q = true ∧
      call.isEmpty = false ∧ (pinned = true → ∃ i, e = some i) := by
    rcases hhop with ⟨i, -, rfl, rfl⟩ | rfl
    · obtain ⟨hactive, -, huser, hto⟩ := ofPair_iff.mp (hsearched.entry.found i rfl).1
      have hcircuit := horder.ahead i hactive
        (L2Table.same_trans (L2Table.same_comm huser) hf.ofUser)
        (L2Table.same_trans (L2Table.same_comm hto) hf.toDest)
      obtain ⟨hnamed, hsame⟩ := hcircuit.pinned q hq
      exact ⟨_, true, rfl, hsame, hnamed, fun _ => ⟨i, rfl⟩⟩
    · obtain ⟨call, hsame, hresolve⟩ := hroute
      obtain ⟨-, -, hspec⟩ := n.flexL2ResolveHop_spec f.dest.toAxCall
      exact ⟨call, false, hresolve, hsame, (hspec call false r.ahead hresolve).2, nofun⟩
  obtain ⟨call, pinned, rfl, hcall, hnamed, hpin⟩ := hpicked
  have hbars : ¬ k.Bars r.back f call r.ahead := by
    rintro (hbar | ⟨hother, hoff⟩ | hfull)
    · rw [L2Node.callInChain_same hcall, hchain] at hbar
      cases hbar
    · rw [hsearched.beside.cfg] at hoff
      rcases hf.crossport with hsame | hcross
      · exact hother hsame
      · rw [hoff] at hcross
        cases hcross
    · rw [L2Node.forwardPick_l2Cap hpick] at hfull
      omega
  have happend : f.appendDigi call = some { f with digis := f.digis ++ [.ofCall call] } := by
    unfold L2Frame.appendDigi
    unfold L2Frame.Room at hroom
    rw [if_neg (by omega)]
  have hspare : ∃ i, (k.circuits i).active = false := by
    obtain ⟨i, hi⟩ := hf.room
    refine ⟨i, ?_⟩
    rcases hsearched.swept i with heq | ⟨-, hdead⟩
    · rw [heq, hi]
    · exact hdead
  obtain ⟨t, hext, ht, hlive⟩ := extend_order f.kind hq horder hsearched.entry hf.toDest
    hf.ofUser hspare happend hcall hnamed hpin
  have htransit : n.flexNetL2Transit r.back f our =
      ({ k with circuits := t } : L2Node).withPort r.back
        { f with digis := f.digis ++ [.ofCall call] } our := by
    rw [L2Node.transit_forwardOn hpick, L2Node.forwardOn, if_neg hbars, hext]
  have hserves : r.Serves ({ k with circuits := t } : L2Node) :=
    hf.toServes.beside ⟨hsearched.beside.now, hsearched.beside.cfg, hsearched.beside.sessions,
      hsearched.beside.digiFlag⟩
  obtain ⟨hout, hswept⟩ :=
    @forward_exit r _ our { f with digis := f.digis ++ [.ofCall call] } hserves ht
    hf.toDest hf.ofUser (.inl hlive)
  rw [htransit]
  exact ⟨call, hcall, ⟨hout, ht.swept hswept⟩, (hlive.swept hswept).holds⟩

/-- A circuit that leads to an adjacent station is the one that was found, or a new one in a free
slot. -/
theorem note_cases (kind : L2Kind) {arrive : ℕ} (he : k.Entry arrive f e)
    (hroom : ∃ i, (k.circuits i).active = false) (hopPort : ℕ) :
    ∃ t i c, k.flexL2NoteAdjacent arrive f e hopPort kind = { k with circuits := t } ∧
      t i = ({ c with outPort := hopPort }).used kind k.now ∧
      c.ofPair f.origin.toAxCall f.dest.toAxCall arrive = true ∧ c.state k.now ≠ .expired ∧
      (c = k.circuits i ∨ (c = .fresh k.now f.origin.toAxCall f.dest.toAxCall arrive ∧
        ¬ (k.circuits i).Known k.now)) ∧
      ∀ j, j ≠ i → Swept k.now (k.circuits j) (t j) := by
  unfold L2Node.flexL2NoteAdjacent
  rcases L2Node.l2Entry_slot he with ⟨-, -, hfull, -⟩ | ⟨i, rfl, hentry⟩ |
    ⟨i, t, rfl, hgives, hswept, hentry⟩
  · obtain ⟨i, hi⟩ := hroom
    have hactive := (hfull i).1
    rw [hi] at hactive
    cases hactive
  · obtain ⟨hpair, hlive⟩ := he.found i rfl
    rw [hentry]
    refine ⟨Function.update k.circuits i
      (({ k.circuits i with outPort := hopPort }).used kind k.now),
      i, k.circuits i, rfl, Function.update_self .., hpair, hlive, .inl rfl, fun j hj => ?_⟩
    rw [Function.update_of_ne hj]
    exact .refl k.now _
  · have hfree : ¬ (k.circuits i).Known k.now := by
      obtain ⟨j, hj⟩ := hroom
      have hunknown : ¬ (k.circuits j).Known k.now := fun h => by
        rw [h.1] at hj
        cases hj
      cases hgives with
      | spare hfree => exact hfree
      | closed hfull => exact absurd (hfull j) hunknown
      | silent hfull => exact absurd (hfull j) hunknown
    rw [hentry]
    dsimp only
    set new := L2Circuit.fresh k.now f.origin.toAxCall f.dest.toAxCall arrive with hnew
    have hslot : (({ k with circuits := t } : L2Node).setCircuit i new).circuits i = new :=
      Function.update_self ..
    rw [hslot]
    refine ⟨Function.update (Function.update t i new) i (({ new with outPort := hopPort }).used kind
      k.now), i, new, rfl, Function.update_self ..,
      ofPair_iff.mpr ⟨rfl, rfl, same_self _, same_self _⟩, state_fresh _ _ _ _, .inr ⟨rfl, hfree⟩,
      fun j hj => ?_⟩
    rw [Function.update_of_ne hj, Function.update_of_ne hj]
    exact hswept j

/-- A forward frame whose destination is the node's neighbour goes on to it. -/
theorem forward_last (hf : r.Forward n f our) (h : r.InOrder n.circuits) (hq : r.next = none)
    (hroute : (n.flexL2ResolveHop f.dest.toAxCall).2 = .adjacent r.ahead)
    (hknown : r.ahead = r.back → KnownOn n r.back f our) :
    r.Relayed (n.flexNetL2Transit r.back f our) r.back r.ahead f our ∧
      (r.ahead ≠ r.back → r.Holds (n.flexNetL2Transit r.back f our).1.circuits) := by
  obtain ⟨k, e, hop, hpick⟩ := forward_pick hf h
  obtain ⟨hsearched, hhop⟩ := forward_hop hf h hpick
  have horder := h.swept hsearched.swept
  have hserves := hf.toServes.beside hsearched.beside
  obtain rfl : hop = .adjacent r.ahead := by
    rcases hhop with ⟨i, hsome, -⟩ | rfl
    · exact absurd hq hsome
    · exact hroute
  rw [L2Node.transit_forwardOn hpick, L2Node.forwardOn]
  by_cases hport : r.ahead = r.back
  · rw [if_neg (by simp [hport])]
    obtain ⟨hout, hswept⟩ := @forward_exit r k our f hserves horder hf.toDest hf.ofUser
      (.inr ⟨hport, (hknown hport).beside hsearched.beside⟩)
    exact ⟨⟨hout, horder.swept hswept⟩, fun hne => absurd hport hne⟩
  · -- the frame leaves on another port, which is noted
    have hcross : k.cfg.crossportActive = true := hserves.crossport.resolve_left hport
    have hspare : ∃ i, (k.circuits i).active = false := by
      obtain ⟨i, hi⟩ := hf.room
      refine ⟨i, ?_⟩
      rcases hsearched.swept i with heq | ⟨-, hdead⟩
      · rw [heq, hi]
      · exact hdead
    obtain ⟨t, i, c, hnote, hti, hpair, hlive, hc, hothers⟩ :=
      note_cases f.kind hsearched.entry hspare r.ahead
    rw [if_pos ⟨r.ahead_ne, hport, .inl hcross⟩, hnote]
    obtain ⟨hactive, hback, huser, hto⟩ := ofPair_iff.mp hpair
    have hown : c.user.same r.user = true ∧ c.dest.same r.dest = true :=
      ⟨L2Table.same_trans (L2Table.same_comm huser) hf.ofUser,
        L2Table.same_trans (L2Table.same_comm hto) hf.toDest⟩
    have hbare : c.prevAppended.isEmpty = true ∧ c.appended.isEmpty = true := by
      rcases hc with rfl | ⟨rfl, -⟩
      · have hcircuit := horder.ahead i hactive hown.1 hown.2
        exact ⟨hcircuit.prev, hcircuit.bare hq⟩
      · exact ⟨rfl, rfl⟩
    have hcarries : r.Carries { c with outPort := r.ahead } := by
      refine ⟨hback, if_neg r.ahead_ne, hbare.1, fun q hq' => ?_, fun _ => hbare.2⟩
      rw [hq] at hq'
      cases hq'
    have ht : r.InOrder t := by
      refine horder.write k.now i hothers (fun _ _ => ?_) fun hrev _ => ?_
      · rw [hti]
        exact hcarries.used f.kind k.now
      · rw [hti, (used_key _ f.kind k.now).1] at hrev
        exact not_reverse hf.ofUser huser hrev
    have hholds : r.HoldsLive k.now t := by
      refine ⟨i, ?_, ?_⟩
      · rw [hti, ofPair_used]
        exact ofPair_iff.mpr ⟨hactive, hback, hown⟩
      · rw [hti]
        exact state_used hlive
    obtain ⟨hout, hswept⟩ := @forward_exit r { k with circuits := t } our f (hserves.beside
      ⟨rfl, rfl, rfl, rfl⟩) ht hf.toDest hf.ofUser (.inl hholds)
    exact ⟨⟨hout, ht.swept hswept⟩, fun _ => (hholds.swept hswept).holds⟩

/-! ### A reply -/

theorem Reply.holdsLive (hf : r.Reply n f our) (h : r.Holds n.circuits) :
    r.HoldsLive n.now n.circuits :=
  let ⟨i, hi⟩ := h
  ⟨i, hi, hf.live i hi⟩

/-- A reply loses the node it comes from. -/
theorem back_next {q : AxCall} {prev : L2Addr} (hf : r.Reply n f our) (h : r.InOrder n.circuits)
    (hholds : r.Holds n.circuits) (hq : r.next = some q) (hour : 1 ≤ our)
    (hprev : f.digis[our - 1]? = some prev) (hrep : prev.repeated = true)
    (hsame : prev.toAxCall.same q = true) :
    r.Relayed (n.flexNetL2Transit r.ahead f our) r.ahead r.back (f.removeDigi (our - 1)) (our - 1) ∧
      r.Holds (n.flexNetL2Transit r.ahead f our).1.circuits := by
  obtain ⟨ctl, tail, htail⟩ := List.exists_cons_of_ne_nil hf.control
  obtain ⟨us, hours⟩ : ∃ us, f.digis[our]? = some us := ⟨_, List.getElem?_eq_getElem hf.ours⟩
  have hown : ∀ {c : L2Circuit}, c.user.same f.dest.toAxCall = true →
      c.dest.same f.origin.toAxCall = true →
        c.user.same r.user = true ∧ c.dest.same r.dest = true := fun huser hto =>
    ⟨L2Table.same_trans (L2Table.same_comm huser) hf.toUser,
      L2Table.same_trans (L2Table.same_comm hto) hf.ofDest⟩
  -- the search for returning frames comes to a circuit of the connection
  obtain ⟨i, hrev⟩ : ∃ i, n.l2FindRev f.dest.toAxCall f.origin.toAxCall r.ahead = some i := by
    obtain ⟨j, hpair, hlive⟩ := hf.holdsLive hholds
    obtain ⟨hactive, -, huser, hto⟩ := ofPair_iff.mp hpair
    cases hrev : n.l2FindRev f.dest.toAxCall f.origin.toAxCall r.ahead with
    | some i => exact ⟨i, rfl⟩
    | none =>
        have hfound := l2FindRev_none hrev j
        rw [← Bool.not_eq_true, L2Node.returns_iff] at hfound
        exact absurd ⟨hactive, hlive,
          L2Table.same_trans (L2Table.same_comm huser) (L2Table.same_comm hf.toUser),
          L2Table.same_trans (L2Table.same_comm hto) (L2Table.same_comm hf.ofDest),
          .inl (h.ahead j hactive huser hto).out⟩ hfound
  obtain ⟨hactive, hlive, huser, hto, -⟩ := L2Node.returns_iff.mp (L2Node.l2FindRev_some hrev)
  have hcircuit := h.ahead i hactive (hown huser hto).1 (hown huser hto).2
  obtain ⟨hnamed, hpin⟩ := hcircuit.pinned q hq
  have hhop : (n.circuits i).isOurHop prev = true := by
    rw [L2Circuit.isOurHop, hrep, hnamed,
      L2Table.same_trans (L2Table.same_comm hsame) (L2Table.same_comm hpin)]
    rfl
  have htwo : 2 ≤ f.digis.length := by
    have hlt := hf.ours
    omega
  have hcarries : n.l2Carries r.ahead f = true := by simp [L2Node.l2Carries, htwo]
  have hcontract : n.flexL2Contract r.ahead f our (flexL2CtlKind ctl) =
      (n.setCircuit i ((n.circuits i).used (flexL2CtlKind ctl) n.now),
        some (f.removeDigi (our - 1), our - 1)) := by
    unfold L2Node.flexL2Contract
    rw [hrev, hprev]
    dsimp only
    rw [hhop, if_neg (by simp)]
    rfl
  have htransit : n.flexNetL2Transit r.ahead f our =
      (n.setCircuit i ((n.circuits i).used (flexL2CtlKind ctl) n.now)).withPort r.ahead
        (f.removeDigi (our - 1)) (our - 1) := by
    unfold L2Node.flexNetL2Transit
    dsimp only
    rw [hf.transit, hf.l2Transit, if_neg (by simp), hcarries, if_neg (by simp), htail, hours]
    dsimp only [List.head?_cons]
    rw [if_neg (not_lt.mpr hf.short), if_pos hour, hcontract]
  set t := Function.update n.circuits i ((n.circuits i).used (flexL2CtlKind ctl) n.now) with ht
  have hself : t i = (n.circuits i).used (flexL2CtlKind ctl) n.now := Function.update_self ..
  have horder : r.InOrder t := by
    refine h.write n.now i (fun j hj => ?_) (fun _ _ => ?_) fun hrev _ => ?_
    · rw [ht, Function.update_of_ne hj]
      exact .refl n.now _
    · rw [hself]
      exact hcircuit.used _ n.now
    · rw [hself, (used_key _ (flexL2CtlKind ctl) n.now).1] at hrev
      exact (not_both (hown huser hto).1 hrev).elim
  have hkept : r.HoldsLive n.now t := by
    refine ⟨i, ?_, ?_⟩
    · rw [hself, ofPair_used]
      exact ofPair_iff.mpr ⟨hactive, hcircuit.port, hown huser hto⟩
    · rw [hself]
      exact state_used hlive
  obtain ⟨hout, hswept⟩ := @back_exit r { n with circuits := t } (our - 1) (f.removeDigi (our - 1))
    (hf.toServes.beside ⟨rfl, rfl, rfl, rfl⟩) horder hf.toUser hf.ofDest (.inl hkept)
  rw [htransit]
  exact ⟨⟨hout, horder.swept hswept⟩, (hkept.swept hswept).holds⟩

/-- A reply that the node has nothing to take out of, and that is no forward frame either. -/
theorem back_plain (hf : r.Reply n f our) (h : r.InOrder n.circuits)
    (hnext : r.HoldsLive n.now n.circuits ∨ r.ahead = r.back ∧ KnownOn n r.ahead f our) :
    r.Relayed (n.withPort r.ahead f our) r.ahead r.back f our ∧
      (r.Holds n.circuits → r.Holds (n.withPort r.ahead f our).1.circuits) := by
  obtain ⟨hout, hswept⟩ := back_exit hf.toServes h hf.toUser hf.ofDest hnext
  exact ⟨⟨hout, h.swept hswept⟩, fun hholds => ((hf.holdsLive hholds).swept hswept).holds⟩

/-- A reply that has the node as its only digipeater looks for a hop like a forward frame, and finds
what routing does. -/
theorem reply_pick (hf : r.Reply n f 0) (h : r.InOrder n.circuits)
    (hcarried : n.l2Carries r.ahead f = true) (hone : f.digis.length = 1) :
    ∃ k e, n.forwardPick r.ahead f 0 =
        some (k, e, (n.flexL2ResolveHop f.dest.toAxCall).2) ∧ L2Node.Searched n k r.ahead f e := by
  obtain ⟨ctl, tail, htail⟩ := List.exists_cons_of_ne_nil hf.control
  obtain ⟨us, hours⟩ : ∃ us, f.digis[0]? = some us := ⟨_, List.getElem?_eq_getElem (by omega)⟩
  obtain ⟨k, e, hop, hpick⟩ : ∃ k e hop, n.forwardPick r.ahead f 0 = some (k, e, hop) := by
    unfold L2Node.forwardPick
    dsimp only
    rw [hf.transit, hf.l2Transit, if_neg (by simp), hcarried, if_neg (by simp), htail, hours]
    dsimp only [List.head?_cons]
    rw [if_neg (not_lt.mpr hf.short), if_neg (by simp), if_neg (by omega),
      if_neg (by simp [L2Node.flexL2SelfRepeated])]
    exact ⟨_, _, _, rfl⟩
  obtain ⟨hsearched, -⟩ := L2Node.forwardPick_searched hpick
  obtain ⟨-, m, hfound, hpicked⟩ := L2Node.forwardPick_found hpick
  obtain ⟨hfind, -⟩ := L2Node.l2Find_spec n f.origin.toAxCall f.dest.toAxCall r.ahead false
  rw [hfound] at hfind
  obtain ⟨hcircuits, -⟩ := m.flexL2PickHop_spec e f.kind f.dest.toAxCall
  obtain ⟨-, hcases⟩ := m.pick_cases e f.kind f.dest.toAxCall
  rw [hpicked] at hcircuits hcases
  dsimp only at hfind hcircuits
  rcases hcases with ⟨i, hi, hkept, -⟩ | ⟨-, hhop⟩
  · obtain ⟨hactive, -, huser, hto⟩ := ofPair_iff.mp (hsearched.entry.found i hi).1
    have hcircuit := (h.swept hsearched.swept).back i hactive
      (L2Table.same_trans (L2Table.same_comm huser) hf.ofDest)
      (L2Table.same_trans (L2Table.same_comm hto) hf.toUser)
    rw [← hcircuits, L2Node.KeepsPin, hcircuit.bare] at hkept
    cases hkept.1
  · have hresolve : (m.flexL2ResolveHop f.dest.toAxCall).2 =
        (n.flexL2ResolveHop f.dest.toAxCall).2 := by
      rw [hfind]
      exact n.resolve_circuits _ _
    have hsame : hop = (n.flexL2ResolveHop f.dest.toAxCall).2 :=
      (Prod.ext_iff.mp hhop).2.trans hresolve
    exact ⟨k, e, by rw [hpick, hsame], hsearched⟩

/-- The reply leaves on another port, which is noted. -/
theorem reply_noted {k : L2Node} (hserves : r.Serves k) (h : r.InOrder k.circuits)
    (he : k.Entry r.ahead f e) (hdest : f.dest.toAxCall.same r.user = true)
    (horigin : f.origin.toAxCall.same r.dest = true)
    (hroom : ∃ i, (k.circuits i).active = false) (hholds : r.HoldsLive k.now k.circuits)
    (kind : L2Kind) :
    r.Relayed ((k.flexL2NoteAdjacent r.ahead f e r.back kind).withPort r.ahead f our)
      r.ahead r.back f our ∧
      r.Holds
        ((k.flexL2NoteAdjacent r.ahead f e r.back kind).withPort r.ahead f our).1.circuits := by
  obtain ⟨t, i, c, hnote, hti, hpair, hlive, hc, hothers⟩ := note_cases kind he hroom r.back
  obtain ⟨hactive, hport, huser, hto⟩ := ofPair_iff.mp hpair
  have hown : c.user.same r.dest = true ∧ c.dest.same r.user = true :=
    ⟨L2Table.same_trans (L2Table.same_comm huser) horigin,
      L2Table.same_trans (L2Table.same_comm hto) hdest⟩
  have hbare : c.prevAppended.isEmpty = true ∧ c.appended.isEmpty = true := by
    rcases hc with rfl | ⟨rfl, -⟩
    · have hcircuit := h.back i hactive hown.1 hown.2
      exact ⟨hcircuit.prev, hcircuit.bare⟩
    · exact ⟨rfl, rfl⟩
  have hreverses : r.Reverses { c with outPort := r.back } :=
    ⟨hport, if_neg r.back_ne, hbare.1, hbare.2⟩
  have ht : r.InOrder t := by
    refine h.write k.now i hothers (fun hrev _ => ?_) fun _ _ => ?_
    · rw [hti, (used_key _ kind k.now).1] at hrev
      exact (not_both hrev hown.1).elim
    · rw [hti]
      exact hreverses.used kind k.now
  have hkept : r.HoldsLive k.now t := by
    obtain ⟨j, hj, hjlive⟩ := hholds
    have hji : j ≠ i := by
      rintro rfl
      rcases hc with rfl | ⟨-, hfree⟩
      · exact not_both (ofPair_iff.mp hj).2.2.1 hown.1
      · exact hfree ⟨(ofPair_iff.mp hj).1, hjlive⟩
    have hsame : t j = k.circuits j := by
      rcases hothers j hji with heq | ⟨hexpired, -⟩
      · exact heq
      · exact absurd hexpired hjlive
    exact ⟨j, by rw [hsame]; exact hj, by rw [hsame]; exact hjlive⟩
  obtain ⟨hout, hswept⟩ := @back_exit r { k with circuits := t } our f
    (hserves.beside ⟨rfl, rfl, rfl, rfl⟩) ht hdest horigin (.inl hkept)
  rw [hnote]
  exact ⟨⟨hout, ht.swept hswept⟩, (hkept.swept hswept).holds⟩

/-- A reply passes the node whose neighbour has sent it. -/
theorem back_last (hf : r.Reply n f 0) (h : r.InOrder n.circuits)
    (hholds : r.ahead ≠ r.back → r.Holds n.circuits)
    (hknown : r.ahead = r.back → KnownOn n r.ahead f 0)
    (hcarried : r.ahead ≠ r.back → n.l2Carries r.ahead f = true)
    (hhome : f.digis.length = 1 → (n.flexL2ResolveHop f.dest.toAxCall).2 = .declined ∨
      (n.flexL2ResolveHop f.dest.toAxCall).2 = .adjacent r.back)
    (hroom : f.digis.length = 1 → ∃ i, (n.circuits i).active = false) :
    r.Relayed (n.flexNetL2Transit r.ahead f 0) r.ahead r.back f 0 ∧
      (r.Holds n.circuits → r.Holds (n.flexNetL2Transit r.ahead f 0).1.circuits) := by
  obtain ⟨ctl, tail, htail⟩ := List.exists_cons_of_ne_nil hf.control
  obtain ⟨us, hours⟩ : ∃ us, f.digis[0]? = some us := ⟨_, List.getElem?_eq_getElem hf.ours⟩
  have hnext : r.HoldsLive n.now n.circuits ∨ r.ahead = r.back ∧ KnownOn n r.ahead f 0 := by
    by_cases hport : r.ahead = r.back
    · exact .inr ⟨hport, hknown hport⟩
    · exact .inl (hf.holdsLive (hholds hport))
  by_cases hcarries : n.l2Carries r.ahead f = true
  swap
  · -- the frame is none of the node's: it goes on as it came
    have hport : r.ahead = r.back := by
      by_contra hport
      exact hcarries (hcarried hport)
    have htransit : n.flexNetL2Transit r.ahead f 0 = (n, some ⟨f, 0, 0⟩) := by
      unfold L2Node.flexNetL2Transit
      dsimp only
      rw [hf.transit, hf.l2Transit, if_neg (by simp), if_pos (by simpa using hcarries)]
    rw [htransit]
    exact ⟨⟨⟨_, rfl, rfl, rfl, hport⟩, h⟩, id⟩
  by_cases hone : f.digis.length = 1
  swap
  · have htransit : n.flexNetL2Transit r.ahead f 0 = n.withPort r.ahead f 0 := by
      unfold L2Node.flexNetL2Transit
      dsimp only
      rw [hf.transit, hf.l2Transit, if_neg (by simp), hcarries, if_neg (by simp), htail, hours]
      dsimp only [List.head?_cons]
      rw [if_neg (not_lt.mpr hf.short), if_neg (by simp)]
      dsimp only
      rw [if_pos (by omega)]
    rw [htransit]
    exact back_plain hf h hnext
  obtain ⟨k, e, hpick, hsearched⟩ := reply_pick hf h hcarries hone
  have hbeside := hsearched.beside
  have horder := h.swept hsearched.swept
  have hplain : r.Relayed (k.withPort r.ahead f 0) r.ahead r.back f 0 ∧
      (r.Holds n.circuits → r.Holds (k.withPort r.ahead f 0).1.circuits) := by
    have hnext' : r.HoldsLive k.now k.circuits ∨ r.ahead = r.back ∧ KnownOn k r.ahead f 0 := by
      rw [hbeside.now]
      exact hnext.imp (fun hlive => hlive.swept hsearched.swept) fun ⟨hport, hon⟩ =>
        ⟨hport, hon.beside hbeside⟩
    obtain ⟨hout, hswept⟩ :=
      back_exit (hf.toServes.beside hbeside) horder hf.toUser hf.ofDest hnext'
    refine ⟨⟨hout, horder.swept hswept⟩, fun hh => ?_⟩
    rw [hbeside.now] at hswept
    exact (((hf.holdsLive hh).swept hsearched.swept).swept hswept).holds
  rw [L2Node.transit_forwardOn hpick]
  rcases hhome hone with hhop | hhop
  · rw [hhop, L2Node.forwardOn]
    exact hplain
  · rw [hhop, L2Node.forwardOn]
    split
    · rename_i hother
      have hlive := (hf.holdsLive (hholds fun heq => hother.2.1 heq.symm)).swept hsearched.swept
      rw [← hbeside.now] at hlive
      have hspare : ∃ i, (k.circuits i).active = false := by
        obtain ⟨i, hi⟩ := hroom hone
        refine ⟨i, ?_⟩
        rcases hsearched.swept i with heq | ⟨-, hdead⟩
        · rw [heq, hi]
        · exact hdead
      obtain ⟨hrelayed, hkept⟩ := @reply_noted r 0 f e k (hf.toServes.beside hbeside) horder
        hsearched.entry hf.toUser hf.ofDest hspare hlive f.kind
      exact ⟨hrelayed, fun _ => hkept⟩
    · exact hplain

end L2Relay

end FlexNet
