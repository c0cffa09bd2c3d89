import FlexNet.L2.Ways

/-!
# Pins

A circuit keeps its next hop as long as the hop has a session, and the hop is looked up by its call:
the port the circuit stores is not.  `L2Table.pin_stable`: where, for a frame on the forward path, a
pin that is kept has a session on the port of its circuit and the circuits of the other direction
came in on the port of the hop, a frame that is extended leaves on a port where its new hop has a
session, and a pin that can be carried stays.
-/

namespace FlexNet

open Runs L2Circuit

namespace L2Circuit

variable {now : ℤ} {e e' e'' : L2Circuit} {port : ℕ} {kind : L2Kind}

/-- The circuit goes on, with its next hop and its port. -/
structure Kept (now : ℤ) (e e' : L2Circuit) : Prop extends Keeps now e e' where
  pin : e'.appended = e.appended
  out : e'.outEff = e.outEff

/-- No frame gave the circuit in a slot another next hop or port. -/
def Holds (now : ℤ) (e e' : L2Circuit) : Prop :=
  e'.active = true → Kept now e e' ∨ New now e e'

theorem Kept.refl (h : e.active = true) : Kept now e e := ⟨.refl h, rfl, rfl⟩

/-- A circuit that has not expired is not dropped by a search. -/
theorem Kept.swept_right (h : Kept now e e') (hlive : e.state now ≠ .expired)
    (hswept : Swept now e' e'') : Kept now e e'' := by
  have hlive' : e'.state now ≠ .expired := by
    rcases h.seen with rfl | ⟨-, hlive'⟩
    · exact hlive
    · exact hlive'
  rcases hswept with rfl | ⟨hexpired, -⟩
  · exact h
  · exact absurd hexpired hlive'

theorem Swept.holds (h : Swept now e e') : Holds now e e' := by
  intro hactive
  obtain rfl := h.eq hactive
  exact .inl (.refl hactive)

theorem Holds.swept_left (h : Swept now e e') (hholds : Holds now e' e'') : Holds now e e'' := by
  intro hactive
  rcases hholds hactive with hkept | hnew
  · obtain rfl := h.eq hkept.before
    exact .inl hkept
  · exact .inr (hnew.swept_left h)

theorem Holds.swept_right (hholds : Holds now e e') (h : Swept now e' e'') : Holds now e e'' := by
  intro hactive
  obtain rfl := h.eq hactive
  exact hholds hactive

theorem kept_used (hactive : e.active = true) (hlive : e.state now ≠ .expired) :
    Kept now e (e.used kind now) := by
  have hused := @state_used _ _ kind hlive
  obtain ⟨closing, closedAt, heq, -⟩ := used_eq e kind now
  rw [heq] at hused ⊢
  exact ⟨⟨hactive, hactive, rfl, rfl, rfl, .inr ⟨hlive, hused⟩⟩, rfl, rfl⟩

end L2Circuit

namespace L2Node

variable {n k : L2Node} {port our : ℕ} {f f' : L2Frame} {kind : L2Kind} {e : Option L2Slot}

/-- An active session with a neighbour on a port. -/
def Links (n : L2Node) (hop : AxCall) (port : ℕ) : Prop :=
  ∃ s, (n.sessions s).active = true ∧ (n.sessions s).port = port ∧
    (n.sessions s).peerCallsign.same hop = true

theorem links_of_same {hop hop' : AxCall} {port : ℕ} (h : n.Links hop' port)
    (hsame : hop.same hop' = true) : n.Links hop port := by
  obtain ⟨s, hactive, hport, hpeer⟩ := h
  exact ⟨s, hactive, hport, L2Table.same_trans (L2Table.same_comm hpeer) (L2Table.same_comm hsame)⟩

/-! ## Neighbours with a session -/

theorem convFromAX25_same {a b : AxCall} (h : a.same b = true) :
    convFromAX25 a = convFromAX25 b := by
  obtain ⟨hcall, hssid⟩ := L2Table.same_iff.mp h
  have hshift : ∀ s : UInt8, (s >>> 1) &&& (0x0F : UInt8) = (s &&& (0x1E : UInt8)) >>> 1 :=
    L2Addr.forall_octet (by decide +kernel)
  unfold convFromAX25
  rw [hcall, hshift, hssid, ← hshift]

/-- A neighbour with a session is found by its call. -/
theorem flexSessionForCall_isSome {hop : AxCall} {port : ℕ} (h : n.Links hop port)
    (hnamed : hop.isEmpty = false) (hcall : flexNormalizeCallsign hop ≠ []) :
    (n.flexSessionForCall (flexNormalizeCallsign hop)).isSome = true := by
  obtain ⟨s, hactive, -, hsame⟩ := h
  have hname : (n.sessions s).peerCallsign.isEmpty = false := by
    rw [AxCall.isEmpty, (L2Table.same_iff.mp hsame).1]
    exact hnamed
  have htext : flexNormalizeCallsign (n.sessions s).peerCallsign = flexNormalizeCallsign hop := by
    rw [flexNormalizeCallsign, convFromAX25_same hsame]
    rfl
  unfold Node.flexSessionForCall
  rw [if_neg (by simpa using hcall), List.find?_isSome]
  refine ⟨s, List.mem_finRange s, ?_⟩
  rw [hactive, hname, htext]
  simp [strcasecmp]

/-- The hop of the routing table has a session on its port. -/
theorem resolve_links {dest hop : AxCall} {pinned : Bool} {hopPort : ℕ}
    (h : (n.flexL2ResolveHop dest).2 = .hop hop pinned hopPort) : n.Links hop hopPort := by
  unfold flexL2ResolveHop at h
  dsimp only at h
  split at h
  · cases h
  split at h
  · cases h
  split at h
  · cases h
  rename_i via hvia
  split at h
  · cases h
  split at h
  · cases h
  obtain ⟨rfl, -, rfl⟩ := L2Hop.hop.inj h
  refine ⟨via, ?_, rfl, same_self _⟩
  obtain ⟨d, -, hheal⟩ := Option.bind_eq_some_iff.mp hvia
  have hcalled : n.flexSessionForCall d.viaCallsign.bytes = some via →
      (n.sessions via).active = true := by
    intro hcall
    unfold Node.flexSessionForCall at hcall
    split at hcall
    · cases hcall
    · have hfound := List.find?_some hcall
      simp only [Bool.and_eq_true] at hfound
      exact hfound.1.1
  unfold Node.healedVia at hheal
  split at hheal
  · split at hheal
    · rename_i hactive
      obtain rfl := Option.some.inj hheal
      exact hactive
    · exact hcalled hheal
  · exact hcalled hheal

/-! ## The circuit of an extended frame -/

/-- What an extension leaves in the table: the frame's circuit in a slot, with the port of the hop,
and the other circuits as they were. -/
structure Written (k k' : L2Node) (port : ℕ) (f : L2Frame) (e : Option L2Slot) (pinned : Bool)
    (hopPort : ℕ) (i : L2Slot) : Prop where
  beside : Beside k k'
  pair : (k'.circuits i).ofPair f.origin.toAxCall f.dest.toAxCall port = true
  live : (k'.circuits i).state k.now ≠ .expired
  out : (k'.circuits i).outEff =
    if pinned then (k.circuits i).outEff else if hopPort = 0 then port else hopPort
  back : ∀ user dest p, (k'.circuits i).returns k.now user dest p = true →
    (k'.circuits i).outEff = p ∨ e = some i ∧ (k.circuits i).returns k.now user dest p = true
  others : ∀ j, j ≠ i → Swept k.now (k.circuits j) (k'.circuits j)

/-- The circuit after the extension: where replies came back before, or on its port. -/
theorem returns_extended {c : L2Circuit} {pinned fresh : Bool} {nexthop user dest : AxCall}
    {hopPort p : ℕ} {now : ℤ} (hactive : c.active = true) (hlive : c.state now ≠ .expired)
    (h : ((if pinned then c else repin c fresh nexthop hopPort).used kind now).returns now user dest
      p = true) :
    ((if pinned then c else repin c fresh nexthop hopPort).used kind now).outEff = p ∨
      c.returns now user dest p = true := by
  obtain ⟨-, -, huser, hdest, hport⟩ := returns_iff.mp h
  rcases hport with hout | ⟨hnamed, hprev⟩
  · exact .inl hout
  refine .inr (returns_iff.mpr ?_)
  cases pinned with
  | true =>
      obtain ⟨closing, closedAt, heq, -⟩ := used_eq c kind now
      rw [if_pos rfl, heq] at huser hdest hnamed hprev
      exact ⟨hactive, hlive, huser, hdest, .inr ⟨hnamed, hprev⟩⟩
  | false =>
      rw [if_neg (by simp)] at huser hdest hnamed hprev
      obtain ⟨closing, closedAt, heq, -⟩ := used_eq (repin c fresh nexthop hopPort) kind now
      rw [heq] at huser hdest hnamed hprev
      unfold repin at huser hdest hnamed hprev
      dsimp only at huser hdest hnamed hprev
      split at hnamed
      · -- the hop it replaces went out on the port the circuit had
        rename_i hother
        rw [if_pos hother] at huser hdest hprev
        exact ⟨hactive, hlive, huser, hdest, .inl hprev⟩
      · rename_i hsame
        rw [if_neg hsame] at huser hdest hprev
        exact ⟨hactive, hlive, huser, hdest, .inr ⟨hnamed, hprev⟩⟩

theorem outEff_extended {c : L2Circuit} {pinned fresh : Bool} {nexthop : AxCall} {hopPort : ℕ}
    {now : ℤ} : ((if pinned then c else repin c fresh nexthop hopPort).used kind now).outEff =
      if pinned then c.outEff else if hopPort = 0 then c.port else hopPort := by
  obtain ⟨closing, closedAt, heq, -⟩ :=
    used_eq (if pinned then c else repin c fresh nexthop hopPort) kind now
  rw [heq]
  cases pinned with
  | true => rfl
  | false =>
      obtain ⟨prevOutPort, hrepin⟩ := repin_eq c fresh nexthop hopPort
      rw [if_neg (by simp), hrepin]
      rfl

/-- The used circuit of the frame in its slot. -/
theorem written_used {c : L2Circuit} {t : L2Table} {i : L2Slot}
    (hpair : c.ofPair f.origin.toAxCall f.dest.toAxCall port = true)
    (hlive : c.state k.now ≠ .expired)
    (hout : (c.used kind k.now).outEff =
      if pinned then (k.circuits i).outEff else if hopPort = 0 then port else hopPort)
    (hback : ∀ user dest p, (c.used kind k.now).returns k.now user dest p = true →
      (c.used kind k.now).outEff = p ∨ e = some i ∧ (k.circuits i).returns k.now user dest p = true)
    (hswept : ∀ j, j ≠ i → Swept k.now (k.circuits j) (t j)) :
    Written k { k with circuits := Function.update t i (c.used kind k.now) } port f e pinned hopPort
      i := by
  have hself : Function.update t i (c.used kind k.now) i = c.used kind k.now :=
    Function.update_self ..
  refine ⟨⟨rfl, rfl, rfl, rfl⟩, ?_, ?_, ?_, ?_, fun j hj => ?_⟩ <;> dsimp only
  · rw [hself, ofPair_used]
    exact hpair
  · rw [hself]
    exact state_used hlive
  · rw [hself]
    exact hout
  · rw [hself]
    exact hback
  · rw [Function.update_of_ne hj]
    exact hswept j hj

theorem extend_written_found {i : L2Slot} (he : k.Entry port f (some i)) {nexthop : AxCall}
    (hext : (k.flexL2Extend port f (some i) nexthop pinned hopPort kind).2 = some f') :
    f.appendDigi nexthop = some f' ∧
      Written k (k.flexL2Extend port f (some i) nexthop pinned hopPort kind).1 port f
        (some i) pinned hopPort i := by
  obtain ⟨hpair, hlive⟩ := he.found i rfl
  obtain ⟨hactive, hport, -⟩ := ofPair_iff.mp hpair
  unfold flexL2Extend l2Entry at hext ⊢
  dsimp only at hext ⊢
  cases happend : f.appendDigi nexthop with
  | none =>
      rw [happend] at hext
      cases hext
  | some g =>
      rw [happend] at hext
      obtain rfl := Option.some.inj hext
      set fresh := (some i).isNone || (k.circuits i).appended.isEmpty
      set c := if pinned then k.circuits i else repin (k.circuits i) fresh nexthop hopPort with hc
      refine ⟨rfl, written_used (c := c) ?_ ?_ ?_ (fun user dest p hback => ?_)
        fun j _ => .refl _ _⟩
      · rw [← hpair, hc]
        split
        · rfl
        · exact ofPair_repin ..
      · rw [hc]
        split
        · exact hlive
        · obtain ⟨prevOutPort, heq⟩ := repin_eq (k.circuits i) fresh nexthop hopPort
          rw [heq]
          exact hlive
      · rw [hc, outEff_extended, hport]
      · exact (returns_extended hactive hlive hback).imp_right fun h => ⟨rfl, h⟩

theorem extend_written_new {i : L2Slot} {t : L2Table} {nexthop : AxCall}
    (hswept : k.circuits.Swept k.now t)
    (hentry : k.l2Entry port f none = (({ k with circuits := t } : L2Node).setCircuit i
      (.fresh k.now f.origin.toAxCall f.dest.toAxCall port), some i))
    (hext : (k.flexL2Extend port f none nexthop false hopPort kind).2 = some f') :
    f.appendDigi nexthop = some f' ∧
      Written k (k.flexL2Extend port f none nexthop false hopPort kind).1 port f none false hopPort
        i := by
  unfold flexL2Extend at hext ⊢
  rw [hentry] at hext ⊢
  set fresh := L2Circuit.fresh k.now f.origin.toAxCall f.dest.toAxCall port
  have hslot : (({ k with circuits := t } : L2Node).setCircuit i fresh).circuits i = fresh :=
    Function.update_self ..
  dsimp only at hext ⊢
  cases happend : f.appendDigi nexthop with
  | none =>
      rw [happend] at hext
      cases hext
  | some g =>
      rw [happend] at hext
      obtain rfl := Option.some.inj hext
      refine ⟨rfl, ?_⟩
      dsimp only
      rw [hslot]
      obtain ⟨prevOutPort, heq⟩ := repin_eq fresh true nexthop hopPort
      refine written_used (k := k) (t := Function.update t i fresh)
        (c := repin fresh true nexthop hopPort) ?_ ?_ ?_ (fun user dest p hback => ?_)
        fun j hj => ?_
      · rw [ofPair_repin]
        exact ofPair_iff.mpr ⟨rfl, rfl, same_self _, same_self _⟩
      · rw [heq]
        exact state_fresh k.now f.origin.toAxCall f.dest.toAxCall port
      · exact @outEff_extended kind fresh false true nexthop hopPort k.now
      · -- a new one has no hop before
        obtain ⟨-, -, -, -, hout | ⟨hnamed, -⟩⟩ := returns_iff.mp hback
        · exact .inl hout
        · rw [(used_key _ kind k.now).2.2, heq] at hnamed
          cases hnamed
      · rw [Function.update_of_ne hj]
        exact hswept j

theorem extend_written (he : k.Entry port f e) {nexthop : AxCall} {pinned : Bool} {hopPort : ℕ}
    (hpin : pinned = true → ∃ i, e = some i)
    (hext : (k.flexL2Extend port f e nexthop pinned hopPort kind).2 = some f') :
    f.appendDigi nexthop = some f' ∧ ∃ i, (∀ j, e = some j → i = j) ∧
      Written k (k.flexL2Extend port f e nexthop pinned hopPort kind).1 port f
        e pinned hopPort i := by
  rcases l2Entry_cases he with ⟨hnone, t, ht, -⟩ | ⟨i, rfl, -⟩ | ⟨rfl, i, t, hswept, -, hentry⟩
  · unfold flexL2Extend at hext
    rw [show k.l2Entry port f e = ({ k with circuits := t }, none) from Prod.ext ht hnone] at hext
    cases hext
  · obtain ⟨happend, hwritten⟩ := extend_written_found he hext
    exact ⟨happend, i, fun j hj => Option.some.inj hj, hwritten⟩
  · have hp : pinned = false := by
      rw [← Bool.not_eq_true]
      intro hp
      obtain ⟨j, hj⟩ := hpin hp
      cases hj
    subst hp
    obtain ⟨happend, hwritten⟩ := extend_written_new hswept hentry hext
    exact ⟨happend, i, (fun j hj => by cases hj), hwritten⟩

/-! ## The port an extended frame leaves on -/

/-- A search for the circuit of a frame finds it where it is. -/
theorem find_own (hunique : k.circuits.Unique) {i : L2Slot}
    (hpair : (k.circuits i).ofPair f.origin.toAxCall f.dest.toAxCall port = true)
    (hlive : (k.circuits i).state k.now ≠ .expired) :
    (k.l2Find f.origin.toAxCall f.dest.toAxCall port false).2 = some i ∧
      (k.l2Find f.origin.toAxCall f.dest.toAxCall port false).1.circuits i = k.circuits i := by
  obtain ⟨hswept, hentry⟩ := l2Find_entry k port f
  have hsame : (k.l2Find f.origin.toAxCall f.dest.toAxCall port false).1.circuits i =
      k.circuits i := by
    rcases hswept i with heq | ⟨hexpired, -⟩
    · exact heq
    · exact absurd hexpired hlive
  refine ⟨?_, hsame⟩
  cases hfound : (k.l2Find f.origin.toAxCall f.dest.toAxCall port false).2 with
  | none =>
      have hnone := hentry.none hfound i
      rw [hsame, hpair] at hnone
      cases hnone
  | some j =>
      obtain ⟨hpair', -⟩ := hentry.found j hfound
      exact congrArg some (hunique _ _ _ j i ((hswept j).ofPair hpair') hpair)

/-- A port that does not digipeat keeps its frames. -/
theorem chosen_zero (hdigi : k.digiFlag port = some 0) : (k.flexL2ChoosePort port f our).2 = 0 := by
  unfold flexL2ChoosePort
  dsimp only
  have hflags :
      (k.l2Find f.origin.toAxCall f.dest.toAxCall port false).1.digiFlag = k.digiFlag := rfl
  split
  · rfl
  split
  · rfl
  rw [hflags, if_pos (.inl hdigi)]

/-- With no circuit of the other direction, it is the port of the circuit. -/
theorem chosen_own (hcross : k.cfg.crossportActive = true)
    (hrev : k.l2FindRev f.dest.toAxCall f.origin.toAxCall port = none) {i : L2Slot}
    (hown : (k.l2Find f.origin.toAxCall f.dest.toAxCall port false).2 = some i)
    (hsame : (k.l2Find f.origin.toAxCall f.dest.toAxCall port false).1.circuits i = k.circuits i)
    (hout : (k.circuits i).outEff ≠ 0) (hdigi : k.digiFlag port ≠ some 0)
    (hexists : k.digiFlag (k.circuits i).outEff ≠ none) :
    (k.flexL2ChoosePort port f our).2 =
      if (k.circuits i).outEff = port then 0 else (k.circuits i).outEff := by
  have hflags :
      (k.l2Find f.origin.toAxCall f.dest.toAxCall port false).1.digiFlag = k.digiFlag := rfl
  unfold flexL2ChoosePort
  dsimp only
  rw [hcross, Bool.true_or, Bool.true_or, Bool.true_or, if_neg (by simp), hrev]
  generalize k.l2Find f.origin.toAxCall f.dest.toAxCall port false = found at hown hsame hflags
  obtain ⟨m, fwd⟩ := found
  dsimp only at hown hsame hflags ⊢
  subst hown
  have hchosen : ∀ extPort peerPort, flexL2OutPort port 0 (m.circuits i).outEff extPort peerPort =
      (k.circuits i).outEff := by
    intro extPort peerPort
    rw [hsame, flexL2OutPort, if_neg (by simp), if_pos hout]
  simp only [Option.elim_none, Option.elim_some, hchosen, hflags]
  split_ifs with harrive hnone
  · rfl
  · exact absurd hnone (not_or_intro hdigi hexists)
  · rfl

/-- The frame goes to the chosen port. -/
theorem leaves_chosen {out : L2Out} {arrive p : ℕ} (hp : p ≠ 0)
    (h : out.toPort = if p = arrive then 0 else p) : out.leaves arrive = p := by
  rw [L2Out.leaves, h]
  by_cases heq : p = arrive
  · rw [if_pos heq, if_pos rfl, heq]
  · rw [if_neg heq, if_neg hp]

/-- It leaves on the port of its circuit, or where a circuit of the other direction came from. -/
theorem chosen_extended (hcross : k.cfg.crossportActive = true) (hunique : k.circuits.Unique)
    {i : L2Slot} (hpair : (k.circuits i).ofPair f.origin.toAxCall f.dest.toAxCall port = true)
    (hlive : (k.circuits i).state k.now ≠ .expired) (hout : (k.circuits i).outEff ≠ 0)
    (hexists : k.digiFlag (k.circuits i).outEff ≠ none)
    (hback : ∀ j, k.l2FindRev f.dest.toAxCall f.origin.toAxCall port = some j →
      (k.circuits j).port ≠ 0 ∧ k.digiFlag (k.circuits j).port ≠ none)
    {out : L2Out} (hresult : (k.withPort port f our).2 = some out)
    (hsent : out.toPort ≠ 0 ∨ k.digiFlag port ≠ some 0) :
    out.leaves port = (k.circuits i).outEff ∨ ∃ j,
      k.l2FindRev f.dest.toAxCall f.origin.toAxCall port = some j ∧
        out.leaves port = (k.circuits j).port := by
  rw [withPort_eq] at hresult
  obtain rfl := Option.some.inj hresult
  have hdigi : k.digiFlag port ≠ some 0 := by
    intro hdigi
    rcases hsent with hto | hsent
    · exact hto (chosen_zero hdigi)
    · exact hsent hdigi
  cases hrev : k.l2FindRev f.dest.toAxCall f.origin.toAxCall port with
  | some j =>
      obtain ⟨hport, hexists'⟩ := hback j hrev
      exact .inr ⟨j, rfl, leaves_chosen hport (chosen_port hcross hrev hport hdigi hexists')⟩
  | none =>
      obtain ⟨hown, hsame⟩ := find_own hunique hpair hlive
      exact .inl (leaves_chosen hout (chosen_own hcross hrev hown hsame hout hdigi hexists))

/-! ## What a frame leaves of a circuit -/

theorem circuits_setCircuit (n : L2Node) (i : L2Slot) (c : L2Circuit) :
    (n.setCircuit i c).circuits i = c :=
  Function.update_self _ _ _

theorem circuits_setCircuit_ne (n : L2Node) {i j : L2Slot} (c : L2Circuit) (hj : j ≠ i) :
    (n.setCircuit i c).circuits j = n.circuits j :=
  Function.update_of_ne hj _ _

/-- The circuit that a frame returns on is used. -/
theorem kept_back {i : L2Slot} (hrev : n.l2FindRev f.dest.toAxCall f.origin.toAxCall port = some i)
    {j : L2Slot} (hactive : (n.circuits j).active = true) :
    Kept n.now (n.circuits j) ((n.setCircuit i ((n.circuits i).used kind n.now)).circuits j) := by
  by_cases hij : j = i
  · subst hij
    obtain ⟨-, hlive, -⟩ := returns_iff.mp (l2FindRev_some hrev)
    rw [circuits_setCircuit]
    exact kept_used hactive hlive
  · rw [circuits_setCircuit_ne _ _ hij]
    exact .refl hactive

/-- A pin that is kept is kept with its port. -/
theorem kept_extend {i : L2Slot} {nexthop : AxCall} {hopPort : ℕ}
    (hactive : (k.circuits i).active = true) (hlive : (k.circuits i).state k.now ≠ .expired)
    (hnamed : (k.circuits i).appended.isEmpty = false) :
    Kept k.now (k.circuits i)
      ((k.flexL2Extend port f (some i) nexthop true hopPort kind).1.circuits i) := by
  unfold flexL2Extend l2Entry
  dsimp only
  rw [hnamed, Option.isNone_some, Bool.or_self]
  cases f.appendDigi nexthop with
  | none => exact .refl hactive
  | some f' =>
      dsimp only
      rw [circuits_setCircuit]
      exact kept_used hactive hlive

/-- A frame keeps its circuit's pin, when it is not picked anew. -/
theorem kept_own (hunique : n.circuits.Unique) {i : L2Slot}
    (hpair : (n.circuits i).ofPair f.origin.toAxCall f.dest.toAxCall port = true)
    (hlive : (n.circuits i).state n.now ≠ .expired) (hkeeps : n.KeepsPin f.kind (n.circuits i)) :
    Kept n.now (n.circuits i) ((n.flexNetL2Transit port f our).1.circuits i) := by
  have hactive := (ofPair_iff.mp hpair).1
  have hfound : ∀ k e, Searched n k port f e → e = some i ∧ k.circuits i = n.circuits i := by
    intro k e hsearched
    refine ⟨own_found hunique hsearched.swept hsearched.entry hpair hlive, ?_⟩
    rcases hsearched.swept i with heq | ⟨hexpired, -⟩
    · exact heq
    · exact absurd hexpired hlive
  refine transit_rule (P := fun t => Kept n.now (n.circuits i) (t i)) (.refl hactive)
    (fun t t' hkept hswept => hkept.swept_right hlive (hswept i))
    (fun j hrev => kept_back hrev hactive) (fun k e hopPort hsearched hfree => ?_)
    (fun k e nexthop pinned hopPort hsearched hpicks => ?_)
  · exact absurd hkeeps (hfree i (hfound k e hsearched).1)
  · obtain ⟨rfl, heq⟩ := hfound k e hsearched
    rcases hpicks with ⟨j, -, -, rfl, -, -⟩ | ⟨hfree, -⟩
    · have hnow : k.now = n.now := hsearched.beside.now
      rw [← heq, ← hnow]
      rw [← heq] at hactive hlive
      rw [← hnow] at hlive
      refine kept_extend hactive hlive ?_
      rw [heq]
      exact hkeeps.1
    · exact absurd hkeeps (hfree i rfl)

/-- What is written to the circuit of a frame is no other circuit's. -/
theorem holds_written (he : k.Entry port f e) {i j : L2Slot} (hj : e ≠ some j)
    (hentry : (k.l2Entry port f e).2 = some i) {c : L2Circuit}
    (hc : c.active = true → c.user = ((k.l2Entry port f e).1.circuits i).user ∧
      c.dest = ((k.l2Entry port f e).1.circuits i).dest ∧
      c.port = ((k.l2Entry port f e).1.circuits i).port ∧ c.state k.now ≠ .expired) :
    Holds k.now (k.circuits j) (((k.l2Entry port f e).1.setCircuit i c).circuits j) := by
  rcases l2Entry_cases he with ⟨hnone, -⟩ | ⟨i', rfl, hentry'⟩ | ⟨rfl, i', t, hswept, hall, hentry'⟩
  · rw [hnone] at hentry
    cases hentry
  · rw [hentry'] at hentry ⊢
    obtain rfl := Option.some.inj hentry
    rw [circuits_setCircuit_ne _ _ fun h => hj (congrArg some h.symm)]
    exact (Swept.refl k.now _).holds
  · rw [hentry'] at hentry hc ⊢
    obtain rfl := Option.some.inj hentry
    dsimp only at hc ⊢
    by_cases hij : j = i'
    · subst hij
      rw [circuits_setCircuit] at hc ⊢
      intro hactive
      obtain ⟨huser, hdest, hport, hlive⟩ := hc hactive
      exact .inr ((new_of_none (hall j) hlive huser hdest hport).swept_left (hswept j))
    · rw [circuits_setCircuit_ne _ _ hij, circuits_setCircuit_ne _ _ hij]
      exact (hswept j).holds

theorem holds_entry (he : k.Entry port f e) (hnone : (k.l2Entry port f e).2 = none) (j : L2Slot) :
    Holds k.now (k.circuits j) ((k.l2Entry port f e).1.circuits j) := by
  rcases l2Entry_cases he with ⟨-, t, ht, hswept⟩ | ⟨i, rfl, hentry⟩ | ⟨rfl, i, t, -, -, hentry⟩
  · rw [ht]
    exact (hswept j).holds
  · rw [hentry] at hnone
    cases hnone
  · rw [hentry] at hnone
    cases hnone

theorem entry_live (he : k.Entry port f e) {i : L2Slot} (hentry : (k.l2Entry port f e).2 = some i) :
    ((k.l2Entry port f e).1.circuits i).state k.now ≠ .expired := by
  rcases l2Entry_cases he with ⟨hnone, -⟩ | ⟨i', rfl, hentry'⟩ | ⟨rfl, i', t, -, -, hentry'⟩
  · rw [hnone] at hentry
    cases hentry
  · rw [hentry'] at hentry ⊢
    obtain rfl := Option.some.inj hentry
    exact (he.found _ rfl).2
  · rw [hentry'] at hentry ⊢
    obtain rfl := Option.some.inj hentry
    dsimp only
    rw [circuits_setCircuit]
    exact state_fresh k.now f.origin.toAxCall f.dest.toAxCall port

/-- The use of a circuit that has the key of another. -/
theorem used_written {c d : L2Circuit} {now : ℤ} (huser : c.user = d.user) (hdest : c.dest = d.dest)
    (hport : c.port = d.port) (hlive : c.state now ≠ .expired) :
    (c.used kind now).user = d.user ∧ (c.used kind now).dest = d.dest ∧
      (c.used kind now).port = d.port ∧ (c.used kind now).state now ≠ .expired := by
  have hused := @state_used _ _ kind hlive
  obtain ⟨closing, closedAt, heq, -⟩ := used_eq c kind now
  rw [heq] at hused ⊢
  exact ⟨huser, hdest, hport, hused⟩

theorem holds_noteAdjacent (he : k.Entry port f e) {j : L2Slot} (hj : e ≠ some j) (hopPort : ℕ) :
    Holds k.now (k.circuits j) ((k.flexL2NoteAdjacent port f e hopPort kind).circuits j) := by
  have hnow := (touches_entry he).1
  have hnone := holds_entry he
  have hlive := fun i => entry_live he (i := i)
  have hwritten := fun i => holds_written he (i := i) hj
  unfold flexL2NoteAdjacent
  generalize k.l2Entry port f e = found at hnow hnone hlive hwritten
  obtain ⟨m, found⟩ := found
  dsimp only at hnow hnone hlive hwritten
  cases found with
  | none => exact hnone rfl j
  | some i =>
      dsimp only
      rw [hnow]
      refine hwritten i rfl fun _ => ?_
      exact used_written (c := { m.circuits i with outPort := hopPort }) rfl rfl rfl (hlive i rfl)

theorem holds_extend (he : k.Entry port f e) {j : L2Slot} (hj : e ≠ some j) (nexthop : AxCall)
    (pinned : Bool) (hopPort : ℕ) :
    Holds k.now (k.circuits j)
      ((k.flexL2Extend port f e nexthop pinned hopPort kind).1.circuits j) := by
  have hnow := (touches_entry he).1
  have hnone := holds_entry he
  have hlive := fun i => entry_live he (i := i)
  have hwritten := fun i => holds_written he (i := i) hj
  unfold flexL2Extend
  generalize k.l2Entry port f e = found at hnow hnone hlive hwritten
  obtain ⟨m, found⟩ := found
  dsimp only at hnow hnone hlive hwritten
  cases found with
  | none => exact hnone rfl j
  | some i =>
      dsimp only
      have hsame : Holds k.now (k.circuits j) (m.circuits j) := by
        have h := hwritten i rfl fun _ => ⟨rfl, rfl, rfl, hlive i rfl⟩
        rwa [setCircuit, Function.update_eq_self] at h
      cases f.appendDigi nexthop with
      | none =>
          dsimp only
          split
          · exact hwritten i rfl fun hactive => by cases hactive
          · exact hsame
      | some f' =>
          dsimp only
          rw [hnow]
          refine hwritten i rfl fun _ => ?_
          split
          · exact used_written rfl rfl rfl (hlive i rfl)
          · obtain ⟨prevOutPort, heq⟩ := repin_eq (m.circuits i)
              (e.isNone || (m.circuits i).appended.isEmpty) nexthop hopPort
            rw [heq]
            exact used_written (d := m.circuits i) rfl rfl rfl (hlive i rfl)

/-- The frames of other pairs leave the pin of a circuit. -/
theorem holds_other {i : L2Slot}
    (hpair : (n.circuits i).ofPair f.origin.toAxCall f.dest.toAxCall port = false) :
    Holds n.now (n.circuits i) ((n.flexNetL2Transit port f our).1.circuits i) := by
  have hother : ∀ k e, Searched n k port f e → e ≠ some i := by
    intro k e hsearched he
    have hfound := (hsearched.swept i).ofPair (hsearched.entry.found i he).1
    rw [hpair] at hfound
    cases hfound
  refine transit_rule (P := fun t => Holds n.now (n.circuits i) (t i))
    (Swept.refl n.now (n.circuits i)).holds
    (fun t t' hholds hswept => hholds.swept_right (hswept i)) (fun j hrev hactive => ?_)
    (fun k e hopPort hsearched _ => ?_) (fun k e nexthop pinned hopPort hsearched _ => ?_)
  · refine .inl (kept_back hrev ?_)
    by_cases hij : i = j
    · subst hij
      exact (returns_iff.mp (l2FindRev_some hrev)).1
    · rwa [circuits_setCircuit_ne _ _ hij] at hactive
  · have h := @holds_noteAdjacent _ _ _ f.kind _ hsearched.entry _ (hother k e hsearched) hopPort
    rw [hsearched.beside.now] at h
    exact h.swept_left (hsearched.swept i)
  · have h := @holds_extend _ _ _ f.kind _ hsearched.entry _ (hother k e hsearched) nexthop pinned
      hopPort
    rw [hsearched.beside.now] at h
    exact h.swept_left (hsearched.swept i)

end L2Node

namespace L2Table

variable {t t' : L2Table} {x : L2Input} {xs : List L2Input} {i : L2Slot} {hop : AxCall}

/-! ## What is claimed of a pin -/

/-- What BPQ sees to: the ports of the sessions are in its table of ports, where none has number 0,
and a link has a call. -/
structure Wired (x : L2Input) : Prop where
  numbered : x.node.digiFlag 0 = none
  sessions : ∀ s, (x.node.sessions s).active = true →
    x.node.digiFlag (x.node.sessions s).port ≠ none ∧
      flexNormalizeCallsign (x.node.sessions s).peerCallsign ≠ []

/-- The circuit of a frame is open, in a slot. -/
def Own (t : L2Table) (x : L2Input) (i : L2Slot) : Prop :=
  (t i).ofPair x.frame.origin.toAxCall x.frame.dest.toAxCall x.port = true ∧
    (t i).state x.node.now ≠ .expired

/-- The hop of a frame can be reached on a port: the pin that is kept is on it, or the hop of the
routing table has a session there. -/
def Reaches (t : L2Table) (x : L2Input) (port : ℕ) : Prop :=
  (∀ i, Own t x i → x.node.KeepsPin x.frame.kind (t i) → port = (t i).outEff) ∧
    ((∀ i, Own t x i → ¬ x.node.KeepsPin x.frame.kind (t i)) → ∀ hop pinned hopPort,
      (x.node.flexL2ResolveHop x.frame.dest.toAxCall).2 = .hop hop pinned hopPort →
        x.node.Links hop port)

/-- A pin that is kept has a session on the port of its circuit, and the circuits that the frame may
return on came in on a port of the hop. -/
structure Carriable (t : L2Table) (x : L2Input) : Prop where
  pin : ∀ i, Own t x i → x.node.KeepsPin x.frame.kind (t i) →
    x.node.Links (t i).appended (t i).outEff
  back : ∀ j, (t j).returns x.node.now x.frame.dest.toAxCall x.frame.origin.toAxCall x.port = true →
    Reaches t x (t j).port

/-- The frame comes to a circuit whose next hop can carry it: it has a session on the out port, and
the frame is no SABM after a completed teardown. -/
structure Carries (t : L2Table) (x : L2Input) (i : L2Slot) : Prop where
  own : Own t x i
  named : (t i).appended.isEmpty = false
  linked : x.node.Links (t i).appended (t i).outEff
  reopens : ¬ ((t i).closedAt ≠ 0 ∧ x.frame.kind = .sabm)

/-- The frame is extended, and `Digipeat` sends it. -/
def SentOn (t : L2Table) (x : L2Input) (hop : AxCall) (port : ℕ) : Prop :=
  ∃ out, t.result x = some out ∧ x.frame.appendDigi hop = some out.frame ∧
    (out.toPort ≠ 0 ∨ x.node.digiFlag x.port ≠ some 0) ∧ out.leaves x.port = port

/-- A frame that is extended leaves on a port where its new hop has a session.  A circuit whose hop
can carry the frame keeps the hop and the port, and the frame leaves that way; the frames of other
pairs do not change a circuit's hop. -/
structure PinStable (t : L2Table) (x : L2Input) : Prop where
  carried : ∀ hop port, SentOn t x hop port → x.node.Links hop port
  kept : ∀ i, Carries t x i → Kept x.node.now (t i) (t.step x i)
  follows : ∀ i hop port, Carries t x i → SentOn t x hop port →
    hop.same (t i).appended = true ∧ port = (t i).outEff
  others : ∀ i, KeepsAt i t x →
    (t i).ofPair x.frame.origin.toAxCall x.frame.dest.toAxCall x.port = false →
      Kept x.node.now (t i) (t.step x i)

/-! ## The steps of a run -/

theorem Wired.linked (hw : Wired x) {port : ℕ} (h : x.node.Links hop port) :
    port ≠ 0 ∧ x.node.digiFlag port ≠ none := by
  obtain ⟨s, hactive, rfl, -⟩ := h
  obtain ⟨hexists, -⟩ := hw.sessions s hactive
  refine ⟨fun hzero => hexists ?_, hexists⟩
  rw [hzero]
  exact hw.numbered

/-- A hop that can carry the frame is kept. -/
theorem Carries.keepsPin (h : Carries t x i) (hw : Wired x) :
    x.node.KeepsPin x.frame.kind (t i) := by
  refine ⟨h.named, ?_⟩
  have hcall : flexNormalizeCallsign (t i).appended ≠ [] := by
    obtain ⟨s, hactive, -, hsame⟩ := h.linked
    have hpeer := (hw.sessions s hactive).2
    rwa [flexNormalizeCallsign, L2Node.convFromAX25_same hsame] at hpeer
  rw [L2Node.flexSessionForCall_isSome h.linked h.named hcall, flexL2MustRepin, Bool.not_true,
    Bool.false_or, Bool.and_eq_false_iff]
  have hreopens := h.reopens
  by_cases hclosed : (t i).closedAt = 0
  · exact .inl (by simpa using hclosed)
  · exact .inr (by simpa using fun hkind => hreopens ⟨hclosed, hkind⟩)

/-! ## Where an extended frame goes -/

/-- The way of a frame with a hop: to its pin on the port of the circuit, or to a port where
routing's hop has a session. -/
def Way (t : L2Table) (x : L2Input) (hop : AxCall) (port : ℕ) : Prop :=
  (∃ i, Own t x i ∧ x.node.KeepsPin x.frame.kind (t i) ∧ hop.same (t i).appended = true ∧
      port = (t i).outEff) ∨
    ((∀ i, Own t x i → ¬ x.node.KeepsPin x.frame.kind (t i)) ∧ x.node.Links hop port)

/-- The hop that was picked for a frame, with the port its circuit then has: the pin that is kept,
or routing's hop. -/
def Picked (t : L2Table) (x : L2Input) (nexthop : AxCall) (hopPort port : ℕ) : Prop :=
  (∃ i, Own t x i ∧ x.node.KeepsPin x.frame.kind (t i) ∧ nexthop = (t i).appended ∧
      port = (t i).outEff) ∨
    ((∀ i, Own t x i → ¬ x.node.KeepsPin x.frame.kind (t i)) ∧
      (x.node.flexL2ResolveHop x.frame.dest.toAxCall).2 = .hop nexthop false hopPort ∧
      port = hopPort)

section

variable {nexthop : AxCall} {pinned : Bool} {hopPort port port' : ℕ} {out : L2Out} {k k' : L2Node}
  {e : Option L2Slot}

theorem Way.links (h : Way t x hop port) (hcond : Carriable t x) : x.node.Links hop port := by
  rcases h with ⟨i, hown, hkept, hsame, rfl⟩ | ⟨-, hlink⟩
  · exact L2Node.links_of_same (hcond.pin i hown hkept) hsame
  · exact hlink

theorem Picked.links (h : Picked t x nexthop hopPort port) (hcond : Carriable t x) :
    x.node.Links nexthop port := by
  rcases h with ⟨i, hown, hkept, rfl, rfl⟩ | ⟨-, hresolve, rfl⟩
  · exact hcond.pin i hown hkept
  · exact L2Node.resolve_links hresolve

/-- The port of the circuit is a way, and so is every port on which the hop is reached. -/
theorem Picked.way (h : Picked t x nexthop hopPort port) (hcond : Carriable t x)
    (hsame : hop.same nexthop = true) (hport : port' = port ∨ Reaches t x port') :
    Way t x hop port' := by
  have hlinks := h.links hcond
  rcases h with ⟨i, hown, hkept, rfl, hout⟩ | ⟨hnone, hresolve, -⟩
  · refine .inl ⟨i, hown, hkept, hsame, ?_⟩
    rcases hport with rfl | hreach
    · exact hout
    · exact hreach.1 i hown hkept
  · refine .inr ⟨hnone, L2Node.links_of_same ?_ hsame⟩
    rcases hport with rfl | hreach
    · exact hlinks
    · exact hreach.2 hnone nexthop false hopPort hresolve

/-- The circuit that the search found is the frame's own. -/
theorem own_of_entry (hsearched : L2Node.Searched (t.node x) k x.port x.frame e) {j : L2Slot}
    (hj : e = some j) : Own t x j ∧ k.circuits j = t j := by
  obtain ⟨hpair, hlive⟩ := hsearched.entry.found j hj
  have heq : k.circuits j = t j := (hsearched.swept j).eq (ofPair_iff.mp hpair).1
  rw [heq] at hpair hlive
  rw [show k.now = x.node.now from hsearched.beside.now] at hlive
  exact ⟨⟨hpair, hlive⟩, heq⟩

/-- The circuit of an extended frame has the port of its hop. -/
theorem picked_port (hunique : t.Unique) (hw : Wired x)
    (hext : L2Node.Extends (t.node x) x.port x.frame x.our x.frame.kind out k e nexthop pinned
      hopPort) (hslot : ∀ j, e = some j → i = j)
    (hwritten : L2Node.Written k k' x.port x.frame e pinned hopPort i) :
    Picked t x nexthop hopPort (k'.circuits i).outEff := by
  have hout := hwritten.out
  rcases hext.picks with ⟨j, hj, hkept, rfl, hcall, -⟩ | ⟨hnone, rfl, hresolve⟩
  · obtain ⟨hown, heq⟩ := own_of_entry hext.toSearched hj
    rw [if_pos rfl, hslot j hj, heq] at hout
    rw [hslot j hj]
    exact .inl ⟨j, hown, hkept, hcall, hout⟩
  · have hresolve' := (L2Node.resolve_circuits x.node t x.frame.dest.toAxCall).symm.trans hresolve
    have hport := (hw.linked (L2Node.resolve_links hresolve')).1
    rw [if_neg (by simp), if_neg hport] at hout
    refine .inr ⟨fun j hj => hnone j ?_, hresolve', hout⟩
    exact L2Node.own_found (n := t.node x) hunique hext.swept hext.entry hj.1 hj.2

/-- A circuit the frame may return on came in on the port of the hop, or on one where it is
reached. -/
theorem back_reaches (hsearched : L2Node.Searched (t.node x) k x.port x.frame e)
    (hwritten : L2Node.Written k k' x.port x.frame e pinned hopPort i) (hcond : Carriable t x)
    {j : L2Slot}
    (hj : k'.l2FindRev x.frame.dest.toAxCall x.frame.origin.toAxCall x.port = some j) :
    (k'.circuits j).port = (k'.circuits i).outEff ∨ Reaches t x (k'.circuits j).port := by
  have hnow : k.now = x.node.now := hsearched.beside.now
  have hreturns := L2Node.l2FindRev_some hj
  rw [hwritten.beside.now] at hreturns
  by_cases hij : j = i
  · subst hij
    have hport : (k'.circuits j).port = x.port := (ofPair_iff.mp hwritten.pair).2.1
    rw [hport]
    rcases hwritten.back _ _ _ hreturns with hout | ⟨hown, hreturns⟩
    · exact .inl hout.symm
    · obtain ⟨hpair, heq⟩ := own_of_entry hsearched hown
      rw [heq, hnow] at hreturns
      have hreach := hcond.back j hreturns
      rw [(ofPair_iff.mp hpair.1).2.1] at hreach
      exact .inr hreach
  · have hactive := (L2Node.returns_iff.mp hreturns).1
    have heq := (hwritten.others j hij).eq hactive
    rw [heq] at hactive hreturns ⊢
    have heq' := (hsearched.swept j).eq hactive
    rw [heq', hnow] at hreturns
    rw [heq']
    exact .inr (hcond.back j hreturns)

end

/-- Where a frame that is extended goes. -/
theorem sent_on (hunique : t.Unique) (hw : Wired x)
    (hcross : x.node.cfg.crossportActive = true) (hcond : Carriable t x) {port : ℕ}
    (hsent : SentOn t x hop port) : Way t x hop port := by
  obtain ⟨out, hresult, happend, hdigi, rfl⟩ := hsent
  obtain ⟨k, e, nexthop, pinned, hopPort, hext⟩ := L2Node.transit_extends hresult happend
  have hpin : pinned = true → ∃ i, e = some i := by
    intro hpinned
    rcases hext.picks with ⟨i, hi, -⟩ | ⟨-, hnot, -⟩
    · exact ⟨i, hi⟩
    · rw [hnot] at hpinned
      cases hpinned
  obtain ⟨happend', i, hslot, hwritten⟩ := L2Node.extend_written hext.entry hpin hext.extended
  have hsame : hop.same nexthop = true := same_of_append happend happend'
  have htouches := (@L2Node.touches_extend _ _ _ x.frame.kind _ hext.entry nexthop pinned hopPort).2
  have hresult' := hext.result
  generalize (k.flexL2Extend x.port x.frame e nexthop pinned hopPort x.frame.kind).1 = k'
    at hwritten htouches hresult'
  have hpicked := picked_port hunique hw hext hslot hwritten
  have hback : ∀ j, k'.l2FindRev out.frame.dest.toAxCall out.frame.origin.toAxCall x.port = some j →
      Way t x hop (k'.circuits j).port := by
    intro j hj
    obtain ⟨-, hdest, horigin⟩ := L2Node.append_length happend
    rw [hdest, horigin] at hj
    exact hpicked.way hcond hsame (back_reaches hext.toSearched hwritten hcond hj)
  -- what the choice of the port reads is as it was before the frame
  have hbeside := hext.beside.trans hwritten.beside
  have hcross' : k'.cfg.crossportActive = true := by
    rw [hbeside.cfg]
    exact hcross
  have hflags : k'.digiFlag = x.node.digiFlag := hbeside.digiFlag
  have hunique' : k'.circuits.Unique := by
    have hswept : Touches x.node.now x.port x.frame t k.circuits := .sweep hext.swept
    exact htouches.unique (hswept.unique hunique)
  have hpair := hwritten.pair
  have hlive := hwritten.live
  rw [← (L2Node.append_length happend).2.1, ← (L2Node.append_length happend).2.2] at hpair
  rw [← hwritten.beside.now] at hlive
  have hport := hw.linked (hpicked.links hcond)
  rw [← hflags] at hport hdigi
  have hports : ∀ j,
      k'.l2FindRev out.frame.dest.toAxCall out.frame.origin.toAxCall x.port = some j →
      (k'.circuits j).port ≠ 0 ∧ k'.digiFlag (k'.circuits j).port ≠ none := by
    intro j hj
    rw [hflags]
    exact hw.linked ((hback j hj).links hcond)
  rcases L2Node.chosen_extended hcross' hunique' hpair hlive hport.1 hport.2 hports hresult' hdigi
    with hout | ⟨j, hj, hout⟩
  · exact hpicked.way hcond hsame (.inl hout)
  · rw [hout]
    exact hback j hj

/-- In every run with `FLEXNETCROSSPORT`: a frame finds the pins stable, where on the forward path
its kept pin has a session on the port of its circuit and the circuits of the other direction came
in on the port of its hop. -/
theorem pin_stable (hrun : Run step empty xs t) (hw : Wired x)
    (hcross : x.node.cfg.crossportActive = true)
    (hcond : (t.node x).Outward x.port x.frame x.our → Carriable t x) : PinStable t x := by
  have hunique := unique_run hrun
  have hout : ∀ hop port, SentOn t x hop port → Carriable t x :=
    fun _ _ ⟨_, hresult, happend, _⟩ => hcond (L2Node.transit_forward hresult happend).1
  constructor
  · intro hop port hsent
    have hcarries := hout hop port hsent
    exact (sent_on hunique hw hcross hcarries hsent).links hcarries
  · intro i hi
    exact L2Node.kept_own (n := t.node x) hunique hi.own.1 hi.own.2 (hi.keepsPin hw)
  · intro i hop port hi hsent
    rcases sent_on hunique hw hcross (hout hop port hsent) hsent with
      ⟨j, hown, -, hsame, hport⟩ | ⟨hfree, -⟩
    · obtain rfl := hunique _ _ _ i j hi.own.1 hown.1
      exact ⟨hsame, hport⟩
    · exact absurd (hi.keepsPin hw) (hfree i hi.own)
  · intro i hkeeps hpair
    rcases @L2Node.holds_other (t.node x) _ x.our _ _ hpair hkeeps.after with hkept | hnew
    · exact hkept
    · exact absurd hkeeps hnew.not_keeps

end L2Table

/-! ### A pin and its sessions -/

namespace Bench

open L2Table

/-- The ports of BPQ, numbered from 1. -/
def portTable (port : ℕ) : Option ℤ := if port = 0 then none else some 1

/-- The node with its session with `A` on a port. -/
def pinNode (port : ℕ) : L2Node :=
  { crossNode with
    digiFlag := portTable
    sessions := Function.update crossNode.sessions slotA
      { crossNode.sessions slotA with port := port } }

/-- A frame of `U` to `K` that comes in on port 3, while `A` has its session on a port. -/
def pinnedOn (port : ℕ) (control : UInt8) : L2Input :=
  { opening with
    node := pinNode port
    port := 3
    frame := { opening.frame with tail := [control] } }

/-- The circuit of `U` and `K`, with the pin `A` on port 1. -/
def pinnedTable : L2Table := empty.step (pinnedOn 1 0x3F)

set_option maxRecDepth 10000 in
theorem wired_pinnedOn {port : ℕ} (hport : port = 1 ∨ port = 2) (control : UInt8) :
    Wired (pinnedOn port control) := by
  refine ⟨rfl, fun s hactive => ?_⟩
  change portTable ((pinNode port).sessions s).port ≠ none ∧ _
  rcases hport with rfl | rfl
  · revert s
    change ∀ s, ((pinNode 1).sessions s).active = true →
      portTable ((pinNode 1).sessions s).port ≠ none ∧
      flexNormalizeCallsign ((pinNode 1).sessions s).peerCallsign ≠ []
    decide +kernel
  · revert s
    change ∀ s, ((pinNode 2).sessions s).active = true →
      portTable ((pinNode 2).sessions s).port ≠ none ∧
      flexNormalizeCallsign ((pinNode 2).sessions s).peerCallsign ≠ []
    decide +kernel

theorem run_pinnedTable : Run step empty [pinnedOn 1 0x3F] pinnedTable :=
  .step (pinnedOn 1 0x3F) .start trivial

set_option maxRecDepth 10000 in
/-- With `A` on the port of the circuit, the next frame finds the pin stable. -/
theorem pin_stable_kept : PinStable pinnedTable (pinnedOn 1 0) := by
  have hfirst : ∀ i, (pinnedTable i).active = true → i = firstSlot := by decide +kernel
  have hpin : L2Node.Links (pinnedOn 1 0).node (pinnedTable firstSlot).appended
      (pinnedTable firstSlot).outEff := ⟨slotA, by decide +kernel⟩
  have hback : (pinnedTable firstSlot).returns (pinnedOn 1 0).node.now
      (pinnedOn 1 0).frame.dest.toAxCall (pinnedOn 1 0).frame.origin.toAxCall (pinnedOn 1 0).port =
      false := by decide +kernel
  refine pin_stable run_pinnedTable (wired_pinnedOn (.inl rfl) 0) (by decide)
    fun _ => ⟨fun i hown _ => ?_, fun j hj => ?_⟩
  · obtain rfl := hfirst i (ofPair_iff.mp hown.1).1
    exact hpin
  · obtain rfl := hfirst j (L2Node.returns_iff.mp hj).1
    rw [hback] at hj
    cases hj

set_option maxRecDepth 10000 in
/-- When `A` has its session on another port by then, the frame still leaves on the old one. -/
theorem pin_not_linked : ¬ ∀ (xs : List L2Input) (t : L2Table) (x : L2Input), Run step empty xs t →
    Wired x → x.node.cfg.crossportActive = true → PinStable t x := by
  intro hall
  have hstable := hall _ _ (pinnedOn 2 0) run_pinnedTable (wired_pinnedOn (.inr rfl) 0) (by decide)
  have hresult : pinnedTable.result (pinnedOn 2 0) =
      some ⟨{ (pinnedOn 2 0).frame with digis := openingSent.digis }, 1, 1⟩ := by decide +kernel
  obtain ⟨s, hs⟩ := hstable.carried (addr 0x41) 1
    ⟨_, hresult, by decide +kernel, .inl (by decide), by decide⟩
  have hnone : ∀ s, ¬ (((pinNode 2).sessions s).active = true ∧ ((pinNode 2).sessions s).port = 1 ∧
      ((pinNode 2).sessions s).peerCallsign.same (addr 0x41) = true) := by decide +kernel
  exact hnone s hs

end Bench

end FlexNet
