import FlexNet.L2.PinStable
import FlexNet.L2.Reclaim

/-!
# Frames that are declined

A forward frame that gets no next hop goes on as it came.  The circuit of the frame is looked for,
or made, before there is known to be room for the hop, and undone where there is none:
`flex_l2_extend` then drops a circuit that another frame had made, and a new one may have taken the
slot of another pair (`L2Table.declined_frame`).  So a live circuit is lost exactly where a frame is
too long to get the hop of a circuit that has none yet (`L2Table.live_circuits_kept`).
-/

namespace FlexNet

open Runs L2Circuit

namespace L2Circuit

variable {now : ℤ} {e e' e'' : L2Circuit} {kind : L2Kind}

theorem Swept.known_iff (h : Swept now e e') : e'.Known now ↔ e.Known now := by
  rcases h with rfl | ⟨hexpired, hdead⟩
  · exact Iff.rfl
  · refine iff_of_false (fun hknown => ?_) fun hknown => hknown.2 hexpired
    have hactive := hknown.1
    rw [hdead] at hactive
    cases hactive

theorem Swept.live_iff (h : Swept now e e') : e'.Live now ↔ e.Live now := by
  constructor
  · intro hlive
    rwa [h.eq hlive.1] at hlive
  · intro hlive
    rwa [h.known hlive.known]

/-- A search loses no circuit that has not expired. -/
theorem Swept.lost (h : Swept now e e') : e' = e ∨ (¬ e.Known now ∧ e'.active = false) := by
  rcases h with heq | ⟨hexpired, hdead⟩
  · exact .inl heq
  · exact .inr ⟨fun hknown => hknown.2 hexpired, hdead⟩

/-- A circuit that goes on goes on after a search. -/
theorem Keeps.swept_right (h : Keeps now e e') (hlive : e.state now ≠ .expired)
    (hswept : Swept now e' e'') : Keeps now e e'' := by
  have hlive' : e'.state now ≠ .expired := by
    rcases h.seen with rfl | ⟨-, hlive'⟩
    · exact hlive
    · exact hlive'
  rcases hswept with rfl | ⟨hexpired, -⟩
  · exact h
  · exact absurd hexpired hlive'

end L2Circuit

namespace L2Frame

/-- The frame has room for one more digipeater. -/
def Room (f : L2Frame) : Prop := f.octets.length + 7 ≤ l2MaxFrame

theorem appendDigi_none {f : L2Frame} {call : AxCall} : f.appendDigi call = none ↔ ¬ f.Room := by
  unfold appendDigi Room
  split
  · rename_i hlong
    exact iff_of_true rfl (by omega)
  · rename_i hshort
    exact iff_of_false nofun (by omega)

end L2Frame

namespace L2Node

variable {n k : L2Node} {port our : ℕ} {f : L2Frame} {kind : L2Kind} {e : Option L2Slot}
  {nexthop : AxCall} {pinned : Bool} {hopPort : ℕ}

/-! ## A frame that comes as far as to pick its hop -/

/-- The hop of a forward frame, when `FlexNet_L2Transit` comes as far as to pick one: the node after
it, the circuit that was found, and the hop. -/
def forwardPick (n : L2Node) (port : ℕ) (f : L2Frame) (our : ℕ) :
    Option (L2Node × Option L2Slot × L2Hop) :=
  if !n.cfg.transit || !n.cfg.l2Transit then none
  else if !n.l2Carries port f then none
  else match f.tail.head?, f.digis[our]? with
    | some ctl, some ourDigi =>
      if l2MaxDigis < f.digis.length then none
      else if decide (1 ≤ our) &&
        (n.flexL2Contract port f our (flexL2CtlKind ctl)).2.isSome then none
      else if our + 1 ≠ f.digis.length then none
      else
        let (m, e) := n.l2Find f.origin.toAxCall f.dest.toAxCall port false
        if e.isSome && flexL2SelfRepeated f our ourDigi then none
        else
          let (k, hop) := m.flexL2PickHop e (flexL2CtlKind ctl) f.dest.toAxCall
          some (k, e, hop)
    | _, _ => none

/-- The hop is not put in: it is in the chain, or on another port, or the chain is full. -/
def Bars (k : L2Node) (port : ℕ) (f : L2Frame) (nexthop : AxCall) (hopPort : ℕ) : Prop :=
  f.callInChain nexthop = true ∨ (hopPort ≠ port ∧ k.cfg.crossportActive = false) ∨
    k.l2Cap port ≤ f.digis.length

instance (k : L2Node) (port : ℕ) (f : L2Frame) (nexthop : AxCall) (hopPort : ℕ) :
    Decidable (k.Bars port f nexthop hopPort) :=
  inferInstanceAs (Decidable (_ ∨ _ ∨ _))

/-- The tests of the source, one after the other. -/
theorem bars_ite {α : Type*} (a b : α) :
    (if f.callInChain nexthop = true then a
      else if hopPort ≠ port ∧ k.cfg.crossportActive = false then a
      else if k.l2Cap port ≤ f.digis.length then a else b) =
      if k.Bars port f nexthop hopPort then a else b := by
  by_cases hchain : f.callInChain nexthop = true
  · rw [if_pos hchain, if_pos (.inl hchain)]
  rw [if_neg hchain]
  by_cases hother : hopPort ≠ port ∧ k.cfg.crossportActive = false
  · rw [if_pos hother, if_pos (.inr (.inl hother))]
  rw [if_neg hother]
  by_cases hfull : k.l2Cap port ≤ f.digis.length
  · rw [if_pos hfull, if_pos (.inr (.inr hfull))]
  rw [if_neg hfull, if_neg]
  rintro (hbar | hbar | hbar)
  · exact hchain hbar
  · exact hother hbar
  · exact hfull hbar

/-- What `FlexNet_L2Transit` does with the hop. -/
def forwardOn (k : L2Node) (port : ℕ) (f : L2Frame) (our : ℕ) (kind : L2Kind) (e : Option L2Slot) :
    L2Hop → L2Node × Option L2Out
  | .declined => k.withPort port f our
  | .adjacent hopPort =>
    (if hopPort ≠ 0 ∧ hopPort ≠ port ∧
        (k.cfg.crossportActive = true ∨ k.cfg.flexL2ExternalPort f.dest ≠ 0) then
      k.flexL2NoteAdjacent port f e hopPort kind else k).withPort port f our
  | .hop nexthop pinned hopPort =>
    if k.Bars port f nexthop hopPort then (k, some ⟨f, our, 0⟩)
    else match k.flexL2Extend port f e nexthop pinned hopPort kind with
      | (n, none) => (n, some ⟨f, our, 0⟩)
      | (n, some f) => n.withPort port f our

/-- A frame comes back on a circuit, or goes on to the forward path. -/
theorem contract_ways (n : L2Node) (port : ℕ) (f : L2Frame) (our : ℕ) (kind : L2Kind) :
    (∃ i, n.l2FindRev f.dest.toAxCall f.origin.toAxCall port = some i ∧
      (if 1 ≤ our then n.flexL2Contract port f our kind else (n, none)) =
        (n.setCircuit i ((n.circuits i).used kind n.now), some (f.removeDigi (our - 1), our - 1)) ∧
      (decide (1 ≤ our) && (n.flexL2Contract port f our kind).2.isSome) = true) ∨
    ((if 1 ≤ our then n.flexL2Contract port f our kind else (n, none)) = (n, none) ∧
      (decide (1 ≤ our) && (n.flexL2Contract port f our kind).2.isSome) = false) := by
  by_cases hour : 1 ≤ our
  · rw [if_pos hour]
    rcases n.flexL2Contract_cases port f our kind with hnone | ⟨i, prev, hrev, -, -, hsome⟩
    · exact .inr ⟨hnone, by rw [hnone, Option.isSome_none, Bool.and_false]⟩
    · exact .inl ⟨i, hrev, hsome,
        by rw [hsome, Option.isSome_some, Bool.and_true, decide_eq_true hour]⟩
  · rw [if_neg hour]
    exact .inr ⟨rfl, by rw [decide_eq_false hour, Bool.false_and]⟩

theorem transit_forwardOn {hop : L2Hop} (h : n.forwardPick port f our = some (k, e, hop)) :
    n.flexNetL2Transit port f our = k.forwardOn port f our f.kind e hop := by
  unfold forwardPick at h
  split at h
  · cases h
  rename_i htransit
  split at h
  · cases h
  rename_i hcarries
  split at h
  swap
  · cases h
  rename_i ctl ourDigi hctl hours
  have hkind : f.kind = flexL2CtlKind ctl := by
    rw [L2Frame.kind, hctl]
    rfl
  unfold flexNetL2Transit
  dsimp only
  rw [if_neg htransit, if_neg hcarries, hctl, hours, hkind]
  dsimp only
  split at h
  · cases h
  rename_i hdigis
  rw [if_neg hdigis]
  split at h
  · cases h
  rename_i hcontract
  split at h
  · cases h
  rename_i hlast
  have hnone : (if 1 ≤ our then n.flexL2Contract port f our (flexL2CtlKind ctl) else (n, none)) =
      (n, none) := by
    rcases n.contract_ways port f our (flexL2CtlKind ctl) with ⟨i, -, -, hsome⟩ | ⟨hnone, -⟩
    · exact absurd hsome hcontract
    · exact hnone
  rw [hnone]
  dsimp only
  rw [if_neg hlast]
  unfold forwardL2
  dsimp only
  generalize n.l2Find f.origin.toAxCall f.dest.toAxCall port false = found at h
  obtain ⟨m, e'⟩ := found
  dsimp only at h ⊢
  split at h
  · cases h
  rename_i hloop
  rw [if_neg hloop]
  generalize m.flexL2PickHop e' (flexL2CtlKind ctl) f.dest.toAxCall = picked at h
  obtain ⟨k', hop'⟩ := picked
  obtain ⟨rfl, rfl, rfl⟩ : k' = k ∧ e' = e ∧ hop' = hop := by simpa using h
  cases hop' with
  | declined => rfl
  | adjacent hopPort => rfl
  | hop nexthop pinned hopPort =>
      exact bars_ite _ _

/-- A hop is picked by the last digipeater of a frame, after the search for its circuit. -/
theorem forwardPick_found {hop : L2Hop} (h : n.forwardPick port f our = some (k, e, hop)) :
    our + 1 = f.digis.length ∧ ∃ m,
      n.l2Find f.origin.toAxCall f.dest.toAxCall port false = (m, e) ∧
        m.flexL2PickHop e f.kind f.dest.toAxCall = (k, hop) := by
  unfold forwardPick at h
  split at h
  · cases h
  split at h
  · cases h
  split at h
  swap
  · cases h
  rename_i ctl ourDigi hctl hours
  have hkind : f.kind = flexL2CtlKind ctl := by
    rw [L2Frame.kind, hctl]
    rfl
  split at h
  · cases h
  split at h
  · cases h
  split at h
  · cases h
  rename_i hlast
  refine ⟨not_not.mp hlast, ?_⟩
  cases hfound : n.l2Find f.origin.toAxCall f.dest.toAxCall port false with
  | mk m e' =>
  rw [hfound] at h
  dsimp only at h
  split at h
  · cases h
  cases hpicked : m.flexL2PickHop e' (flexL2CtlKind ctl) f.dest.toAxCall with
  | mk k' hop' =>
  rw [hpicked] at h
  obtain ⟨rfl, rfl, rfl⟩ : k' = k ∧ e' = e ∧ hop' = hop := by simpa using h
  rw [hkind]
  exact ⟨m, rfl, hpicked⟩

/-- The search before a hop is picked. -/
theorem forwardPick_searched {hop : L2Hop} (h : n.forwardPick port f our = some (k, e, hop)) :
    Searched n k port f e ∧ ∀ nexthop pinned hopPort, hop = .hop nexthop pinned hopPort →
      n.Picks f f.kind e nexthop pinned hopPort := by
  obtain ⟨-, m, hfound, hpicked⟩ := forwardPick_found h
  obtain ⟨hsearched, -, hhop⟩ := search_pick hfound hpicked
  exact ⟨hsearched, hhop⟩

theorem resolve_l2Cap (n : L2Node) (dest : AxCall) (port : ℕ) :
    (n.flexL2ResolveHop dest).1.l2Cap port = n.l2Cap port := by
  unfold flexL2ResolveHop
  dsimp only
  split
  · rfl
  split
  · rfl
  split
  · rfl
  split
  · rfl
  split <;> rfl

/-- Picking a hop leaves the limit. -/
theorem forwardPick_l2Cap {hop : L2Hop} (h : n.forwardPick port f our = some (k, e, hop)) :
    k.l2Cap port = n.l2Cap port := by
  obtain ⟨-, m, hfound, hpicked⟩ := forwardPick_found h
  obtain ⟨hfind, -⟩ := l2Find_spec n f.origin.toAxCall f.dest.toAxCall port false
  rw [hfound] at hfind
  dsimp only at hfind
  obtain ⟨-, hcases⟩ := m.pick_cases e f.kind f.dest.toAxCall
  rw [hpicked] at hcases
  rcases hcases with ⟨i, -, -, hpick⟩ | ⟨-, hpick⟩
  · obtain rfl : k = m := (Prod.ext_iff.mp hpick).1
    rw [hfind]
    rfl
  · obtain rfl : k = (m.flexL2ResolveHop f.dest.toAxCall).1 := (Prod.ext_iff.mp hpick).1
    rw [resolve_l2Cap, hfind]
    rfl

/-- A frame that picks no hop: it is not the node's, it has come back on its circuit, the node is
not its last digipeater, or it has looped. -/
theorem transit_unpicked (hnone : n.forwardPick port f our = none) :
    n.flexNetL2Transit port f our = (n, some ⟨f, our, 0⟩) ∨
      (∃ i, n.l2FindRev f.dest.toAxCall f.origin.toAxCall port = some i ∧ 1 ≤ our ∧
        our < f.digis.length ∧ f.digis.length ≤ l2MaxDigis ∧ n.flexNetL2Transit port f our =
          (n.setCircuit i ((n.circuits i).used f.kind n.now)).withPort port
            (f.removeDigi (our - 1)) (our - 1)) ∨
      n.flexNetL2Transit port f our = n.withPort port f our ∨
      n.flexNetL2Transit port f our =
        ((n.l2Find f.origin.toAxCall f.dest.toAxCall port false).1, none) := by
  unfold forwardPick at hnone
  unfold flexNetL2Transit
  dsimp only
  split
  · exact .inl rfl
  rename_i htransit
  rw [if_neg htransit] at hnone
  split
  · exact .inl rfl
  rename_i hcarries
  rw [if_neg hcarries] at hnone
  split
  swap
  · exact .inl rfl
  rename_i ctl ourDigi hctl hours
  have hkind : f.kind = flexL2CtlKind ctl := by
    rw [L2Frame.kind, hctl]
    rfl
  rw [hctl, hours] at hnone
  dsimp only at hnone
  split
  · exact .inl rfl
  rename_i hdigis
  rw [if_neg hdigis] at hnone
  rcases n.contract_ways port f our (flexL2CtlKind ctl) with ⟨i, hrev, hcontract, hsome⟩ |
    ⟨hcontract, hforward⟩
  · rw [hcontract, ← hkind]
    have hour : 1 ≤ our := by
      rw [Bool.and_eq_true, decide_eq_true_eq] at hsome
      exact hsome.1
    exact .inr (.inl ⟨i, hrev, hour, (List.getElem?_eq_some_iff.mp hours).1, not_lt.mp hdigis, rfl⟩)
  rw [hcontract]
  rw [hforward, if_neg Bool.false_ne_true] at hnone
  dsimp only
  split
  · exact .inr (.inr (.inl rfl))
  rename_i hlast
  rw [if_neg hlast] at hnone
  split at hnone
  swap
  · cases hnone
  rename_i hloop
  unfold forwardL2
  dsimp only
  rw [if_pos hloop]
  exact .inr (.inr (.inr rfl))

/-- What holds of the table on the way to the hop, and after it. -/
theorem transit_pick_rule {P : L2Table → Prop} (hstart : P n.circuits)
    (hsweep : ∀ t t', P t → t.Swept n.now t' → P t')
    (hback : ∀ i, n.l2FindRev f.dest.toAxCall f.origin.toAxCall port = some i →
      P (n.setCircuit i ((n.circuits i).used f.kind n.now)).circuits)
    (hpicked : ∀ k e hop, n.forwardPick port f our = some (k, e, hop) →
      P (k.forwardOn port f our f.kind e hop).1.circuits) :
    P (n.flexNetL2Transit port f our).1.circuits := by
  have hport : ∀ (m : L2Node) (g : L2Frame) (p : ℕ), m.now = n.now → P m.circuits →
      P (m.withPort port g p).1.circuits := by
    intro m g p hnow hm
    have hswept := (m.withPort_spec port g p).2
    rw [hnow] at hswept
    exact hsweep _ _ hm hswept
  cases hpick : n.forwardPick port f our with
  | some picked =>
      obtain ⟨k, e, hop⟩ := picked
      rw [transit_forwardOn hpick]
      exact hpicked k e hop hpick
  | none =>
      rcases transit_unpicked hpick with heq | ⟨i, hrev, -, -, -, heq⟩ | heq | heq
      · rw [heq]
        exact hstart
      · rw [heq]
        exact hport _ _ _ rfl (hback i hrev)
      · rw [heq]
        exact hport n f our rfl hstart
      · rw [heq]
        exact hsweep _ _ hstart (l2Find_entry n port f).1

/-! ## The circuit of the frame -/

/-- The circuit a frame is carried on: there is none while every circuit is live; it is the one that
was found; or it is a new one, in a slot that the table gives up. -/
theorem l2Entry_slot (he : k.Entry port f e) :
    ((k.l2Entry port f e).2 = none ∧ e = none ∧ (∀ i, (k.circuits i).Live k.now) ∧
        k.circuits.Swept k.now (k.l2Entry port f e).1.circuits) ∨
      (∃ i, e = some i ∧ k.l2Entry port f e = (k, some i)) ∨
      ∃ i t, e = none ∧ GivesUp k.circuits k.now i ∧ k.circuits.Swept k.now t ∧
        k.l2Entry port f e = (({ k with circuits := t } : L2Node).setCircuit i
          (.fresh k.now f.origin.toAxCall f.dest.toAxCall port), some i) := by
  cases e with
  | some i => exact .inr (.inl ⟨i, rfl, rfl⟩)
  | none =>
      have hnone := he.none rfl
      have hfind : (flexL2Find k.circuits k.now f.origin.toAxCall f.dest.toAxCall port false).2 =
          none := by
        rcases @flexL2Find_cases k.now f.origin.toAxCall f.dest.toAxCall port k.circuits false with
          ⟨i, -, -, hpair, -⟩ | ⟨hfind, -⟩ | ⟨hfalse, -⟩
        · rw [hnone i] at hpair
          cases hpair
        · exact hfind
        · cases hfalse
      have hswept := flexL2Find_swept k.circuits k.now f.origin.toAxCall f.dest.toAxCall port
      unfold l2Entry l2Find
      dsimp only
      rcases flexL2Find_create hfind with ⟨hfull, hlive, htable⟩ | ⟨i, hfound, hgives, htable⟩
      · refine .inl ⟨hfull, rfl, hlive, ?_⟩
        rw [htable]
        exact hswept
      · refine .inr (.inr ⟨i, _, rfl, hgives, hswept, ?_⟩)
        rw [hfound, htable]
        rfl

/-- The ends of a frame that could not be extended. -/
inductive Fails (k : L2Node) (f : L2Frame) (e : Option L2Slot) (t : L2Table) : Prop
  | full (new : e = none) (live : ∀ i, (k.circuits i).Live k.now) (swept : k.circuits.Swept k.now t)
  | pinned (i : L2Slot) (found : e = some i) (pin : (k.circuits i).appended.isEmpty = false)
      (table : t = k.circuits)
  | undone (i : L2Slot) (found : e = some i) (long : ¬ f.Room)
      (bare : (k.circuits i).appended.isEmpty = true) (dropped : (t i).active = false)
      (others : ∀ j, j ≠ i → t j = k.circuits j)
  | reclaimed (i : L2Slot) (new : e = none) (long : ¬ f.Room) (room : GivesUp k.circuits k.now i)
      (dropped : (t i).active = false) (others : ∀ j, j ≠ i → Swept k.now (k.circuits j) (t j))

theorem extend_fails (he : k.Entry port f e)
    (hnone : (k.flexL2Extend port f e nexthop pinned hopPort kind).2 = none) :
    Fails k f e (k.flexL2Extend port f e nexthop pinned hopPort kind).1.circuits := by
  unfold flexL2Extend at *
  rcases l2Entry_slot he with ⟨hfull, hnew, hlive, hswept⟩ | ⟨i, rfl, hentry⟩ |
    ⟨i, t, rfl, hgives, hswept, hentry⟩
  · generalize k.l2Entry port f e = entry at *
    obtain ⟨m, found⟩ := entry
    obtain rfl : found = none := hfull
    exact .full hnew hlive hswept
  · rw [hentry] at hnone ⊢
    dsimp only at hnone ⊢
    cases happend : f.appendDigi nexthop with
    | some f' =>
        rw [happend] at hnone
        cases hnone
    | none =>
        have hlong := L2Frame.appendDigi_none.mp happend
        dsimp only
        rw [Option.isNone_some, Bool.false_or]
        split
        · rename_i hbare
          refine .undone i rfl hlong hbare ?_ fun j hj => circuits_setCircuit_ne _ _ hj
          rw [circuits_setCircuit]
        · rename_i hpin
          exact .pinned i rfl (by simpa using hpin) rfl
  · rw [hentry] at hnone ⊢
    dsimp only at hnone ⊢
    cases happend : f.appendDigi nexthop with
    | some f' =>
        rw [happend] at hnone
        cases hnone
    | none =>
        have hlong := L2Frame.appendDigi_none.mp happend
        dsimp only
        rw [Option.isNone_none, Bool.true_or, if_pos rfl]
        refine .reclaimed i rfl hlong hgives ?_ fun j hj => ?_
        · rw [circuits_setCircuit]
        · rw [circuits_setCircuit_ne _ _ hj, circuits_setCircuit_ne _ _ hj]
          exact hswept j

/-- What is written to the circuit of a frame leaves every circuit that is live. -/
theorem keeps_written (he : k.Entry port f e) {i j : L2Slot}
    (hentry : (k.l2Entry port f e).2 = some i) {c : L2Circuit} (hactive : c.active = true)
    (huser : c.user = ((k.l2Entry port f e).1.circuits i).user)
    (hdest : c.dest = ((k.l2Entry port f e).1.circuits i).dest)
    (hport : c.port = ((k.l2Entry port f e).1.circuits i).port) (hlive : c.state k.now ≠ .expired)
    (hj : (k.circuits j).Live k.now) :
    Keeps k.now (k.circuits j) (((k.l2Entry port f e).1.setCircuit i c).circuits j) := by
  rcases l2Entry_slot he with
    ⟨hnone, -⟩ | ⟨i', rfl, hentry'⟩ | ⟨i', t, rfl, hgives, hswept, hentry'⟩
  · rw [hnone] at hentry
    cases hentry
  · rw [hentry'] at hentry huser hdest hport ⊢
    obtain rfl := Option.some.inj hentry
    by_cases hij : j = i'
    · subst hij
      rw [circuits_setCircuit]
      exact ⟨hj.1, hactive, huser, hdest, hport, .inr ⟨hj.known.2, hlive⟩⟩
    · rw [circuits_setCircuit_ne _ _ hij]
      exact .refl hj.1
  · rw [hentry'] at hentry ⊢
    obtain rfl := Option.some.inj hentry
    have hij : j ≠ i' := by
      rintro rfl
      exact hgives.not_live hj
    rw [circuits_setCircuit_ne _ _ hij, circuits_setCircuit_ne _ _ hij]
    dsimp only
    rw [(hswept j).known hj.known]
    exact .refl hj.1

theorem entry_active (he : k.Entry port f e) {i : L2Slot}
    (hentry : (k.l2Entry port f e).2 = some i) :
    ((k.l2Entry port f e).1.circuits i).active = true := by
  rcases l2Entry_slot he with ⟨hnone, -⟩ | ⟨i', rfl, hentry'⟩ | ⟨i', t, rfl, -, -, hentry'⟩
  · rw [hnone] at hentry
    cases hentry
  · rw [hentry'] at hentry ⊢
    obtain rfl := Option.some.inj hentry
    exact (ofPair_iff.mp (he.found _ rfl).1).1
  · rw [hentry'] at hentry ⊢
    obtain rfl := Option.some.inj hentry
    dsimp only
    rw [circuits_setCircuit]
    rfl

/-- A frame that is carried on a circuit leaves every circuit that is live. -/
theorem keeps_used (he : k.Entry port f e) {i j : L2Slot}
    (hentry : (k.l2Entry port f e).2 = some i) {c : L2Circuit}
    (hactive : c.active = ((k.l2Entry port f e).1.circuits i).active)
    (huser : c.user = ((k.l2Entry port f e).1.circuits i).user)
    (hdest : c.dest = ((k.l2Entry port f e).1.circuits i).dest)
    (hport : c.port = ((k.l2Entry port f e).1.circuits i).port) (hlive : c.state k.now ≠ .expired)
    (hj : (k.circuits j).Live k.now) :
    Keeps k.now (k.circuits j)
      (((k.l2Entry port f e).1.setCircuit i (c.used kind k.now)).circuits j) := by
  obtain ⟨huser', hdest', hport', hlive'⟩ := @used_written kind _ _ _ huser hdest hport hlive
  have hactive' : (c.used kind k.now).active = true := by
    obtain ⟨closing, closedAt, heq, -⟩ := used_eq c kind k.now
    rw [heq]
    exact hactive.trans (entry_active he hentry)
  exact keeps_written he hentry hactive' huser' hdest' hport' hlive' hj

theorem keeps_noteAdjacent (he : k.Entry port f e) (hopPort : ℕ) {j : L2Slot}
    (hj : (k.circuits j).Live k.now) :
    Keeps k.now (k.circuits j) ((k.flexL2NoteAdjacent port f e hopPort kind).circuits j) := by
  have hnow := (touches_entry he).1
  have hlive := fun i => entry_live he (i := i)
  have hused := fun i hi (c : L2Circuit) => @keeps_used _ _ _ kind _ he i j hi c
  have hslot := l2Entry_slot he
  unfold flexL2NoteAdjacent
  generalize k.l2Entry port f e = entry at *
  obtain ⟨m, found⟩ := entry
  dsimp only at *
  cases found with
  | none =>
      rcases hslot with ⟨-, -, -, hswept⟩ | ⟨i, -, hentry⟩ | ⟨i, t, -, -, -, hentry⟩
      · dsimp only
        rw [(hswept j).known hj.known]
        exact .refl hj.1
      · cases hentry
      · cases hentry
  | some i =>
      dsimp only
      rw [hnow]
      exact hused i rfl { m.circuits i with outPort := hopPort } rfl rfl rfl rfl (hlive i rfl) hj

theorem keeps_extend (he : k.Entry port f e) {f' : L2Frame}
    (hext : (k.flexL2Extend port f e nexthop pinned hopPort kind).2 = some f') {j : L2Slot}
    (hj : (k.circuits j).Live k.now) :
    Keeps k.now (k.circuits j)
      ((k.flexL2Extend port f e nexthop pinned hopPort kind).1.circuits j) := by
  have hnow := (touches_entry he).1
  have hlive := fun i => entry_live he (i := i)
  have hused := fun i hi (c : L2Circuit) => @keeps_used _ _ _ kind _ he i j hi c
  unfold flexL2Extend at *
  generalize k.l2Entry port f e = entry at *
  obtain ⟨m, found⟩ := entry
  dsimp only at *
  cases found with
  | none => cases hext
  | some i =>
      dsimp only at hext ⊢
      cases happend : f.appendDigi nexthop with
      | none =>
          rw [happend] at hext
          cases hext
      | some f' =>
          dsimp only
          rw [hnow]
          split
          · exact hused i rfl (m.circuits i) rfl rfl rfl rfl (hlive i rfl) hj
          · obtain ⟨prevOutPort, heq⟩ := repin_eq (m.circuits i)
              (e.isNone || (m.circuits i).appended.isEmpty) nexthop hopPort
            rw [heq]
            exact hused i rfl _ rfl rfl rfl rfl (hlive i rfl) hj

/-- The circuit of the frame has no next hop, and the frame no room for the one it gets. -/
def Undoes (n : L2Node) (port : ℕ) (f : L2Frame) (our : ℕ) (i : L2Slot) : Prop :=
  ∃ k nexthop pinned hopPort,
    n.forwardPick port f our = some (k, some i, .hop nexthop pinned hopPort) ∧
      ¬ k.Bars port f nexthop hopPort ∧ (n.circuits i).appended.isEmpty = true ∧ ¬ f.Room

/-- What the search before a frame leaves of a circuit that has not expired. -/
theorem Searched.known (h : Searched n k port f e) {i : L2Slot}
    (hknown : (n.circuits i).Known n.now) : k.circuits i = n.circuits i :=
  (h.swept i).known hknown

/-- A circuit that is undone is gone. -/
theorem Undoes.dropped {i : L2Slot} (h : n.Undoes port f our i) :
    ((n.flexNetL2Transit port f our).1.circuits i).active = false := by
  obtain ⟨k, nexthop, pinned, hopPort, hpick, hbars, hbare, hlong⟩ := h
  have hsearched := (forwardPick_searched hpick).1
  obtain ⟨hpair, hlive⟩ := hsearched.entry.found i rfl
  have hsame : k.circuits i = n.circuits i := by
    have hactive := (ofPair_iff.mp hpair).1
    exact (hsearched.swept i).eq hactive
  have happend : f.appendDigi nexthop = none := L2Frame.appendDigi_none.mpr hlong
  rw [transit_forwardOn hpick]
  unfold forwardOn flexL2Extend l2Entry
  dsimp only
  rw [if_neg hbars, happend, hsame, hbare, Option.isNone_some, Bool.or_true, if_pos rfl]
  dsimp only
  rw [circuits_setCircuit]

/-- A circuit that is live goes on, unless it is undone. -/
theorem keeps_live {i : L2Slot} (hlive : (n.circuits i).Live n.now)
    (hnot : ¬ n.Undoes port f our i) :
    Keeps n.now (n.circuits i) ((n.flexNetL2Transit port f our).1.circuits i) := by
  have hknown := hlive.known
  refine transit_pick_rule (P := fun t => Keeps n.now (n.circuits i) (t i)) (.refl hlive.1)
    (fun t t' hkeeps hswept => hkeeps.swept_right hknown.2 (hswept i))
    (fun j hrev => (kept_back hrev hlive.1).toKeeps) fun k e hop hpick => ?_
  have hsearched := (forwardPick_searched hpick).1
  have hnow : k.now = n.now := hsearched.beside.now
  have hsame := hsearched.known hknown
  rw [← hsame, ← hnow] at hlive hknown ⊢
  have hport : ∀ (m : L2Node) (g : L2Frame), m.now = k.now →
      Keeps k.now (k.circuits i) (m.circuits i) →
        Keeps k.now (k.circuits i) ((m.withPort port g our).1.circuits i) := by
    intro m g hm hkeeps
    have hswept := (m.withPort_spec port g our).2 i
    rw [hm] at hswept
    exact hkeeps.swept_right hknown.2 hswept
  cases hop with
  | declined => exact hport k f rfl (.refl hlive.1)
  | adjacent hopPort =>
      unfold forwardOn
      dsimp only
      split
      · exact hport _ f (stays_noteAdjacent hsearched.entry hopPort).1
          (keeps_noteAdjacent hsearched.entry hopPort hlive)
      · exact hport k f rfl (.refl hlive.1)
  | hop nexthop pinned hopPort =>
      unfold forwardOn
      dsimp only
      split
      · exact .refl hlive.1
      rename_i hbars
      have hkeeps := fun f' hext => @keeps_extend _ _ _ f.kind _ nexthop pinned hopPort
        hsearched.entry f' hext i hlive
      have hfails := @extend_fails _ _ _ f.kind _ nexthop pinned hopPort hsearched.entry
      have hm := (@touches_extend _ _ _ f.kind _ hsearched.entry nexthop pinned hopPort).1
      generalize k.flexL2Extend port f e nexthop pinned hopPort f.kind = result at *
      obtain ⟨m, result⟩ := result
      cases result with
      | some f' => exact hport m f' hm (hkeeps f' rfl)
      | none =>
          dsimp only at *
          cases hfails rfl with
          | full _ _ hswept =>
              rw [(hswept i).known hknown]
              exact .refl hlive.1
          | pinned j _ _ htable =>
              rw [htable]
              exact .refl hlive.1
          | undone j hfound hlong hbare _ hothers =>
              by_cases hij : i = j
              · subst hij hfound
                rw [hsame] at hbare
                exact absurd ⟨k, nexthop, pinned, hopPort, hpick, hbars, hbare, hlong⟩ hnot
              · rw [hothers i hij]
                exact .refl hlive.1
          | reclaimed j _ _ hroom _ hothers =>
              have hij : i ≠ j := by
                rintro rfl
                exact hroom.not_live hlive
              rw [(hothers i hij).known hknown]
              exact .refl hlive.1

end L2Node

namespace L2Table

variable {t t' : L2Table} {x : L2Input} {xs : List L2Input}

/-! ## Live circuits -/

/-- A search with `create`: it finds the circuit, fails with every circuit live, or makes one in a
slot that the table gives up. -/
inductive Creates (t : L2Table) (now : ℤ) (user dest : AxCall) (port : ℕ) : Prop
  | found (i : L2Slot) (circuit : (t i).ofPair user dest port = true)
      (result : (flexL2Find t now user dest port true).2 = some i)
      (swept : t.Swept now (flexL2Find t now user dest port true).1)
  | failed (result : (flexL2Find t now user dest port true).2 = none) (live : ∀ i, (t i).Live now)
  | made (i : L2Slot) (room : GivesUp t now i)
      (result : (flexL2Find t now user dest port true).2 = some i)
      (circuit : (flexL2Find t now user dest port true).1 i = .fresh now user dest port)
      (others : ∀ j, j ≠ i → L2Circuit.Swept now (t j) ((flexL2Find t now user dest port true).1 j))

theorem creates (t : L2Table) (now : ℤ) (user dest : AxCall) (port : ℕ) :
    Creates t now user dest port := by
  have hswept := flexL2Find_swept t now user dest port
  rcases @flexL2Find_cases now user dest port t false with
    ⟨i, hfound, -, hpair, -⟩ | ⟨hnone, -⟩ | ⟨hfalse, -⟩
  · have hsame := flexL2Find_found hfound
    refine .found i hpair ?_ ?_
    · rw [hsame]
      exact hfound
    · rw [hsame]
      exact hswept
  · rcases flexL2Find_create hnone with ⟨hfull, hlive, -⟩ | ⟨i, hmade, hroom, htable⟩
    · exact .failed hfull hlive
    · refine .made i hroom hmade ?_ fun j hj => ?_
      · rw [htable]
        exact Function.update_self ..
      · rw [htable, Function.update_of_ne hj]
        exact hswept j
  · cases hfalse

/-- Every circuit that is live goes on. -/
def KeepsLive (t : L2Table) (x : L2Input) : Prop :=
  ∀ i, (t i).Live x.node.now → Keeps x.node.now (t i) (t.step x i)

/-- The frame does not undo the live circuit it came on. -/
def UndoesNone (t : L2Table) (x : L2Input) : Prop :=
  ∀ i, (t i).Live x.node.now → ¬ (t.node x).Undoes x.port x.frame x.our i

theorem keepsLive_iff : KeepsLive t x ↔ UndoesNone t x := by
  constructor
  · intro hkeeps i hlive hundoes
    have hdropped : (t.step x i).active = false := hundoes.dropped
    rw [(hkeeps i hlive).after] at hdropped
    cases hdropped
  · intro hnone i hlive
    exact L2Node.keeps_live (n := t.node x) hlive (hnone i hlive)

/-- In every run there is one circuit for a pair and a port, and a search with `create` gives up no
circuit that is live, a closed one before an open one, the oldest first, and fails only with every
circuit live.  A run forgets no live circuit if and only if no frame undoes the one it came on. -/
theorem live_circuits_kept (xs : List L2Input) (t : L2Table) :
    (Run step empty xs t → t.Unique ∧
      ∀ now user dest port, Creates t now user dest port) ∧
    (GuardedRun step KeepsLive empty xs t ↔ GuardedRun step UndoesNone empty xs t) := by
  refine ⟨fun hrun => ⟨unique_run hrun, t.creates⟩, ?_, ?_⟩
  · exact GuardedRun.mono fun t x => keepsLive_iff.mp
  · exact GuardedRun.mono fun t x => keepsLive_iff.mpr

/-! ## Frames that are declined -/

/-- The searches find the circuits they found. -/
structure SameLookups (now : ℤ) (t t' : L2Table) : Prop where
  find : ∀ user dest port i, (flexL2Find t now user dest port false).2 = some i →
    (flexL2Find t' now user dest port false).2 = some i ∧ t' i = t i
  findRev : ∀ user dest port i, flexL2FindRev t now user dest port = some i →
    flexL2FindRev t' now user dest port = some i ∧ t' i = t i

/-- No circuit that has not expired is lost, and none has come. -/
def LosesNone (now : ℤ) (t t' : L2Table) : Prop :=
  ∀ i, t' i = t i ∨ (¬ (t i).Known now ∧ (t' i).active = false)

theorem Swept.losesNone {now : ℤ} (h : t.Swept now t') : LosesNone now t t' := fun i => (h i).lost

/-- A circuit that has not expired is found by its own key. -/
theorem find_known (hunique : t.Unique) {now : ℤ} {i : L2Slot} {user dest : AxCall} {port : ℕ}
    (hpair : (t i).ofPair user dest port = true) (hknown : (t i).Known now) :
    (flexL2Find t now user dest port false).2 = some i := by
  rcases @flexL2Find_cases now user dest port t false with
    ⟨j, hfound, -, hpair', -⟩ | ⟨-, hswept, hnone⟩ | ⟨hfalse, -⟩
  · rw [hfound, hunique _ _ _ i j hpair hpair']
  · have hno := hnone i
    rw [(hswept i).known hknown, hpair] at hno
    cases hno
  · cases hfalse

theorem LosesNone.sameLookups {now : ℤ} (hunique : t.Unique) (h : LosesNone now t t') :
    SameLookups now t t' := by
  have hsame : ∀ i, (t i).Known now → t' i = t i := fun i hknown =>
    (h i).resolve_right fun hlost => hlost.1 hknown
  have hunique' : t'.Unique := by
    intro user dest port i j hi hj
    have hold : ∀ l, (t' l).ofPair user dest port = true → (t l).ofPair user dest port = true := by
      intro l hl
      rcases h l with heq | ⟨-, hdead⟩
      · rwa [← heq]
      · rw [(ofPair_iff.mp hl).1] at hdead
        cases hdead
    exact hunique user dest port i j (hold i hi) (hold j hj)
  have hreturns : ∀ user dest port i,
      (t' i).returns now user dest port = (t i).returns now user dest port := by
    intro user dest port i
    rcases h i with heq | ⟨hunknown, hdead⟩
    · rw [heq]
    · have hno : (t i).returns now user dest port = false := by
        rw [Bool.eq_false_iff]
        intro hyes
        obtain ⟨hactive, hlive, -⟩ := L2Node.returns_iff.mp hyes
        exact hunknown ⟨hactive, hlive⟩
      rw [hno]
      simp [returns, hdead]
  constructor
  · intro user dest port i hfound
    rcases @flexL2Find_cases now user dest port t false with
      ⟨j, hfound', -, hpair, hlive, -⟩ | ⟨hnone, -⟩ | ⟨hfalse, -⟩
    · obtain rfl := Option.some.inj (hfound.symm.trans hfound')
      have heq := hsame i ⟨(ofPair_iff.mp hpair).1, hlive⟩
      refine ⟨find_known hunique' ?_ ?_, heq⟩
      · rwa [heq]
      · rw [heq]
        exact ⟨(ofPair_iff.mp hpair).1, hlive⟩
    · rw [hnone] at hfound
      cases hfound
    · cases hfalse
  · intro user dest port i hfound
    have hback := List.find?_some (p := fun i => (t i).returns now user dest port) hfound
    obtain ⟨hactive, hlive, -⟩ := L2Node.returns_iff.mp hback
    refine ⟨?_, hsame i ⟨hactive, hlive⟩⟩
    unfold flexL2FindRev at *
    rw [← hfound]
    congr 1
    funext j
    exact hreturns user dest port j

/-- A circuit that can be looked up as before is still there. -/
theorem SameLookups.known {now : ℤ} (h : SameLookups now t t') (hunique : t.Unique) {i : L2Slot}
    (hknown : (t i).Known now) : t' i = t i :=
  (h.find _ _ _ i (find_known hunique
    (ofPair_iff.mpr ⟨hknown.1, rfl, same_self _, same_self _⟩) hknown)).2

end L2Table

namespace L2Node

/-- A forward frame is declined: no hop was found, or it is not put in, or the frame is not extended
by it. -/
def Declines (k : L2Node) (port : ℕ) (f : L2Frame) (e : Option L2Slot) : L2Hop → Prop
  | .declined => True
  | .adjacent _ => False
  | .hop nexthop pinned hopPort => k.Bars port f nexthop hopPort ∨
    (k.flexL2Extend port f e nexthop pinned hopPort f.kind).2 = none

/-- A frame without room is not extended. -/
theorem extend_long {k : L2Node} {port : ℕ} {f : L2Frame} {kind : L2Kind} {e : Option L2Slot}
    {nexthop : AxCall} {pinned : Bool} {hopPort : ℕ} (hlong : ¬ f.Room) :
    (k.flexL2Extend port f e nexthop pinned hopPort kind).2 = none := by
  have happend : f.appendDigi nexthop = none := L2Frame.appendDigi_none.mpr hlong
  unfold flexL2Extend
  split
  · rfl
  · rw [happend]

end L2Node

namespace L2Table

/-- A declined frame costs no circuit: it was declined before its circuit was looked for, it has
room for the hop, its circuit has a next hop, or it has none and a slot is free or every circuit
live. -/
def CostsNothing (t : L2Table) (x : L2Input) (k : L2Node) : L2Hop → Prop
  | .declined | .adjacent _ => True
  | .hop nexthop _ hopPort => k.Bars x.port x.frame nexthop hopPort ∨ x.frame.Room ∨
    (∃ i, Own t x i ∧ (t i).appended.isEmpty = false) ∨
    ((∀ i, ¬ Own t x i) ∧
      ((∃ i, ¬ (t i).Known x.node.now) ∨ ∀ i, (t i).Live x.node.now))

variable {t : L2Table} {x : L2Input} {xs : List L2Input} {k : L2Node} {e : Option L2Slot}
  {hop : L2Hop}

/-- A hop that is not put in: a circuit is lost where the frame has no room and its own circuit had
no next hop, or where a new circuit took the slot of one that is there. -/
theorem sameLookups_failed {nexthop : AxCall} {pinned : Bool} {hopPort : ℕ} {t' : L2Table}
    (hunique : t.Unique) (hsearched : L2Node.Searched (t.node x) k x.port x.frame e)
    (hbars : ¬ k.Bars x.port x.frame nexthop hopPort) (hfails : L2Node.Fails k x.frame e t') :
    SameLookups x.node.now t t' ↔ CostsNothing t x k (.hop nexthop pinned hopPort) := by
  have hswept : t.Swept x.node.now k.circuits := hsearched.swept
  have hnow : k.now = x.node.now := hsearched.beside.now
  have hkeeps : t.Swept x.node.now t' → SameLookups x.node.now t t' := fun h =>
    (Swept.losesNone h).sameLookups hunique
  have hown : ∀ i, Own t x i → e = some i := fun i hi =>
    L2Node.own_found hunique hsearched.swept hsearched.entry hi.1 hi.2
  cases hfails with
  | full hnew hlive hfull =>
      rw [hnow] at hlive hfull
      refine iff_of_true (hkeeps (hswept.trans hfull)) (.inr (.inr (.inr ⟨fun i hi => ?_, ?_⟩)))
      · rw [hnew] at hown
        cases hown i hi
      · exact .inr fun i => (hswept i).live_iff.mp (hlive i)
  | pinned i hi hpin htable =>
      obtain ⟨hi, heq⟩ := own_of_entry hsearched hi
      rw [heq] at hpin
      refine iff_of_true (hkeeps ?_) (.inr (.inr (.inl ⟨i, hi, hpin⟩)))
      rw [htable]
      exact hswept
  | undone i hi hlong hbare hdropped _ =>
      obtain ⟨hiown, heq⟩ := own_of_entry hsearched hi
      rw [heq] at hbare
      refine iff_of_false (fun hsame => ?_) ?_
      · have hactive := (ofPair_iff.mp hiown.1).1
        rw [hsame.known hunique ⟨hactive, hiown.2⟩, hactive] at hdropped
        cases hdropped
      · rintro (hbar | hroom | ⟨j, hj, hpin⟩ | ⟨hnone, -⟩)
        · exact hbars hbar
        · exact hlong hroom
        · obtain rfl := Option.some.inj (hi.symm.trans (hown j hj))
          rw [hbare] at hpin
          cases hpin
        · exact hnone i hiown
  | reclaimed i hnew hlong hroom hdropped hothers =>
      rw [hnow] at hroom hothers
      have hnone : ∀ j, ¬ Own t x j := fun j hj => by
        rw [hnew] at hown
        cases hown j hj
      by_cases hknown : (t i).Known x.node.now
      · -- the slot was another circuit's
        obtain ⟨hall, hsilent⟩ := hroom.crowded ((hswept i).known_iff.mpr hknown)
        refine iff_of_false (fun hsame => ?_) ?_
        · rw [hsame.known hunique hknown, hknown.1] at hdropped
          cases hdropped
        · rintro (hbar | hroom | ⟨j, hj, -⟩ | ⟨-, ⟨j, hj⟩ | hlive⟩)
          · exact hbars hbar
          · exact hlong hroom
          · exact hnone j hj
          · exact hj ((hswept j).known_iff.mp (hall j))
          · exact hsilent ((hswept i).live_iff.mpr (hlive i))
      · refine iff_of_true (LosesNone.sameLookups hunique fun j => ?_)
          (.inr (.inr (.inr ⟨hnone, .inl ⟨i, hknown⟩⟩)))
        by_cases hij : j = i
        · subst hij
          exact .inr ⟨hknown, hdropped⟩
        · exact ((hswept j).trans (hothers j hij)).lost

/-- A frame that is declined is left as it is; and every circuit can be looked up as before if and
only if the frame costs none. -/
theorem declined_frame (hrun : Run step empty xs t)
    (hpick : (t.node x).forwardPick x.port x.frame x.our = some (k, e, hop))
    (hdeclines : k.Declines x.port x.frame e hop) :
    (∃ toPort, t.result x = some ⟨x.frame, x.our, toPort⟩) ∧
      (SameLookups x.node.now t (t.step x) ↔ CostsNothing t x k hop) := by
  have hunique := unique_run hrun
  obtain ⟨hsearched, -⟩ := L2Node.forwardPick_searched hpick
  have hswept : t.Swept x.node.now k.circuits := hsearched.swept
  have hkeeps : ∀ {t' : L2Table}, t.Swept x.node.now t' → SameLookups x.node.now t t' := fun h =>
    (Swept.losesNone h).sameLookups hunique
  unfold result step
  rw [L2Node.transit_forwardOn hpick]
  cases hop with
  | declined =>
      obtain ⟨⟨out, hout⟩, hport⟩ := k.withPort_spec x.port x.frame x.our
      rw [show k.now = x.node.now from hsearched.beside.now] at hport
      exact ⟨⟨out, hout⟩, iff_of_true (hkeeps (hswept.trans hport)) trivial⟩
  | adjacent hopPort => cases hdeclines
  | hop nexthop pinned hopPort =>
      unfold L2Node.forwardOn
      dsimp only
      split
      · rename_i hbars
        exact ⟨⟨0, rfl⟩, iff_of_true (hkeeps hswept) (.inl hbars)⟩
      rename_i hbars
      have hnone := hdeclines.resolve_left hbars
      have hfails := L2Node.extend_fails hsearched.entry hnone
      generalize k.flexL2Extend x.port x.frame e nexthop pinned hopPort x.frame.kind = result at *
      obtain ⟨m, result⟩ := result
      obtain rfl : result = none := hnone
      exact ⟨⟨0, rfl⟩, sameLookups_failed hunique hsearched hbars hfails⟩

end L2Table

/-! ### A frame that is too long -/

namespace Bench

open L2Table

/-- The node while it has its session with `K` itself. -/
def besideK : L2Node :=
  { crossNode with
    sessions := Function.update crossNode.sessions slotA
      { crossNode.sessions slotA with peerCallsign := addr 0x4B } }

/-- `U` connects to `K` on port 3, while `K` is a neighbour on port 1. -/
def noting : L2Input := { openingOn 3 with node := besideK }

/-- A frame of `U` to `K` with no room for another digipeater; `K` is behind `A` now. -/
def tooLong : L2Input :=
  { openingOn 3 with frame := { opening.frame with tail := List.replicate 300 0 } }

theorem tooLong_room : ¬ tooLong.frame.Room := by
  unfold L2Frame.Room
  decide +kernel

set_option maxRecDepth 10000 in
/-- The circuit of `U` and `K` is live, and gone after the frame. -/
theorem live_circuit_forgotten : ¬ ∀ (xs : List L2Input) (t : L2Table) (x : L2Input),
    Run step empty xs t → KeepsLive t x := by
  intro hall
  have hrun : Run step empty [noting] (empty.step noting) := .step noting .start trivial
  have hkeeps := hall _ _ tooLong hrun firstSlot ⟨by decide +kernel, by decide +kernel⟩
  have hdropped : ((empty.step noting).step tooLong firstSlot).active = false := by decide +kernel
  rw [hkeeps.after] at hdropped
  cases hdropped

theorem declines_tooLong {t : L2Table} {call : AxCall} {pinned : Bool} {port : ℕ}
    (hhop : ((t.node tooLong).forwardPick 3 tooLong.frame tooLong.our).map (fun p => p.2.2) =
      some (.hop call pinned port)) :
    ∃ k e hop, (t.node tooLong).forwardPick tooLong.port tooLong.frame tooLong.our =
      some (k, e, hop) ∧ k.Declines tooLong.port tooLong.frame e hop := by
  obtain ⟨⟨k, e, hop⟩, hpick, rfl⟩ := Option.map_eq_some_iff.mp hhop
  exact ⟨k, e, _, hpick, .inr (L2Node.extend_long tooLong_room)⟩

set_option maxRecDepth 10000 in
/-- A circuit with a next hop is not lost by it. -/
theorem declined_frame_pinned : SameLookups tooLong.node.now (empty.step (openingOn 3))
    ((empty.step (openingOn 3)).step tooLong) := by
  have hrun : Run step empty [openingOn 3] (empty.step (openingOn 3)) := .step _ .start trivial
  obtain ⟨k, e, hop, hpick, hdeclines⟩ :=
    @declines_tooLong (empty.step (openingOn 3)) (addr 0x41) true 1 (by decide +kernel)
  refine (declined_frame hrun hpick hdeclines).2.mpr ?_
  cases hop with
  | declined => trivial
  | adjacent => trivial
  | hop =>
      exact .inr (.inr (.inl
        ⟨firstSlot, ⟨by decide +kernel, by decide +kernel⟩, by decide +kernel⟩))

set_option maxRecDepth 10000 in
/-- One without is. -/
theorem declined_frame_costs : ¬ ∀ (xs : List L2Input) (t : L2Table) (x : L2Input) (k : L2Node)
    (e : Option L2Slot) (hop : L2Hop), Run step empty xs t →
    (t.node x).forwardPick x.port x.frame x.our = some (k, e, hop) →
    k.Declines x.port x.frame e hop → SameLookups x.node.now t (t.step x) := by
  intro hall
  have hrun : Run step empty [noting] (empty.step noting) := .step noting .start trivial
  obtain ⟨k, e, hop, hpick, hdeclines⟩ :=
    @declines_tooLong (empty.step noting) (addr 0x41) false 1 (by decide +kernel)
  have hsame := hall _ _ tooLong k e hop hrun hpick hdeclines
  have hfound :
    (flexL2Find (empty.step noting) tooLong.node.now (addr 0x55) (addr 0x4B) 3 false).2 =
      some firstSlot := by decide +kernel
  have hgone : ((empty.step noting).step tooLong firstSlot).active ≠
      (empty.step noting firstSlot).active := by decide +kernel
  exact hgone (congrArg L2Circuit.active (hsame.find _ _ _ _ hfound).2)

end Bench

end FlexNet
