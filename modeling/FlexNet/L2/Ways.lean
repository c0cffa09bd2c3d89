import FlexNet.L2.Replies

/-!
# The ways of a frame

`FlexNet_L2Transit` taken apart, once for all that is proved of whole frames: the hop a frame gets
is the pin that is kept or routing's (`L2Node.Picks`), the forward path has six ends
(`L2Node.Forwards`), and what holds of the circuit table at each step of a frame holds at its end
(`L2Node.transit_rule`).
-/

namespace FlexNet

open Runs L2Circuit

namespace L2Frame

/-- The kind of the control octet. -/
def kind (f : L2Frame) : L2Kind := (f.tail.head?.map flexL2CtlKind).getD .other

end L2Frame

namespace L2Node

variable {n m k : L2Node} {port our : ℕ} {f f' : L2Frame} {kind : L2Kind} {e : Option L2Slot}

/-- The next hop of a circuit is not looked for again: it has a session, on whatever port. -/
def KeepsPin (n : L2Node) (kind : L2Kind) (e : L2Circuit) : Prop :=
  e.appended.isEmpty = false ∧ flexL2MustRepin (e.closedAt != 0) kind
    (n.flexSessionForCall (flexNormalizeCallsign e.appended)).isSome = false

/-- Two nodes with the same clock, configuration, sessions and ports. -/
structure Beside (n m : L2Node) : Prop where
  now : m.now = n.now
  cfg : m.cfg = n.cfg
  sessions : m.sessions = n.sessions
  digiFlag : m.digiFlag = n.digiFlag

theorem Beside.refl (n : L2Node) : Beside n n := ⟨rfl, rfl, rfl, rfl⟩

theorem Beside.trans (h : Beside n m) (h' : Beside m k) : Beside n k :=
  ⟨h'.now.trans h.now, h'.cfg.trans h.cfg, h'.sessions.trans h.sessions,
    h'.digiFlag.trans h.digiFlag⟩

/-! ## The hop that is picked -/

theorem resolve_beside (n : L2Node) (dest : AxCall) : Beside n (n.flexL2ResolveHop dest).1 := by
  unfold flexL2ResolveHop
  dsimp only
  split
  · exact .refl n
  split
  · exact .refl n
  split
  · exact .refl n
  have hheal : ∀ di, Beside n { n with toNode := n.toNode.healDest di } :=
    fun di => ⟨rfl, rfl, rfl, rfl⟩
  split
  · exact hheal _
  split
  · exact hheal _
  · exact hheal _

/-- Routing does not look at circuits. -/
theorem resolve_circuits (n : L2Node) (t : L2Table) (dest : AxCall) :
    (({ n with circuits := t } : L2Node).flexL2ResolveHop dest).2 =
      (n.flexL2ResolveHop dest).2 := by
  unfold flexL2ResolveHop
  dsimp only
  by_cases hext : n.cfg.flexExternalPort (flexNormalizeCallsign dest) = 0
  swap
  · rw [if_pos hext, if_pos hext]
  rw [if_neg (not_not.mpr hext), if_neg (not_not.mpr hext)]
  cases n.flexFindDestForTarget (flexNormalizeCallsign dest) with
  | none => rfl
  | some di =>
      dsimp only
      cases n.dests[di]?.bind fun d => n.healedVia d with
      | none => rfl
      | some via =>
          dsimp only
          split_ifs <;> rfl

/-- The hop is the pin of the circuit that was found, or routing's. -/
theorem pick_cases (n : L2Node) (e : Option L2Slot) (kind : L2Kind) (dest : AxCall) :
    Beside n (n.flexL2PickHop e kind dest).1 ∧
      ((∃ i, e = some i ∧ n.KeepsPin kind (n.circuits i) ∧ n.flexL2PickHop e kind dest =
          (n, .hop (n.circuits i).appended true (n.circuits i).outEff)) ∨
        ((∀ i, e = some i → ¬ n.KeepsPin kind (n.circuits i)) ∧
          n.flexL2PickHop e kind dest = n.flexL2ResolveHop dest)) := by
  unfold flexL2PickHop
  dsimp only
  split
  · rename_i c hpin
    rw [Option.filter_eq_some_iff, Option.map_eq_some_iff] at hpin
    obtain ⟨⟨i, hi, rfl⟩, hkept⟩ := hpin
    rw [Bool.and_eq_true, Bool.not_eq_true', Bool.not_eq_true'] at hkept
    exact ⟨.refl n, .inl ⟨i, hi, hkept, rfl⟩⟩
  · rename_i hpin
    refine ⟨n.resolve_beside dest, .inr ⟨fun i hi hkept => ?_, rfl⟩⟩
    rw [Option.filter_eq_none_iff] at hpin
    refine hpin (n.circuits i) (by rw [hi]; rfl) ?_
    rw [hkept.1, hkept.2]
    rfl

/-! ## The forward path -/

/-- The hop a frame gets: the pin that is kept, or routing's. -/
def Picks (n : L2Node) (f : L2Frame) (kind : L2Kind) (e : Option L2Slot) (nexthop : AxCall)
    (pinned : Bool) (hopPort : ℕ) : Prop :=
  (∃ i, e = some i ∧ n.KeepsPin kind (n.circuits i) ∧ pinned = true ∧
      nexthop = (n.circuits i).appended ∧ hopPort = (n.circuits i).outEff) ∨
    ((∀ i, e = some i → ¬ n.KeepsPin kind (n.circuits i)) ∧ pinned = false ∧
      (n.flexL2ResolveHop f.dest.toAxCall).2 = .hop nexthop false hopPort)

/-- A node after the search for the circuit of a frame, with what was found. -/
structure Searched (n k : L2Node) (port : ℕ) (f : L2Frame) (e : Option L2Slot) : Prop where
  beside : Beside n k
  swept : n.circuits.Swept n.now k.circuits
  entry : k.Entry port f e

/-- The ways of a frame through the forward path. -/
inductive Forwards (n : L2Node) (port : ℕ) (f : L2Frame) (our : ℕ) (kind : L2Kind) :
    L2Node × Option L2Out → Prop
  | looped {k : L2Node} {e : Option L2Slot} (searched : Searched n k port f e) :
      Forwards n port f our kind (k, none)
  | asIs {k : L2Node} {e : Option L2Slot} (searched : Searched n k port f e) :
      Forwards n port f our kind (k, some ⟨f, our, 0⟩)
  | declined {k : L2Node} {e : Option L2Slot} (searched : Searched n k port f e) :
      Forwards n port f our kind (k.withPort port f our)
  | adjacent {k : L2Node} {e : Option L2Slot} (hopPort : ℕ) (searched : Searched n k port f e)
      (free : ∀ i, e = some i → ¬ n.KeepsPin kind (n.circuits i)) :
      Forwards n port f our kind ((k.flexL2NoteAdjacent port f e hopPort kind).withPort port f our)
  | full {k : L2Node} {e : Option L2Slot} {nexthop : AxCall} {pinned : Bool} {hopPort : ℕ}
      (searched : Searched n k port f e) (picks : n.Picks f kind e nexthop pinned hopPort) :
      Forwards n port f our kind
        ((k.flexL2Extend port f e nexthop pinned hopPort kind).1, some ⟨f, our, 0⟩)
  | extended {k : L2Node} {e : Option L2Slot} {nexthop : AxCall} {pinned : Bool} {hopPort : ℕ}
      {f' : L2Frame} (searched : Searched n k port f e)
      (picks : n.Picks f kind e nexthop pinned hopPort)
      (extended : (k.flexL2Extend port f e nexthop pinned hopPort kind).2 = some f') :
      Forwards n port f our kind
        ((k.flexL2Extend port f e nexthop pinned hopPort kind).1.withPort port f' our)

/-- The node before the search, seen from the node that has picked a hop. -/
theorem search_pick {hop : L2Hop}
    (hfound : n.l2Find f.origin.toAxCall f.dest.toAxCall port false = (m, e))
    (hpicked : m.flexL2PickHop e kind f.dest.toAxCall = (k, hop)) :
    Searched n k port f e ∧
      (∀ hopPort, hop = .adjacent hopPort → ∀ i, e = some i → ¬ n.KeepsPin kind (n.circuits i)) ∧
      ∀ nexthop pinned hopPort, hop = .hop nexthop pinned hopPort →
        n.Picks f kind e nexthop pinned hopPort := by
  obtain ⟨hswept, hentry⟩ := l2Find_entry n port f
  obtain ⟨hfind, -⟩ := l2Find_spec n f.origin.toAxCall f.dest.toAxCall port false
  rw [hfound] at hswept hentry hfind
  dsimp only at hswept hentry hfind
  have hm : Beside n m := by
    rw [hfind]
    exact ⟨rfl, rfl, rfl, rfl⟩
  obtain ⟨hbeside, hpick⟩ := m.pick_cases e kind f.dest.toAxCall
  obtain ⟨hcircuits, hnow, -⟩ := m.flexL2PickHop_spec e kind f.dest.toAxCall
  have hresolve : (m.flexL2ResolveHop f.dest.toAxCall).2 =
      (n.flexL2ResolveHop f.dest.toAxCall).2 := by
    rw [hfind]
    exact n.resolve_circuits _ _
  have hkeeps : ∀ i, e = some i → m.circuits i = n.circuits i ∧
      (m.KeepsPin kind (m.circuits i) ↔ n.KeepsPin kind (n.circuits i)) := by
    intro i hi
    have hsame := (hswept i).eq (ofPair_iff.mp (hentry.found i hi).1).1
    refine ⟨hsame, ?_⟩
    rw [hsame, hfind]
    exact Iff.rfl
  rw [hpicked] at hbeside hcircuits hnow hpick
  dsimp only at hbeside hcircuits hnow
  refine ⟨⟨hm.trans hbeside, ?_, fun i hi => ?_, fun hnone i => ?_⟩, ?_, ?_⟩
  · rw [hcircuits]
    exact hswept
  · rw [hcircuits, hnow]
    exact hentry.found i hi
  · rw [hcircuits]
    exact hentry.none hnone i
  · rintro hopPort rfl i hi hkept
    rcases hpick with ⟨i', hi', -, hhop⟩ | ⟨hnone, -⟩
    · cases (Prod.ext_iff.mp hhop).2
    · exact hnone i hi ((hkeeps i hi).2.mpr hkept)
  · rintro nexthop pinned hopPort rfl
    rcases hpick with ⟨i, hi, hkept, hhop⟩ | ⟨hkept, hhop⟩
    · obtain ⟨hsame, hiff⟩ := hkeeps i hi
      obtain ⟨hcall, hpinned, hport⟩ := L2Hop.hop.inj (Prod.ext_iff.mp hhop).2
      rw [hsame] at hcall hport
      exact .inl ⟨i, hi, hiff.mp hkept, hpinned, hcall, hport⟩
    · have hhop' := (Prod.ext_iff.mp hhop).2
      dsimp only at hhop'
      obtain ⟨-, -, hspec⟩ := m.flexL2ResolveHop_spec f.dest.toAxCall
      obtain ⟨rfl, -⟩ := hspec nexthop pinned hopPort hhop'.symm
      exact .inr ⟨fun i hi hn => hkept i hi ((hkeeps i hi).2.mpr hn), rfl,
        hresolve.symm.trans hhop'.symm⟩

theorem forwardL2_forwards (n : L2Node) (port : ℕ) (f : L2Frame) (our : ℕ) (ourDigi : L2Addr)
    (kind : L2Kind) : Forwards n port f our kind (n.forwardL2 port f our ourDigi kind) := by
  obtain ⟨hswept, hentry⟩ := l2Find_entry n port f
  obtain ⟨hfind, -⟩ := l2Find_spec n f.origin.toAxCall f.dest.toAxCall port false
  unfold forwardL2
  dsimp only
  cases hfound : n.l2Find f.origin.toAxCall f.dest.toAxCall port false with
  | mk m e =>
  rw [hfound] at hswept hentry hfind
  dsimp only at hswept hentry hfind ⊢
  split
  · refine .looped ⟨?_, hswept, hentry⟩
    rw [hfind]
    exact ⟨rfl, rfl, rfl, rfl⟩
  cases hpicked : m.flexL2PickHop e kind f.dest.toAxCall with
  | mk k hop =>
  obtain ⟨hsearched, hadjacent, hhop⟩ := search_pick hfound hpicked
  cases hop with
  | declined => exact .declined hsearched
  | adjacent hopPort =>
      dsimp only
      split
      · exact .adjacent hopPort hsearched (hadjacent hopPort rfl)
      · exact .declined hsearched
  | hop nexthop pinned hopPort =>
      have hpicks := hhop nexthop pinned hopPort rfl
      dsimp only
      split
      · exact .asIs hsearched
      split
      · exact .asIs hsearched
      split
      · exact .asIs hsearched
      have hfull := @Forwards.full _ _ _ our _ _ _ _ _ _ hsearched hpicks
      have hextended := fun f' => @Forwards.extended n port f our kind k e nexthop pinned hopPort
        f' hsearched hpicks
      generalize k.flexL2Extend port f e nexthop pinned hopPort kind = result at hfull hextended
      obtain ⟨k', result⟩ := result
      cases result with
      | none => exact hfull
      | some f' => exact hextended f' rfl

/-- How a frame got its hop. -/
structure Extends (n : L2Node) (port : ℕ) (f : L2Frame) (our : ℕ) (kind : L2Kind) (out : L2Out)
    (k : L2Node) (e : Option L2Slot) (nexthop : AxCall) (pinned : Bool) (hopPort : ℕ) : Prop extends
    Searched n k port f e where
  picks : n.Picks f kind e nexthop pinned hopPort
  extended : (k.flexL2Extend port f e nexthop pinned hopPort kind).2 = some out.frame
  result : ((k.flexL2Extend port f e nexthop pinned hopPort kind).1.withPort port out.frame our).2 =
    some out

theorem append_ne {hop : AxCall} (h : f.appendDigi hop = some f') : f' ≠ f := by
  rintro rfl
  have hlen := congrArg (fun g => g.digis.length) (L2Frame.appendDigi_some h)
  simp at hlen

theorem forward_extends {result : L2Node × Option L2Out} {hop : AxCall} {out : L2Out}
    (hwalk : Forwards n port f our kind result) (hresult : result.2 = some out)
    (happend : f.appendDigi hop = some out.frame) :
    ∃ k e nexthop pinned hopPort, Extends n port f our kind out k e nexthop pinned hopPort := by
  have hne := append_ne happend
  have hasIs : some (⟨f, our, 0⟩ : L2Out) ≠ some out := by
    intro h
    obtain rfl := Option.some.inj h
    exact hne rfl
  cases hwalk with
  | looped => cases hresult
  | asIs => exact absurd hresult hasIs
  | declined =>
      rw [withPort_eq] at hresult
      obtain rfl := Option.some.inj hresult
      exact absurd rfl hne
  | adjacent =>
      rw [withPort_eq] at hresult
      obtain rfl := Option.some.inj hresult
      exact absurd rfl hne
  | full => exact absurd hresult hasIs
  | @extended k e nexthop pinned hopPort f' hsearched hpicks hext =>
      have hframe := hresult
      rw [withPort_eq] at hframe
      obtain rfl := Option.some.inj hframe
      exact ⟨k, e, nexthop, pinned, hopPort, hsearched, hpicks, hext, hresult⟩

theorem append_length {hop : AxCall} (h : f.appendDigi hop = some f') :
    f'.digis.length = f.digis.length + 1 ∧ f'.dest = f.dest ∧ f'.origin = f.origin := by
  obtain rfl := L2Frame.appendDigi_some h
  exact ⟨by simp, rfl, rfl⟩

/-- The forward path: the node is the last digipeater, and on no circuit of the other direction is
the hop before it the node's own. -/
structure Outward (n : L2Node) (port : ℕ) (f : L2Frame) (our : ℕ) : Prop where
  last : our + 1 = f.digis.length
  foreign : 1 ≤ our → ∀ i prev, n.l2FindRev f.dest.toAxCall f.origin.toAxCall port = some i →
    f.digis[our - 1]? = some prev → (n.circuits i).isOurHop prev = false

theorem foreign_of_contract {i : L2Slot} {prev : L2Addr}
    (hnone : n.flexL2Contract port f our kind = (n, none))
    (hrev : n.l2FindRev f.dest.toAxCall f.origin.toAxCall port = some i)
    (hprev : f.digis[our - 1]? = some prev) : (n.circuits i).isOurHop prev = false := by
  unfold flexL2Contract at hnone
  rw [hrev, hprev] at hnone
  dsimp only at hnone
  by_contra hours
  rw [Bool.not_eq_false] at hours
  rw [hours, Bool.not_true, if_neg Bool.false_ne_true] at hnone
  cases (Prod.mk.inj hnone).2

/-- A frame that is extended has come by the forward path. -/
theorem transit_forward {hop : AxCall} {out : L2Out}
    (hresult : (n.flexNetL2Transit port f our).2 = some out)
    (happend : f.appendDigi hop = some out.frame) :
    Outward n port f our ∧ ∃ ourDigi, (n.forwardL2 port f our ourDigi f.kind).2 = some out := by
  have hne := append_ne happend
  have hasIs : some (⟨f, our, 0⟩ : L2Out) ≠ some out := by
    intro h
    obtain rfl := Option.some.inj h
    exact hne rfl
  unfold flexNetL2Transit at hresult
  dsimp only at hresult
  split at hresult
  · exact absurd hresult hasIs
  split at hresult
  · exact absurd hresult hasIs
  split at hresult
  swap
  · exact absurd hresult hasIs
  rename_i ctl ourDigi hctl hours
  split at hresult
  · exact absurd hresult hasIs
  have hkind : f.kind = flexL2CtlKind ctl := by
    rw [L2Frame.kind, hctl]
    rfl
  have hlast : (if our + 1 ≠ f.digis.length then n.withPort port f our
      else n.forwardL2 port f our ourDigi (flexL2CtlKind ctl)).2 = some out →
      our + 1 = f.digis.length ∧
        ∃ ourDigi, (n.forwardL2 port f our ourDigi f.kind).2 = some out := by
    intro h
    split at h
    · rw [withPort_eq] at h
      obtain rfl := Option.some.inj h
      exact absurd rfl hne
    · rename_i hlast
      exact ⟨not_ne_iff.mp hlast, ourDigi, hkind ▸ h⟩
  by_cases hour : 1 ≤ our
  · rw [if_pos hour] at hresult
    rcases n.flexL2Contract_cases port f our (flexL2CtlKind ctl) with
      hnone | ⟨i, prev, -, -, -, hsome⟩
    · rw [hnone] at hresult
      obtain ⟨hend, hforward⟩ := hlast hresult
      exact ⟨⟨hend, fun _ i prev => foreign_of_contract hnone⟩, hforward⟩
    · -- a hop was taken out
      rw [hsome] at hresult
      dsimp only at hresult
      rw [withPort_eq] at hresult
      obtain rfl := Option.some.inj hresult
      have hlen := (append_length happend).1
      have herase : (f.removeDigi (our - 1)).digis.length ≤ f.digis.length :=
        (List.eraseIdx_sublist ..).length_le
      dsimp only at hlen
      omega
  · rw [if_neg hour] at hresult
    obtain ⟨hend, hforward⟩ := hlast hresult
    exact ⟨⟨hend, fun h => absurd h hour⟩, hforward⟩

theorem transit_extends {hop : AxCall} {out : L2Out}
    (hresult : (n.flexNetL2Transit port f our).2 = some out)
    (happend : f.appendDigi hop = some out.frame) :
    ∃ k e nexthop pinned hopPort, Extends n port f our f.kind out k e nexthop pinned hopPort := by
  obtain ⟨-, ourDigi, hforward⟩ := transit_forward hresult happend
  exact forward_extends (n.forwardL2_forwards port f our ourDigi f.kind) hforward happend

/-! ## The circuit table -/

/-- The circuit of a frame is the one its search finds. -/
theorem own_found (hunique : n.circuits.Unique) (hswept : n.circuits.Swept n.now k.circuits)
    (he : k.Entry port f e) {i : L2Slot}
    (hpair : (n.circuits i).ofPair f.origin.toAxCall f.dest.toAxCall port = true)
    (hlive : (n.circuits i).state n.now ≠ .expired) : e = some i := by
  have hsame : k.circuits i = n.circuits i := by
    rcases hswept i with heq | ⟨hexpired, -⟩
    · exact heq
    · exact absurd hexpired hlive
  cases e with
  | none =>
      have hnone := he.none rfl i
      rw [hsame, hpair] at hnone
      cases hnone
  | some j =>
      have hj := (hswept j).ofPair (he.found j rfl).1
      rw [hunique _ _ _ i j hpair hj]

/-- Every way a frame goes through `FlexNet_L2Transit`: what holds of the table at each holds at the
end. -/
theorem transit_rule {P : L2Table → Prop} (hstart : P n.circuits)
    (hsweep : ∀ t t', P t → t.Swept n.now t' → P t')
    (hback : ∀ i, n.l2FindRev f.dest.toAxCall f.origin.toAxCall port = some i →
      P (n.setCircuit i ((n.circuits i).used f.kind n.now)).circuits)
    (hadjacent : ∀ k e hopPort, Searched n k port f e →
      (∀ i, e = some i → ¬ n.KeepsPin f.kind (n.circuits i)) →
        P (k.flexL2NoteAdjacent port f e hopPort f.kind).circuits)
    (hextend : ∀ k e nexthop pinned hopPort, Searched n k port f e →
      n.Picks f f.kind e nexthop pinned hopPort →
        P (k.flexL2Extend port f e nexthop pinned hopPort f.kind).1.circuits) :
    P (n.flexNetL2Transit port f our).1.circuits := by
  have hport : ∀ (m : L2Node) (g : L2Frame) (p : ℕ), m.now = n.now → P m.circuits →
      P (m.withPort port g p).1.circuits := by
    intro m g p hnow hm
    have hswept := (m.withPort_spec port g p).2
    rw [hnow] at hswept
    exact hsweep _ _ hm hswept
  have hforward : ∀ result, Forwards n port f our f.kind result → P result.1.circuits := by
    intro result hwalk
    cases hwalk with
    | looped hsearched => exact hsweep _ _ hstart hsearched.swept
    | asIs hsearched => exact hsweep _ _ hstart hsearched.swept
    | declined hsearched =>
        exact hport _ _ _ hsearched.beside.now (hsweep _ _ hstart hsearched.swept)
    | adjacent hopPort hsearched hfree =>
        have hnow := (@stays_noteAdjacent _ _ _ f.kind _ hsearched.entry hopPort).1
        exact hport _ _ _ (hnow.trans hsearched.beside.now) (hadjacent _ _ hopPort hsearched hfree)
    | full hsearched hpicks => exact hextend _ _ _ _ _ hsearched hpicks
    | @extended k e nexthop pinned hopPort f' hsearched hpicks hext =>
        have hnow := (@touches_extend _ _ _ f.kind _ hsearched.entry nexthop pinned hopPort).1
        exact hport _ _ _ (hnow.trans hsearched.beside.now) (hextend _ _ _ _ _ hsearched hpicks)
  unfold flexNetL2Transit
  dsimp only
  split
  · exact hstart
  split
  · exact hstart
  split
  swap
  · exact hstart
  rename_i ctl ourDigi hctl hours
  have hkind : flexL2CtlKind ctl = f.kind := by
    rw [L2Frame.kind, hctl]
    rfl
  rw [hkind]
  split
  · exact hstart
  have hlast : P (if our + 1 ≠ f.digis.length then n.withPort port f our
      else n.forwardL2 port f our ourDigi f.kind).1.circuits := by
    split
    · exact hport n f our rfl hstart
    · exact hforward _ (n.forwardL2_forwards port f our ourDigi f.kind)
  by_cases hour : 1 ≤ our
  · rw [if_pos hour]
    rcases n.flexL2Contract_cases port f our f.kind with hnone | ⟨i, prev, hrev, -, -, hsome⟩
    · rw [hnone]
      exact hlast
    · rw [hsome]
      exact hport _ _ _ rfl (hback i hrev)
  · rw [if_neg hour]
    exact hlast

end L2Node

end FlexNet
