import FlexNet.L2.OwnHops

/-!
# One circuit for a pair and a port

Whatever a frame does to the circuit table is made of searches, of writes that leave the key of a
circuit, and of one new circuit where the search found none (`L2Table.Touches`).  So there is never
more than one circuit for a pair and an arrival port (`L2Table.unique_run`), and the port of a
circuit is one that a frame arrived on (`L2Table.arrived_run`).
-/

namespace FlexNet

open Runs L2Circuit

/-- What a frame can do to the table. -/
inductive L2Table.Touches (now : ℤ) (port : ℕ) (f : L2Frame) : L2Table → L2Table → Prop
  | sweep {t t' : L2Table} (h : t.Swept now t') : Touches now port f t t'
  | write {t : L2Table} (i : L2Slot) (e : L2Circuit)
      (key : ∀ u d p, e.ofPair u d p = true → (t i).ofPair u d p = true) :
      Touches now port f t (Function.update t i e)
  | make {t : L2Table} (i : L2Slot)
      (none : ∀ j, (t j).ofPair f.origin.toAxCall f.dest.toAxCall port = false) :
      Touches now port f t (Function.update t i (.fresh now f.origin.toAxCall f.dest.toAxCall port))
  | trans {t t' t'' : L2Table} (h : Touches now port f t t') (h' : Touches now port f t' t'') :
      Touches now port f t t''

namespace L2Circuit

variable {e : L2Circuit} {user dest : AxCall} {port : ℕ}

theorem ofPair_used (e : L2Circuit) (kind : L2Kind) (now : ℤ) :
    (e.used kind now).ofPair user dest port = e.ofPair user dest port := by
  obtain ⟨closing, closedAt, heq, -⟩ := used_eq e kind now
  rw [heq]
  rfl

theorem ofPair_repin (e : L2Circuit) (fresh : Bool) (nexthop : AxCall) (hopPort : ℕ) :
    (L2Node.repin e fresh nexthop hopPort).ofPair user dest port = e.ofPair user dest port := by
  obtain ⟨prevOutPort, heq⟩ := L2Node.repin_eq e fresh nexthop hopPort
  rw [heq]
  rfl

end L2Circuit

namespace L2Node

open L2Table

variable {n : L2Node} {port our : ℕ} {f : L2Frame} {kind : L2Kind}

theorem touches_entry {e : Option L2Slot} (he : n.Entry port f e) :
    (n.l2Entry port f e).1.now = n.now ∧
      Touches n.now port f n.circuits (n.l2Entry port f e).1.circuits := by
  rcases l2Entry_cases he with
    ⟨-, t, ht, hswept⟩ | ⟨i, rfl, hentry⟩ | ⟨-, i, t, hswept, hall, hentry⟩
  · rw [ht]
    exact ⟨rfl, .sweep hswept⟩
  · rw [hentry]
    exact ⟨rfl, .sweep (.refl n.now _)⟩
  · rw [hentry]
    exact ⟨rfl, (Touches.sweep hswept).trans (.make i hall)⟩

theorem touches_noteAdjacent {e : Option L2Slot} (he : n.Entry port f e) (hopPort : ℕ) :
    Touches n.now port f n.circuits (n.flexL2NoteAdjacent port f e hopPort kind).circuits := by
  obtain ⟨hnow, htouches⟩ := touches_entry he
  unfold flexL2NoteAdjacent
  generalize n.l2Entry port f e = found at hnow htouches
  obtain ⟨m, i⟩ := found
  cases i with
  | none => exact htouches
  | some i =>
      refine htouches.trans (.write i _ fun u d p h => ?_)
      change (({ m.circuits i with outPort := hopPort }).used kind m.now).ofPair u d p = true at h
      rw [ofPair_used] at h
      exact h

theorem touches_extend {e : Option L2Slot} (he : n.Entry port f e) (nexthop : AxCall)
    (pinned : Bool)
    (hopPort : ℕ) :
    (n.flexL2Extend port f e nexthop pinned hopPort kind).1.now = n.now ∧
      Touches n.now port f n.circuits
        (n.flexL2Extend port f e nexthop pinned hopPort kind).1.circuits := by
  obtain ⟨hnow, htouches⟩ := touches_entry he
  unfold flexL2Extend
  generalize n.l2Entry port f e = found at hnow htouches
  obtain ⟨m, i⟩ := found
  cases i with
  | none => exact ⟨hnow, htouches⟩
  | some i =>
      dsimp only
      cases f.appendDigi nexthop with
      | none =>
          dsimp only
          split
          · refine ⟨hnow, htouches.trans (.write i _ fun u d p h => ?_)⟩
            simp [ofPair] at h
          · exact ⟨hnow, htouches⟩
      | some f' =>
          refine ⟨hnow, htouches.trans (.write i _ fun u d p h => ?_)⟩
          change (L2Circuit.used _ kind m.now).ofPair u d p = true at h
          rw [ofPair_used] at h
          split at h
          · exact h
          · rwa [ofPair_repin] at h

theorem touches_withPort {t : L2Table} (h : Touches n.now port f t n.circuits) (f' : L2Frame) :
    Touches n.now port f t (n.withPort port f' our).1.circuits :=
  h.trans (.sweep (n.withPort_spec port f' our).2)

theorem touches_forward (n : L2Node) (port : ℕ) (f : L2Frame) (our : ℕ) (ourDigi : L2Addr)
    (kind : L2Kind) :
    Touches n.now port f n.circuits (n.forwardL2 port f our ourDigi kind).1.circuits := by
  obtain ⟨hswept, hentry⟩ := l2Find_entry n port f
  obtain ⟨hfind, -⟩ := l2Find_spec n f.origin.toAxCall f.dest.toAxCall port false
  have hnow : (n.l2Find f.origin.toAxCall f.dest.toAxCall port false).1.now = n.now := by rw [hfind]
  unfold forwardL2
  dsimp only
  generalize n.l2Find f.origin.toAxCall f.dest.toAxCall port false = found at hswept hentry hnow
  obtain ⟨m, e⟩ := found
  dsimp only at hswept hentry hnow ⊢
  split
  · exact .sweep hswept
  obtain ⟨hcircuits, hnow', -⟩ := m.flexL2PickHop_spec e kind f.dest.toAxCall
  cases hpick : m.flexL2PickHop e kind f.dest.toAxCall with
  | mk k found =>
      rw [hpick] at hcircuits hnow'
      dsimp only at hcircuits hnow'
      have hentry' : k.Entry port f e := by
        refine ⟨fun i hi => ?_, fun hnone i => ?_⟩
        · rw [hcircuits, hnow']
          exact hentry.found i hi
        · rw [hcircuits]
          exact hentry.none hnone i
      have hsame : k.now = n.now := hnow'.trans hnow
      have htouches : Touches n.now port f n.circuits k.circuits := by
        rw [hcircuits]
        exact .sweep hswept
      rw [← hsame] at htouches ⊢
      cases found with
      | declined => exact touches_withPort htouches f
      | adjacent hopPort =>
          dsimp only
          split
          · obtain ⟨hnoted, -⟩ := @stays_noteAdjacent _ _ _ kind _ hentry' hopPort
            rw [← hnoted]
            refine touches_withPort ?_ f
            rw [hnoted]
            exact htouches.trans (touches_noteAdjacent hentry' hopPort)
          · exact touches_withPort htouches f
      | hop nexthop pinned hopPort =>
          dsimp only
          split
          · exact htouches
          split
          · exact htouches
          split
          · exact htouches
          obtain ⟨hkept, hextend⟩ :=
            @touches_extend _ _ _ kind _ hentry' nexthop pinned hopPort
          have hextend := htouches.trans hextend
          generalize k.flexL2Extend port f e nexthop pinned hopPort kind = result at hextend hkept
          obtain ⟨m', result⟩ := result
          dsimp only at hextend hkept
          cases result with
          | none => exact hextend
          | some f' =>
              rw [← hkept] at hextend ⊢
              exact touches_withPort hextend f'

/-- What `FlexNet_L2Transit` does to the table. -/
theorem touches_transit (n : L2Node) (port : ℕ) (f : L2Frame) (our : ℕ) :
    Touches n.now port f n.circuits (n.flexNetL2Transit port f our).1.circuits := by
  have hsame : Touches n.now port f n.circuits n.circuits := .sweep (.refl n.now _)
  unfold flexNetL2Transit
  dsimp only
  split
  · exact hsame
  split
  · exact hsame
  split
  swap
  · exact hsame
  rename_i ctl ourDigi _ _
  split
  · exact hsame
  have hforward : Touches n.now port f n.circuits
      (if our + 1 ≠ f.digis.length then n.withPort port f our
        else n.forwardL2 port f our ourDigi (flexL2CtlKind ctl)).1.circuits := by
    split
    · exact touches_withPort hsame f
    · exact n.touches_forward port f our ourDigi _
  by_cases hour : 1 ≤ our
  · rw [if_pos hour]
    rcases n.flexL2Contract_cases port f our (flexL2CtlKind ctl) with
      hnone | ⟨i, prev, -, -, -, hsome⟩
    · rw [hnone]
      exact hforward
    · rw [hsome]
      refine touches_withPort (n := n.setCircuit i ((n.circuits i).used _ n.now)) ?_ _
      refine .write i _ fun u d p h => ?_
      rwa [ofPair_used] at h
  · rw [if_neg hour]
    exact hforward

end L2Node

/-! ## In every run -/

namespace L2Table

variable {now : ℤ} {port : ℕ} {f : L2Frame} {t t' : L2Table} {xs : List L2Input}

theorem same_comm {a b : AxCall} (h : a.same b = true) : b.same a = true :=
  same_trans h (same_self a)

/-- There is one circuit at most for a pair and an arrival port. -/
def Unique (t : L2Table) : Prop :=
  ∀ u d p i j, (t i).ofPair u d p = true → (t j).ofPair u d p = true → i = j

/-- A new circuit is told from the others by its key. -/
theorem unique_fresh {u d : AxCall} {p : ℕ} {e : L2Circuit}
    (hnone : e.ofPair f.origin.toAxCall f.dest.toAxCall port = false) (he : e.ofPair u d p = true)
    (hfresh : (L2Circuit.fresh now f.origin.toAxCall f.dest.toAxCall port).ofPair u d p = true) :
    False := by
  obtain ⟨hactive, hport, huser, hdest⟩ := ofPair_iff.mp he
  obtain ⟨-, hport', huser', hdest'⟩ := ofPair_iff.mp hfresh
  rw [← Bool.not_eq_true, ofPair_iff] at hnone
  refine hnone ⟨hactive, hport.trans hport'.symm, ?_, ?_⟩
  · exact same_trans (same_comm huser) (same_comm huser')
  · exact same_trans (same_comm hdest) (same_comm hdest')

theorem Touches.unique (h : Touches now port f t t') (hunique : t.Unique) : t'.Unique := by
  induction h with
  | sweep hswept =>
      exact fun u d p i j hi hj =>
        hunique u d p i j ((hswept i).ofPair hi) ((hswept j).ofPair hj)
  | @write t i₀ e hkey =>
      have hold : ∀ u d p i, (Function.update t i₀ e i).ofPair u d p = true →
          (t i).ofPair u d p = true := by
        intro u d p i hi
        by_cases hne : i = i₀
        · subst hne
          rw [Function.update_self] at hi
          exact hkey u d p hi
        · rwa [Function.update_of_ne hne] at hi
      exact fun u d p i j hi hj => hunique u d p i j (hold u d p i hi) (hold u d p j hj)
  | @make t i₀ hnone =>
      intro u d p i j hi hj
      by_cases hi₀ : i = i₀
      · by_cases hj₀ : j = i₀
        · rw [hi₀, hj₀]
        · subst hi₀
          rw [Function.update_self] at hi
          rw [Function.update_of_ne hj₀] at hj
          exact (unique_fresh (hnone j) hj hi).elim
      · rw [Function.update_of_ne hi₀] at hi
        by_cases hj₀ : j = i₀
        · subst hj₀
          rw [Function.update_self] at hj
          exact (unique_fresh (hnone i) hi hj).elim
        · rw [Function.update_of_ne hj₀] at hj
          exact hunique u d p i j hi hj
  | trans _ _ ih ih' => exact ih' (ih hunique)

/-- The port of a circuit was there before, or is the one of the frame. -/
theorem Touches.arrived (h : Touches now port f t t') :
    ∀ i, (t' i).active = true → (t' i).port = port ∨ ∃ j, (t j).active = true ∧
      (t' i).port = (t j).port := by
  induction h with
  | sweep hswept =>
      intro i hi
      have heq := (hswept i).eq hi
      rw [heq] at hi ⊢
      exact .inr ⟨i, hi, rfl⟩
  | @write t i₀ e hkey =>
      intro i hi
      by_cases hne : i = i₀
      · subst hne
        rw [Function.update_self] at hi ⊢
        obtain ⟨hactive, hport, -⟩ := ofPair_iff.mp (hkey e.user e.dest e.port
          (ofPair_iff.mpr ⟨hi, rfl, same_self _, same_self _⟩))
        exact .inr ⟨i, hactive, hport.symm⟩
      · rw [Function.update_of_ne hne] at hi ⊢
        exact .inr ⟨i, hi, rfl⟩
  | @make t i₀ hnone =>
      intro i hi
      by_cases hne : i = i₀
      · subst hne
        rw [Function.update_self]
        exact .inl rfl
      · rw [Function.update_of_ne hne] at hi ⊢
        exact .inr ⟨i, hi, rfl⟩
  | trans _ _ ih ih' =>
      intro i hi
      rcases ih' i hi with hport | ⟨j, hj, hport⟩
      · exact .inl hport
      · rcases ih j hj with hport' | ⟨k, hk, hport'⟩
        · exact .inl (hport.trans hport')
        · exact .inr ⟨k, hk, hport.trans hport'⟩

theorem touches_step (t : L2Table) (x : L2Input) :
    Touches x.node.now x.port x.frame t (t.step x) :=
  (t.node x).touches_transit x.port x.frame x.our

theorem unique_run (hrun : Run step empty xs t) : t.Unique :=
  hrun.invariant (fun t x ht _ => (t.touches_step x).unique ht) fun _ _ _ i j hi => by cases hi

theorem arrived_run (hrun : Run step empty xs t) (i : L2Slot) (hi : (t i).active = true) :
    ∃ y ∈ xs, (t i).port = y.port := by
  induction hrun generalizing i with
  | start => cases hi
  | @step xs t x _ _ ih =>
      rcases (t.touches_step x).arrived i hi with hport | ⟨j, hj, hport⟩
      · exact ⟨x, by simp, hport⟩
      · obtain ⟨y, hy, hyport⟩ := ih j hj
        exact ⟨y, List.mem_append_left _ hy, hport.trans hyport⟩

end L2Table

end FlexNet
