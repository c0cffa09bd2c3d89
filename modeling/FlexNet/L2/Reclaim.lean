import FlexNet.L2.Ways

/-!
# Which circuit makes room

The loop of `flex_l2_find` remembers the first free slot, the closed circuit that was closed first,
and the open one that has been silent for the longest (`L2Scan.Went`).  So a search with `create`
gives up no circuit that is live, none while there is a free slot, no open one while there is a
closed one, and the oldest of its kind; and it fails only where every circuit is live.
-/

namespace FlexNet

open Runs L2Circuit

namespace L2Circuit

/-- The circuit has not expired. -/
def Known (e : L2Circuit) (now : ℤ) : Prop := e.active = true ∧ e.state now ≠ .expired

/-- The circuit is in use. -/
def Live (e : L2Circuit) (now : ℤ) : Prop := e.active = true ∧ e.state now = .live

/-- The circuit may be given up. -/
def Evictable (e : L2Circuit) (now : ℤ) : Prop := e.active = true ∧ e.state now = .evictable

variable {e e' : L2Circuit} {now : ℤ}

theorem Live.known (h : e.Live now) : e.Known now := ⟨h.1, by rw [h.2]; exact nofun⟩

theorem Evictable.known (h : e.Evictable now) : e.Known now := ⟨h.1, by rw [h.2]; exact nofun⟩

theorem Known.live_or_evictable (h : e.Known now) : e.Live now ∨ e.Evictable now := by
  obtain ⟨hactive, hstate⟩ := h
  cases hst : e.state now with
  | live => exact .inl ⟨hactive, hst⟩
  | evictable => exact .inr ⟨hactive, hst⟩
  | expired => exact absurd hst hstate

theorem Live.not_evictable (h : e.Live now) : ¬ e.Evictable now := fun h' => by
  have := h.2.symm.trans h'.2
  cases this

/-- A search goes past a circuit that has not expired. -/
theorem Swept.known (h : Swept now e e') (hknown : e.Known now) : e' = e :=
  h.resolve_right fun hexpired => hknown.2 hexpired.1

end L2Circuit

/-! ## The first of a kind -/

/-- The least of those that were seen and have a property, if there are any. -/
def Least {α : Type*} (p : α → Prop) (key : α → ℤ) (seen : List α) : Option α → Prop
  | none => ∀ i ∈ seen, ¬ p i
  | some c => c ∈ seen ∧ p c ∧ ∀ i ∈ seen, p i → key c ≤ key i

section Least

variable {α : Type*} {p : α → Prop} {key : α → ℤ} {seen : List α} {i : α} {o : Option α}

theorem Least.skip (h : Least p key seen o) (hi : ¬ p i) : Least p key (seen ++ [i]) o := by
  cases o with
  | none =>
      intro j hj
      rcases List.mem_append.mp hj with hj | hj
      · exact h j hj
      · rwa [List.mem_singleton.mp hj]
  | some c =>
      obtain ⟨hc, hpc, hleast⟩ := h
      refine ⟨List.mem_append_left _ hc, hpc, fun j hj hpj => ?_⟩
      rcases List.mem_append.mp hj with hj | hj
      · exact hleast j hj hpj
      · rw [List.mem_singleton.mp hj] at hpj
        exact absurd hpj hi

/-- One that is not below the least stays out. -/
theorem Least.keep {c : α} (h : Least p key seen (some c)) (hle : key c ≤ key i) :
    Least p key (seen ++ [i]) (some c) := by
  obtain ⟨hc, hpc, hleast⟩ := h
  refine ⟨List.mem_append_left _ hc, hpc, fun j hj hpj => ?_⟩
  rcases List.mem_append.mp hj with hj | hj
  · exact hleast j hj hpj
  · rwa [List.mem_singleton.mp hj]

/-- One below the least takes its place. -/
theorem Least.take (h : Least p key seen o) (hi : p i) (hlt : ∀ c, o = some c → key i < key c) :
    Least p key (seen ++ [i]) (some i) := by
  refine ⟨by simp, hi, fun j hj hpj => ?_⟩
  rcases List.mem_append.mp hj with hj | hj
  · cases o with
    | none => exact absurd hpj (h j hj)
    | some c => exact (hlt c rfl).le.trans (h.2.2 j hj hpj)
  · rw [List.mem_singleton.mp hj]

end Least

/-! ## The loop -/

namespace L2Scan

/-- A closed circuit that may be given up. -/
def ClosedIn (t : L2Table) (now : ℤ) (i : L2Slot) : Prop :=
  (t i).Evictable now ∧ (t i).closedAt ≠ 0

/-- A silent open circuit that may be given up. -/
def SilentIn (t : L2Table) (now : ℤ) (i : L2Slot) : Prop :=
  (t i).Evictable now ∧ (t i).closedAt = 0

/-- What the search remembers after the slots it has seen. -/
structure Went (t : L2Table) (now : ℤ) (seen : List L2Slot) (a : L2Scan) : Prop where
  swept : t.Swept now a.circuits
  ahead : ∀ i, i ∉ seen → a.circuits i = t i
  spare : match a.spare with
    | none => ∀ i ∈ seen, (t i).Known now
    | some i => i ∈ seen ∧ ¬ (t i).Known now
  closed : Least (ClosedIn t now) (fun i => (t i).closedAt) seen a.closed
  oldest : Least (SilentIn t now) (fun i => (t i).lastUsed) seen a.oldest

variable {t : L2Table} {now : ℤ} {seen : List L2Slot} {a : L2Scan} {i : L2Slot}

theorem Went.start (t : L2Table) (now : ℤ) : Went t now [] { circuits := t } :=
  ⟨.refl now t, fun _ _ => rfl, fun _ hi => absurd hi List.not_mem_nil,
    fun _ hi => absurd hi List.not_mem_nil, fun _ hi => absurd hi List.not_mem_nil⟩

theorem sweep_of_known (h : (a.circuits i).state now ≠ .expired) : a.sweep now i = a := by
  unfold sweep
  dsimp only
  rw [if_neg]
  rw [Bool.and_eq_true, beq_iff_eq, not_and]
  exact fun _ => h

/-- A slot that is free, or comes free as the search goes by. -/
theorem Went.free (h : Went t now seen a) (hi : i ∉ seen) (hfree : ¬ (t i).Known now) :
    Went t now (seen ++ [i]) ((a.sweep now i).pass ((a.circuits i).state now) i) := by
  have hsame := h.ahead i hi
  obtain ⟨hswept, hlive⟩ := a.sweep_spec now i
  have hinactive : ((a.sweep now i).circuits i).active = false := by
    by_contra hactive
    have hactive : ((a.sweep now i).circuits i).active = true := by simpa using hactive
    have heq := (hswept i).eq hactive
    rw [heq, hsame] at hactive
    refine hfree ⟨hactive, ?_⟩
    rw [← hsame, ← heq]
    exact hlive (by rw [heq, hsame]; exact hactive)
  have hpass : (a.sweep now i).pass ((a.circuits i).state now) i =
      { a.sweep now i with spare := (a.sweep now i).spare <|> some i } :=
    if_pos (by simp [hinactive])
  have hrest : (a.sweep now i).spare = a.spare ∧ (a.sweep now i).closed = a.closed ∧
      (a.sweep now i).oldest = a.oldest := by
    unfold sweep
    dsimp only
    split <;> exact ⟨rfl, rfl, rfl⟩
  have hout : ∀ j, j ≠ i → (a.sweep now i).circuits j = a.circuits j := fun j hj => by
    unfold sweep
    dsimp only
    split
    · exact Function.update_of_ne hj ..
    · rfl
  rw [hpass]
  refine ⟨h.swept.trans hswept, fun j hj => ?_, ?_, ?_, ?_⟩
  · simp only [List.mem_append, List.mem_singleton, not_or] at hj
    exact (hout j hj.2).trans (h.ahead j hj.1)
  · dsimp only
    rw [hrest.1]
    have hspare := h.spare
    cases hs : a.spare with
    | none => exact ⟨by simp, hfree⟩
    | some j =>
        rw [hs] at hspare
        exact ⟨List.mem_append_left _ hspare.1, hspare.2⟩
  · dsimp only
    rw [hrest.2.1]
    exact h.closed.skip fun hclosed => hfree hclosed.1.known
  · dsimp only
    rw [hrest.2.2]
    exact h.oldest.skip fun hsilent => hfree hsilent.1.known

/-- What has been seen of a circuit that has not expired is still there. -/
theorem Went.circuit (h : Went t now seen a) (hknown : (t i).Known now) : a.circuits i = t i :=
  (h.swept i).known hknown

/-- A circuit that is passed by. -/
theorem Went.known (h : Went t now seen a) (hknown : (t i).Known now) :
    Went t now (seen ++ [i]) ((a.sweep now i).pass ((a.circuits i).state now) i) := by
  have hsame := h.circuit hknown
  rw [sweep_of_known (by rw [hsame]; exact hknown.2), hsame]
  have hahead : ∀ j, j ∉ seen ++ [i] → a.circuits j = t j := fun j hj =>
    h.ahead j fun hmem => hj (List.mem_append_left _ hmem)
  have hspare : match a.spare with
      | none => ∀ j ∈ seen ++ [i], (t j).Known now
      | some j => j ∈ seen ++ [i] ∧ ¬ (t j).Known now := by
    have hspare := h.spare
    cases hs : a.spare with
    | none =>
        rw [hs] at hspare
        intro j hj
        rcases List.mem_append.mp hj with hj | hj
        · exact hspare j hj
        · rwa [List.mem_singleton.mp hj]
    | some j =>
        rw [hs] at hspare
        exact ⟨List.mem_append_left _ hspare.1, hspare.2⟩
  unfold pass
  rw [hsame, if_neg (by simp [hknown.1])]
  rcases hknown.live_or_evictable with hlive | hevict
  · rw [if_pos (by rw [hlive.2]; exact nofun)]
    exact ⟨h.swept, hahead, hspare, h.closed.skip fun hc => hlive.not_evictable hc.1,
      h.oldest.skip fun hs => hlive.not_evictable hs.1⟩
  rw [if_neg (by simp [hevict.2])]
  unfold reclaim
  dsimp only
  rw [hsame]
  by_cases hclosed : (t i).closedAt = 0
  · have hnot : ¬ ClosedIn t now i := fun hc => hc.2 hclosed
    rw [if_neg (not_not.mpr hclosed)]
    have hold := h.oldest
    split
    · rename_i hall
      refine ⟨h.swept, hahead, hspare, h.closed.skip hnot, hold.take ⟨hevict, hclosed⟩ ?_⟩
      intro c hc
      rw [hc] at hall hold
      simpa [h.circuit hold.2.1.1.known] using hall
    · rename_i hall
      refine ⟨h.swept, hahead, hspare, h.closed.skip hnot, ?_⟩
      cases ho : a.oldest with
      | none => simp [ho] at hall
      | some c =>
          rw [ho] at hall hold
          refine hold.keep ?_
          simpa [h.circuit hold.2.1.1.known] using hall
  · have hnot : ¬ SilentIn t now i := fun hs => hclosed hs.2
    rw [if_pos hclosed]
    have hold := h.closed
    split
    · rename_i hall
      refine ⟨h.swept, hahead, hspare, hold.take ⟨hevict, hclosed⟩ ?_, h.oldest.skip hnot⟩
      intro c hc
      rw [hc] at hall hold
      simpa [h.circuit hold.2.1.1.known] using hall
    · rename_i hall
      refine ⟨h.swept, hahead, hspare, ?_, h.oldest.skip hnot⟩
      cases ho : a.closed with
      | none => simp [ho] at hall
      | some c =>
          rw [ho] at hall hold
          refine hold.keep ?_
          simpa [h.circuit hold.2.1.1.known] using hall

/-- One slot of the loop. -/
theorem Went.step (h : Went t now seen a) (hi : i ∉ seen) :
    Went t now (seen ++ [i]) ((a.sweep now i).pass ((a.circuits i).state now) i) := by
  by_cases hknown : (t i).Known now
  · exact h.known hknown
  · exact h.free hi hknown

end L2Scan

section Search

variable {t : L2Table} {now : ℤ} {user dest : AxCall} {port : ℕ}

/-- A search that finds nothing has seen every slot. -/
theorem flexL2FindLoop_went {seen l : List L2Slot} {a b : L2Scan} (h : L2Scan.Went t now seen a)
    (hnodup : (seen ++ l).Nodup) (hnone : flexL2FindLoop now user dest port l a = (b, none)) :
    L2Scan.Went t now (seen ++ l) b := by
  induction l generalizing seen a with
  | nil =>
      obtain ⟨rfl, -⟩ := Prod.mk.inj hnone
      simpa using h
  | cons i rest ih =>
      unfold flexL2FindLoop at hnone
      dsimp only at hnone
      split at hnone
      · cases (Prod.mk.inj hnone).2
      · have hi : i ∉ seen := fun hmem => by
          rw [List.nodup_append] at hnodup
          exact hnodup.2.2 i hmem i (by simp) rfl
        have := ih (h.step hi) (by simpa using hnodup) hnone
        simpa using this

theorem mem_l2Slots (i : L2Slot) : i ∈ l2Slots := List.mem_finRange i

theorem nodup_l2Slots : l2Slots.Nodup := List.nodup_finRange 128

/-- A search without `create` drops what has expired, and nothing else. -/
theorem flexL2Find_swept (t : L2Table) (now : ℤ) (user dest : AxCall) (port : ℕ) :
    t.Swept now (flexL2Find t now user dest port false).1 := by
  rcases @flexL2Find_cases now user dest port t false with ⟨_, _, h, _⟩ | ⟨_, h, _⟩ | ⟨hfalse, _⟩
  · exact h
  · exact h
  · cases hfalse

/-- Where the table gives room for a new circuit: in a free slot; with none, in that of the closed
circuit that was closed first; and with no closed one in that of the one silent for the longest. -/
inductive GivesUp (t : L2Table) (now : ℤ) (i : L2Slot) : Prop
  | spare (free : ¬ (t i).Known now)
  | closed (full : ∀ j, (t j).Known now) (evictable : (t i).Evictable now)
      (closed : (t i).closedAt ≠ 0)
      (first : ∀ j, (t j).Evictable now → (t j).closedAt ≠ 0 → (t i).closedAt ≤ (t j).closedAt)
  | silent (full : ∀ j, (t j).Known now) (evictable : (t i).Evictable now)
      (isOpen : ∀ j, (t j).Evictable now → (t j).closedAt = 0)
      (longest : ∀ j, (t j).Evictable now → (t i).lastUsed ≤ (t j).lastUsed)

/-- A new circuit never takes the slot of a live one. -/
theorem GivesUp.not_live {i : L2Slot} (h : GivesUp t now i) : ¬ (t i).Live now := by
  intro hlive
  cases h with
  | spare hfree => exact hfree hlive.known
  | closed _ hevict => exact hlive.not_evictable hevict
  | silent _ hevict => exact hlive.not_evictable hevict

/-- A slot that is given up while its circuit is there: none is free, and that one is not live. -/
theorem GivesUp.crowded {i : L2Slot} (h : GivesUp t now i) (hknown : (t i).Known now) :
    (∀ j, (t j).Known now) ∧ ¬ (t i).Live now := by
  refine ⟨fun j => ?_, h.not_live⟩
  cases h with
  | spare hfree => exact absurd hknown hfree
  | closed hall => exact hall j
  | silent hall => exact hall j

/-- A search with `create` that finds nothing: every circuit is live, or a new one takes a slot that
the table gives up. -/
theorem flexL2Find_create (hnone : (flexL2Find t now user dest port false).2 = none) :
    ((flexL2Find t now user dest port true).2 = none ∧ (∀ i, (t i).Live now) ∧
        (flexL2Find t now user dest port true).1 = (flexL2Find t now user dest port false).1) ∨
      ∃ i, (flexL2Find t now user dest port true).2 = some i ∧ GivesUp t now i ∧
        (flexL2Find t now user dest port true).1 =
          Function.update (flexL2Find t now user dest port false).1 i
            (.fresh now user dest port) := by
  unfold flexL2Find at *
  cases hloop : flexL2FindLoop now user dest port l2Slots { circuits := t } with
  | mk a found =>
      rw [hloop] at hnone
      cases found with
      | some i => cases hnone
      | none =>
          have hwent : L2Scan.Went t now l2Slots a :=
            flexL2FindLoop_went (.start t now) nodup_l2Slots hloop
          have hspare := hwent.spare
          have hclosed := hwent.closed
          have holdest := hwent.oldest
          simp only [Bool.not_true, Bool.not_false, Bool.false_eq_true, if_true, if_false]
          cases hs : a.spare with
          | some i =>
              rw [hs] at hspare
              exact .inr ⟨i, rfl, .spare hspare.2, rfl⟩
          | none =>
              rw [hs] at hspare
              have hfull : ∀ j, (t j).Known now := fun j => hspare j (mem_l2Slots j)
              cases hc : a.closed with
              | some i =>
                  rw [hc] at hclosed
                  obtain ⟨-, ⟨hevict, hne⟩, hfirst⟩ := hclosed
                  exact .inr ⟨i, rfl, .closed hfull hevict hne fun j hj hj' =>
                    hfirst j (mem_l2Slots j) ⟨hj, hj'⟩, rfl⟩
              | none =>
                  rw [hc] at hclosed
                  have hopen : ∀ j, (t j).Evictable now → (t j).closedAt = 0 := fun j hj => by
                    by_contra hne
                    exact hclosed j (mem_l2Slots j) ⟨hj, hne⟩
                  cases ho : a.oldest with
                  | some i =>
                      rw [ho] at holdest
                      obtain ⟨-, ⟨hevict, -⟩, hlongest⟩ := holdest
                      exact .inr ⟨i, rfl, .silent hfull hevict hopen fun j hj =>
                        hlongest j (mem_l2Slots j) ⟨hj, hopen j hj⟩, rfl⟩
                  | none =>
                      rw [ho] at holdest
                      refine .inl ⟨rfl, fun j => ?_, rfl⟩
                      exact (hfull j).live_or_evictable.resolve_right fun hj =>
                        holdest j (mem_l2Slots j) ⟨hj, hopen j hj⟩

/-- A search with `create` that finds the circuit is one without. -/
theorem flexL2Find_found {i : L2Slot}
    (hfound : (flexL2Find t now user dest port false).2 = some i) :
    flexL2Find t now user dest port true = flexL2Find t now user dest port false := by
  unfold flexL2Find at *
  cases hloop : flexL2FindLoop now user dest port l2Slots { circuits := t } with
  | mk a found =>
      rw [hloop] at hfound
      cases found with
      | some i => rfl
      | none => cases hfound

end Search

end FlexNet
