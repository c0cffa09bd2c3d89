import Mathlib.Data.List.Pairwise
import Mathlib.Order.Nat
import Mathlib.Logic.Relation

/-!
# A polled window over a line that loses frames

A sender numbers its items from zero and sends those of a window; a receiver takes them in order and
tells the sender, in every frame it sends back, how far it has come.  Frames arrive in the order
they were sent, or not at all.  The sender asks for an answer with a poll, which only its last frame
carries, and the receiver marks the answer final; it is the final answer that makes the sender start
again from where the receiver is.

What makes numbers modulo `m` enough is one rule: while a poll or its answer is under way the sender
sends neither items nor another poll (`Step.send`).  Then an item on the line is never one the
receiver has (`Inv.item_bounds`), however the two sides and the losses interleave.
-/

namespace PolledWindow

/-- What a frame of the sender carries: an item, a poll, both or neither. -/
structure Outgoing where
  item : Option ℕ
  poll : Bool

/-- What a frame of the receiver says: how far the receiver has come, and whether it answers a
poll. -/
structure Answer where
  upTo : ℕ
  final : Bool

/-- A frame of the sender that asks for nothing. -/
def Outgoing.Idle (o : Outgoing) : Prop := o.item = none ∧ o.poll = false

/-- The two sides and what is on the line between them, oldest frame first. -/
structure Flow where
  /-- How many items the sender has been given. -/
  size : ℕ
  /-- The first item the sender does not know the receiver has. -/
  acked : ℕ
  /-- The next item to send. -/
  next : ℕ
  /-- The item the receiver waits for. -/
  recv : ℕ
  out : List Outgoing
  back : List Answer

/-- A poll or a final answer is under way. -/
def Flow.UnderWay (f : Flow) : Prop := (∃ o ∈ f.out, o.poll = true) ∨ ∃ a ∈ f.back, a.final = true

/-- The steps of the two sides and of the line between them. -/
inductive Step (w : ℕ) : Flow → Flow → Prop
  | give (f : Flow) : Step w f { f with size := f.size + 1 }
  /-- A frame of the sender with the next item in it. -/
  | item (f : Flow) (poll : Bool) : ¬ f.UnderWay → f.next < f.size → f.next < f.acked + w →
      Step w f { f with next := f.next + 1, out := f.out ++ [⟨some f.next, poll⟩] }
  /-- A frame of the sender without an item. -/
  | send (f : Flow) (poll : Bool) : (poll = true → ¬ f.UnderWay) →
      Step w f { f with out := f.out ++ [⟨none, poll⟩] }
  /-- A frame of the receiver; it is final only as the answer to a poll that has arrived. -/
  | answer (f : Flow) (final : Bool) : (final = true → ¬ f.UnderWay ∧ ∀ o ∈ f.out, o.Idle) →
      Step w f { f with back := f.back ++ [⟨f.recv, final⟩] }
  | lose (f : Flow) (out : List Outgoing) (back : List Answer) : out.Sublist f.out →
      back.Sublist f.back → Step w f { f with out := out, back := back }
  /-- A frame reaches the receiver, which may take this item and items kept before it. -/
  | arrive (f : Flow) (o : Outgoing) (rest : List Outgoing) (recv : ℕ) : f.out = o :: rest →
      f.recv ≤ recv → (recv = f.recv ∨ ∃ k, o.item = some k ∧ recv ≤ k + 1) →
      Step w f { f with recv := recv, out := rest }
  /-- An answer reaches the sender, which starts again from there only when it is final. -/
  | heard (f : Flow) (a : Answer) (rest : List Answer) (again : Bool) : f.back = a :: rest →
      (again = true → a.final = true) →
      Step w f { f with acked := a.upTo, next := if again then a.upTo else f.next, back := rest }

/-- What holds of the two sides and the line between them. -/
structure Inv (w : ℕ) (f : Flow) : Prop where
  acked_le : f.acked ≤ f.recv
  recv_le : f.recv ≤ f.next
  next_le : f.next ≤ f.size
  window : f.next ≤ f.acked + w
  item_bounds : ∀ o ∈ f.out, ∀ k, o.item = some k → f.recv ≤ k ∧ k < f.next
  item_order : (f.out.filterMap Outgoing.item).Pairwise (· < ·)
  answer_bounds : ∀ a ∈ f.back, f.acked ≤ a.upTo ∧ a.upTo ≤ f.recv
  answer_order : (f.back.map Answer.upTo).Pairwise (· ≤ ·)
  /-- Nothing is asked behind a poll. -/
  poll_last : f.out.Pairwise fun o o' => o.poll = true → o'.Idle
  /-- While the answer is under way the line to the receiver is idle. -/
  final_alone : ∀ a ∈ f.back, a.final = true → a.upTo = f.recv ∧ ∀ o ∈ f.out, o.Idle
  final_once : f.back.Pairwise fun a a' => ¬ (a.final = true ∧ a'.final = true)

variable {w : ℕ} {f f' : Flow}

theorem Inv.start (size : ℕ) : Inv w ⟨size, 0, 0, 0, [], []⟩ := by
  constructor <;> simp

/-- An item on the line is one of the `w` from where the receiver is. -/
theorem Inv.item_window (h : Inv w f) {o : Outgoing} (ho : o ∈ f.out) {k : ℕ}
    (hk : o.item = some k) :
    f.recv ≤ k ∧ k < f.recv + w := by
  have hb := h.item_bounds o ho k hk
  have := h.acked_le
  have := h.window
  omega

/-- Once the poll on the line has arrived nothing is under way, and the line is idle. -/
theorem Inv.polled (h : Inv w f) {o : Outgoing} {rest : List Outgoing} (hout : f.out = o :: rest)
    (hpoll : o.poll = true) :
    (∀ o' ∈ rest, o'.Idle) ∧ ∀ a ∈ f.back, a.final = false := by
  have hlast := h.poll_last
  rw [hout] at hlast
  refine ⟨fun o' ho' => (List.pairwise_cons.mp hlast).1 o' ho' hpoll, fun a ha => ?_⟩
  by_contra hfinal
  have hidle := (h.final_alone a ha (by simpa using hfinal)).2 o (by simp [hout])
  rw [hidle.2] at hpoll
  cases hpoll

section Steps

variable (h : Inv w f)

include h

theorem Inv.item (poll : Bool) (hunder : ¬ f.UnderWay) (hsize : f.next < f.size)
    (hwin : f.next < f.acked + w) :
    Inv w { f with next := f.next + 1, out := f.out ++ [⟨some f.next, poll⟩] } := by
  have hrecv := h.recv_le
  have hno : ∀ o ∈ f.out, o.poll = false := fun o ho => by
    by_contra hp
    exact hunder (.inl ⟨o, ho, by simpa using hp⟩)
  refine { h with
    recv_le := hrecv.trans (Nat.le_succ _)
    next_le := hsize
    window := hwin
    item_bounds := ?_
    item_order := ?_
    poll_last := ?_
    final_alone := fun a ha hf => absurd (.inr ⟨a, ha, hf⟩) hunder }
  · intro o ho k hk
    rcases List.mem_append.mp ho with ho | ho
    · have := h.item_bounds o ho k hk
      exact ⟨this.1, this.2.trans (Nat.lt_succ_self _)⟩
    · obtain rfl := List.mem_singleton.mp ho
      obtain rfl : f.next = k := by simpa using hk
      exact ⟨hrecv, Nat.lt_succ_self _⟩
  · rw [List.filterMap_append, List.pairwise_append]
    refine ⟨h.item_order, by simp, fun k hk k' hk' => ?_⟩
    obtain ⟨o, ho, hok⟩ := List.mem_filterMap.mp hk
    obtain rfl : f.next = k' := by simpa [eq_comm] using hk'
    exact (h.item_bounds o ho k hok).2
  · rw [List.pairwise_append]
    refine ⟨h.poll_last, by simp, fun o ho o' _ hp => ?_⟩
    rw [hno o ho] at hp
    cases hp

theorem Inv.send (poll : Bool) (hunder : poll = true → ¬ f.UnderWay) :
    Inv w { f with out := f.out ++ [⟨none, poll⟩] } := by
  refine { h with
    item_bounds := ?_
    item_order := by simpa [List.filterMap_append] using h.item_order
    poll_last := ?_
    final_alone := ?_ }
  · intro o ho k hk
    rcases List.mem_append.mp ho with ho | ho
    · exact h.item_bounds o ho k hk
    · obtain rfl := List.mem_singleton.mp ho
      cases hk
  · rw [List.pairwise_append]
    refine ⟨h.poll_last, by simp, fun o ho o' ho' hp => ?_⟩
    obtain rfl := List.mem_singleton.mp ho'
    refine ⟨rfl, ?_⟩
    by_contra hpoll
    exact hunder (by simpa using hpoll) (.inl ⟨o, ho, hp⟩)
  · intro a ha hf
    obtain ⟨hup, hidle⟩ := h.final_alone a ha hf
    refine ⟨hup, fun o ho => ?_⟩
    rcases List.mem_append.mp ho with ho | ho
    · exact hidle o ho
    · obtain rfl := List.mem_singleton.mp ho
      refine ⟨rfl, ?_⟩
      by_contra hpoll
      exact hunder (by simpa using hpoll) (.inr ⟨a, ha, hf⟩)

theorem Inv.answer (final : Bool)
    (hunder : final = true → ¬ f.UnderWay ∧ ∀ o ∈ f.out, o.Idle) :
    Inv w { f with back := f.back ++ [⟨f.recv, final⟩] } := by
  refine { h with
    answer_bounds := ?_
    answer_order := ?_
    final_alone := ?_
    final_once := ?_ }
  · intro a ha
    rcases List.mem_append.mp ha with ha | ha
    · exact h.answer_bounds a ha
    · obtain rfl := List.mem_singleton.mp ha
      exact ⟨h.acked_le, le_rfl⟩
  · rw [List.map_append, List.pairwise_append]
    refine ⟨h.answer_order, by simp, fun n hn n' hn' => ?_⟩
    obtain ⟨a, ha, rfl⟩ := List.mem_map.mp hn
    obtain rfl : n' = f.recv := by simpa using hn'
    exact (h.answer_bounds a ha).2
  · intro a ha hf
    rcases List.mem_append.mp ha with ha | ha
    · exact h.final_alone a ha hf
    · obtain rfl := List.mem_singleton.mp ha
      exact ⟨rfl, (hunder hf).2⟩
  · rw [List.pairwise_append]
    refine ⟨h.final_once, by simp, fun a ha a' ha' hboth => ?_⟩
    obtain rfl := List.mem_singleton.mp ha'
    exact (hunder hboth.2).1 (.inr ⟨a, ha, hboth.1⟩)

theorem Inv.lose {out : List Outgoing} {back : List Answer} (hout : out.Sublist f.out)
    (hback : back.Sublist f.back) : Inv w { f with out := out, back := back } :=
  { h with
    item_bounds := fun o ho => h.item_bounds o (hout.mem ho)
    item_order := h.item_order.sublist (hout.filterMap _)
    answer_bounds := fun a ha => h.answer_bounds a (hback.mem ha)
    answer_order := h.answer_order.sublist (hback.map _)
    poll_last := h.poll_last.sublist hout
    final_alone := fun a ha hf =>
      let ⟨hup, hidle⟩ := h.final_alone a (hback.mem ha) hf
      ⟨hup, fun o ho => hidle o (hout.mem ho)⟩
    final_once := h.final_once.sublist hback }

theorem Inv.arrive {o : Outgoing} {rest : List Outgoing} {recv : ℕ} (hout : f.out = o :: rest)
    (hrecv : f.recv ≤ recv) (hitem : recv = f.recv ∨ ∃ k, o.item = some k ∧ recv ≤ k + 1) :
    Inv w { f with recv := recv, out := rest } := by
  have hmem : ∀ o' ∈ rest, o' ∈ f.out := fun o' ho' => by simp [hout, ho']
  have horder := h.item_order
  rw [hout] at horder
  have hnext : recv ≤ f.next := by
    rcases hitem with rfl | ⟨k, hk, hle⟩
    · exact h.recv_le
    · have := h.item_bounds o (by simp [hout]) k hk
      omega
  refine { h with
    acked_le := h.acked_le.trans hrecv
    recv_le := hnext
    item_bounds := ?_
    item_order := ?_
    answer_bounds := fun a ha => ⟨(h.answer_bounds a ha).1, (h.answer_bounds a ha).2.trans hrecv⟩
    poll_last := h.poll_last.sublist (hout ▸ List.sublist_cons_self o rest)
    final_alone := ?_ }
  · intro o' ho' k' hk'
    have hb := h.item_bounds o' (hmem o' ho') k' hk'
    refine ⟨?_, hb.2⟩
    rcases hitem with rfl | ⟨k, hk, hle⟩
    · exact hb.1
    · -- the items on the line go up, so what comes later is above the one that has arrived
      rw [List.filterMap_cons_some hk, List.pairwise_cons] at horder
      have := horder.1 k' (List.mem_filterMap.mpr ⟨o', ho', hk'⟩)
      show recv ≤ k'
      omega
  · exact horder.sublist ((List.sublist_cons_self o rest).filterMap _)
  · intro a ha hf
    obtain ⟨hup, hidle⟩ := h.final_alone a ha hf
    have hnone := (hidle o (by simp [hout])).1
    refine ⟨?_, fun o' ho' => hidle o' (hmem o' ho')⟩
    rcases hitem with rfl | ⟨k, hk, -⟩
    · exact hup
    · rw [hnone] at hk
      cases hk

theorem Inv.heard {a : Answer} {rest : List Answer} (again : Bool) (hback : f.back = a :: rest)
    (hfinal : again = true → a.final = true) :
    Inv w { f with acked := a.upTo, next := if again then a.upTo else f.next, back := rest } := by
  have hmem : ∀ a' ∈ rest, a' ∈ f.back := fun a' ha' => by simp [hback, ha']
  have ha := h.answer_bounds a (by simp [hback])
  have horder := h.answer_order
  rw [hback, List.map_cons, List.pairwise_cons] at horder
  have hrest : rest.Sublist f.back := hback ▸ List.sublist_cons_self a rest
  have hrecv := h.recv_le
  have hnext := h.next_le
  have hwin := h.window
  have hagain : again = true → a.upTo = f.recv ∧ ∀ o ∈ f.out, o.Idle := fun hag =>
    h.final_alone a (by simp [hback]) (hfinal hag)
  refine { h with
    acked_le := ha.2
    recv_le := ?_
    next_le := ?_
    window := ?_
    item_bounds := ?_
    answer_bounds := fun a' ha' =>
      ⟨horder.1 a'.upTo (List.mem_map_of_mem ha'), (h.answer_bounds a' (hmem a' ha')).2⟩
    answer_order := horder.2
    final_alone := fun a' ha' => h.final_alone a' (hmem a' ha')
    final_once := h.final_once.sublist hrest }
  · cases again with
    | false => exact hrecv
    | true => simpa using (hagain rfl).1.ge
  · cases again with
    | false => exact hnext
    | true =>
        have := (hagain rfl).1
        show a.upTo ≤ f.size
        omega
  · cases again with
    | false =>
        show f.next ≤ a.upTo + w
        omega
    | true => simp
  · intro o ho k hk
    cases again with
    | false => exact h.item_bounds o ho k hk
    | true =>
        rw [((hagain rfl).2 o ho).1] at hk
        cases hk

end Steps

/-- Every step keeps the invariant. -/
theorem Step.inv (hstep : Step w f f') (h : Inv w f) : Inv w f' := by
  cases hstep with
  | give => exact { h with next_le := h.next_le.trans (Nat.le_succ _) }
  | item poll hunder hsize hwin => exact h.item poll hunder hsize hwin
  | send poll hunder => exact h.send poll hunder
  | answer final hunder => exact h.answer final hunder
  | lose out back hout hback => exact h.lose hout hback
  | arrive o rest recv hout hrecv hitem => exact h.arrive hout hrecv hitem
  | heard a rest again hback hfinal => exact h.heard again hback hfinal

/-- Any number of steps. -/
abbrev Steps (w : ℕ) : Flow → Flow → Prop := Relation.ReflTransGen (Step w)

theorem Steps.inv (hsteps : Steps w f f') (h : Inv w f) : Inv w f' := by
  induction hsteps with
  | refl => exact h
  | tail _ hstep ih => exact hstep.inv ih

end PolledWindow
