import Mathlib.Logic.Relation
import Mathlib.Data.List.Induction
import Mathlib.Order.WellFounded
import Mathlib.Algebra.Order.BigOperators.Group.List
import Mathlib.Algebra.Order.Ring.Nat

/-!
# Labelled runs and guarded invariants

A deterministic labelled transition system is a function `apply : σ → ε → σ`.  A *guarded*
run takes only steps whose pre-state and label satisfy a guard; the unguarded run is the one
whose guard is `fun _ _ => True`.  The two induction rules below are the only ones a client
needs: an invariant that one guarded step preserves holds in every state a guarded run
reaches, and a state relation that is reflexive, transitive and contains every step relates
the two ends of a run.
-/

namespace Runs

variable {σ ε : Type*}

/-- The states a run from `s` visits, with the labels it took: every step satisfies `ok` in
the state it starts from. -/
inductive GuardedRun (apply : σ → ε → σ) (ok : σ → ε → Prop) (s : σ) : List ε → σ → Prop
  | start : GuardedRun apply ok s [] s
  | step {es : List ε} {t : σ} (e : ε) :
      GuardedRun apply ok s es t → ok t e → GuardedRun apply ok s (es ++ [e]) (apply t e)

/-- A run with no condition on its steps. -/
abbrev Run (apply : σ → ε → σ) : σ → List ε → σ → Prop :=
  GuardedRun apply (fun _ _ => True)

variable {apply : σ → ε → σ} {ok ok' : σ → ε → Prop} {s t : σ} {es fs : List ε}

/-- The run lemma: what one guarded step preserves, a guarded run preserves. -/
theorem GuardedRun.invariant {I : σ → Prop}
    (hstep : ∀ t e, I t → ok t e → I (apply t e))
    (hrun : GuardedRun apply ok s es t) (hs : I s) : I t := by
  induction hrun with
  | start => exact hs
  | step e _ hok ih => exact hstep _ e ih hok

/-- Weakening the guard keeps the run. -/
theorem GuardedRun.mono (himp : ∀ t e, ok t e → ok' t e)
    (hrun : GuardedRun apply ok s es t) : GuardedRun apply ok' s es t := by
  induction hrun with
  | start => exact .start
  | step e _ hok ih => exact .step e ih (himp _ e hok)

/-- An invariant of the run may be used to establish the guard at every step. -/
theorem GuardedRun.strengthen {I : σ → Prop}
    (hstep : ∀ t e, I t → ok t e → I (apply t e))
    (hrun : GuardedRun apply ok s es t) (hs : I s) :
    GuardedRun apply (fun t e => ok t e ∧ I t) s es t := by
  induction hrun with
  | start => exact .start
  | step e hprev hok ih => exact .step e ih ⟨hok, hprev.invariant hstep hs⟩

/-- Two runs compose. -/
theorem GuardedRun.append {u : σ} (h₁ : GuardedRun apply ok s es t)
    (h₂ : GuardedRun apply ok t fs u) : GuardedRun apply ok s (es ++ fs) u := by
  induction h₂ with
  | start => simpa using h₁
  | step e _ hok ih => simpa [List.append_assoc] using ih.step e hok

/-- A run is determined by its labels. -/
theorem GuardedRun.eq_foldl (hrun : GuardedRun apply ok s es t) : t = es.foldl apply s := by
  induction hrun with
  | start => rfl
  | step e _ _ ih => simp [List.foldl_append, ih]

/-- The first step of a run. -/
theorem GuardedRun.first (hrun : GuardedRun apply ok s es t) :
    es = [] ∨ ∃ e fs, es = e :: fs ∧ ok s e ∧ GuardedRun apply ok (apply s e) fs t := by
  induction hrun with
  | start => exact .inl rfl
  | @step _ t' e hprev hok ih =>
      rcases ih with rfl | ⟨e', fs, rfl, hok', hrest⟩
      · obtain rfl : t' = s := hprev.eq_foldl
        exact .inr ⟨e, [], rfl, hok, .start⟩
      · exact .inr ⟨e', fs ++ [e], rfl, hok', hrest.step e hok⟩

/-- Where every step goes down a well-founded order and finitely many labels are possible at a time,
the runs from a state have a bound. -/
theorem GuardedRun.bounded {α : Type*} [LT α] [WellFoundedLT α] (measure : σ → α)
    (hdown : ∀ t e, ok t e → measure (apply t e) < measure t)
    (hfinite : ∀ t, ∃ labels : List ε, ∀ e, ok t e → e ∈ labels) (s : σ) :
    ∃ bound, ∀ es t, GuardedRun apply ok s es t → es.length ≤ bound := by
  induction s using WellFounded.induction (InvImage.wf measure wellFounded_lt) with
  | _ s ih =>
  obtain ⟨labels, hlabels⟩ := hfinite s
  -- a bound for each label, by the rule; the largest of them is one for the rest of the run
  have hrest : ∀ e, ∃ bound, ok s e →
      ∀ es t, GuardedRun apply ok (apply s e) es t → es.length ≤ bound := fun e => by
    by_cases hok : ok s e
    · obtain ⟨bound, hbound⟩ := ih (apply s e) (hdown s e hok)
      exact ⟨bound, fun _ => hbound⟩
    · exact ⟨0, fun h => absurd h hok⟩
  choose bound hbound using hrest
  refine ⟨(labels.map bound).sum + 1, fun es t hrun => ?_⟩
  rcases hrun.first with rfl | ⟨e, fs, rfl, hok, hrun⟩
  · exact Nat.zero_le _
  · have hle : bound e ≤ (labels.map bound).sum :=
      List.single_le_sum (fun _ _ => Nat.zero_le _) _ (List.mem_map_of_mem (hlabels e hok))
    have hlen := hbound e hok fs t hrun
    rw [List.length_cons]
    omega

/-- A run goes on to its end, or up to the first step that `stop` holds of. -/
theorem GuardedRun.until (stop : σ → ε → Prop) (hrun : GuardedRun apply ok s es t) :
    ∃ fs gs u, es = fs ++ gs ∧ GuardedRun apply (fun t e => ok t e ∧ ¬ stop t e) s fs u ∧
      GuardedRun apply ok u gs t ∧ (gs = [] ∨ ∃ e rest, gs = e :: rest ∧ stop u e) := by
  induction hrun with
  | start => exact ⟨[], [], s, rfl, .start, .start, .inl rfl⟩
  | @step _ t' e hprev hok ih =>
      obtain ⟨fs, gs, u, rfl, hfs, hgs, hend⟩ := ih
      rcases hend with rfl | ⟨e', rest, rfl, hstop⟩
      · obtain rfl : t' = u := hgs.eq_foldl
        by_cases hstop : stop t' e
        · exact ⟨fs, [e], t', by simp, hfs, .step e .start hok, .inr ⟨e, [], rfl, hstop⟩⟩
        · exact ⟨fs ++ [e], [], apply t' e, by simp, hfs.step e ⟨hok, hstop⟩, .start, .inl rfl⟩
      · exact ⟨fs, e' :: rest ++ [e], u, by simp, hfs, hgs.step e hok,
          .inr ⟨e', rest ++ [e], rfl, hstop⟩⟩

/-- Every list of labels is the label list of an unguarded run. -/
theorem Run.of_foldl (apply : σ → ε → σ) (s : σ) (es : List ε) :
    Run apply s es (es.foldl apply s) := by
  induction es using List.reverseRecOn with
  | nil => exact .start
  | append_singleton es e ih =>
      rw [List.foldl_append]
      exact ih.step e trivial

/-! ## What a run has visited -/

/-- Some state on the way from `s`, the two ends included, satisfies `P`. -/
def Visited (apply : σ → ε → σ) (P : σ → Prop) (s : σ) (es : List ε) : Prop :=
  ∃ fs, fs <+: es ∧ P (fs.foldl apply s)

theorem Visited.last {P : σ → Prop} (h : P (es.foldl apply s)) : Visited apply P s es :=
  ⟨es, List.prefix_rfl, h⟩

theorem Visited.extend {P : σ → Prop} (h : Visited apply P s es) :
    Visited apply P s (es ++ fs) :=
  let ⟨gs, hgs, hP⟩ := h
  ⟨gs, hgs.trans (List.prefix_append es fs), hP⟩

/-! ## Runs from lists -/

/-- Every step of the list meets the guard in the state it is taken in. -/
def Chain (apply : σ → ε → σ) (ok : σ → ε → Prop) : σ → List ε → Prop
  | _, [] => True
  | s, e :: es => ok s e ∧ Chain apply ok (apply s e) es

instance Chain.decidable [∀ s e, Decidable (ok s e)] :
    ∀ (s : σ) (es : List ε), Decidable (Chain apply ok s es)
  | _, [] => inferInstanceAs (Decidable True)
  | s, e :: es =>
    have := Chain.decidable (apply s e) es
    inferInstanceAs (Decidable (_ ∧ _))

theorem Chain.of_forall (h : ∀ t e, ok t e) : Chain apply ok s es := by
  induction es generalizing s with
  | nil => trivial
  | cons e es ih => exact ⟨h s e, ih⟩

/-- A list whose steps meet the guard in turn is a guarded run. -/
theorem GuardedRun.of_chain (h : Chain apply ok s es) :
    GuardedRun apply ok s es (es.foldl apply s) := by
  induction es generalizing s with
  | nil => exact .start
  | cons e es ih => simpa using (GuardedRun.start.step e h.1).append (ih h.2)

end Runs
