import Mathlib.Data.List.TakeWhile

/-!
# A text in sections

A line that opens starts a section, which runs to the first line that closes; the lines outside of
sections belong to none, and the last section may lack its end.  A `Reader` goes through the lines
one at a time and knows only whether it is inside; `Reader.foldl_sections` says that it ends where
it would if it were handed the sections.
-/

namespace Sections

variable {α σ : Type*} {opens closes : α → Bool}

/-- The lines between the one that opens a section and the one that closes it. -/
structure Sect (α : Type*) where
  body : List α
  closed : Bool

/-- The sections of a text. -/
def sections (opens closes : α → Bool) : List α → List (Sect α)
  | [] => []
  | x :: xs =>
    if opens x then
      match _h : xs.dropWhile (!closes ·) with
      | [] => [⟨xs, false⟩]
      | _ :: rest => ⟨xs.takeWhile (!closes ·), true⟩ :: sections opens closes rest
    else sections opens closes xs
termination_by xs => xs.length
decreasing_by
  · have hle := (List.dropWhile_suffix (l := xs) (!closes ·)).length_le
    rw [_h] at hle
    simp only [List.length_cons] at hle ⊢
    omega
  · simp

@[simp] theorem sections_nil : sections opens closes [] = [] := by
  rw [sections]

theorem sections_outside {x : α} (xs : List α) (h : opens x = false) :
    sections opens closes (x :: xs) = sections opens closes xs := by
  rw [sections, if_neg (by simp [h])]

/-- A section up to its end. -/
theorem sections_closed {x y : α} {body rest : List α} (h : opens x = true)
    (hbody : ∀ z ∈ body, closes z = false) (hy : closes y = true) :
    sections opens closes (x :: (body ++ y :: rest)) =
      ⟨body, true⟩ :: sections opens closes rest := by
  have hdrop : (body ++ y :: rest).dropWhile (!closes ·) = y :: rest := by
    rw [List.dropWhile_append_of_pos fun z hz => by simp [hbody z hz],
      List.dropWhile_cons_of_neg (by simp [hy])]
  have htake : (body ++ y :: rest).takeWhile (!closes ·) = body := by
    rw [List.takeWhile_append_of_pos fun z hz => by simp [hbody z hz],
      List.takeWhile_cons_of_neg (by simp [hy]), List.append_nil]
  rw [sections, if_pos h, htake]
  split
  · rename_i hnil
    rw [hdrop] at hnil
    cases hnil
  · rename_i hcons
    rw [hdrop] at hcons
    cases hcons
    rfl

/-- A section without an end. -/
theorem sections_cutOff {x : α} {body : List α} (h : opens x = true)
    (hbody : ∀ z ∈ body, closes z = false) :
    sections opens closes (x :: body) = [⟨body, false⟩] := by
  have hdrop : body.dropWhile (!closes ·) = [] :=
    List.dropWhile_eq_nil_iff.mpr fun z hz => by simp [hbody z hz]
  rw [sections, if_pos h]
  split
  · rfl
  · rename_i hcons
    rw [hdrop] at hcons
    cases hcons

/-- Every text can be read off its sections, from the front. -/
theorem sections_induction {P : List α → Prop} (opens closes : α → Bool) (hnil : P [])
    (houtside : ∀ x xs, opens x = false → P xs → P (x :: xs))
    (hclosed : ∀ x body y rest, opens x = true → (∀ z ∈ body, closes z = false) →
      closes y = true → P rest → P (x :: (body ++ y :: rest)))
    (hcutOff : ∀ x body, opens x = true → (∀ z ∈ body, closes z = false) → P (x :: body))
    (xs : List α) : P xs := by
  induction hlen : xs.length using Nat.strongRecOn generalizing xs with
  | _ len ih =>
      subst hlen
      cases xs with
      | nil => exact hnil
      | cons x xs =>
          cases hopen : opens x with
          | false => exact houtside x xs hopen (ih _ (by simp) xs rfl)
          | true =>
              have hsplit := List.takeWhile_append_dropWhile (p := (!closes ·)) (l := xs)
              have hbody : ∀ z ∈ xs.takeWhile (!closes ·), closes z = false := fun z hz => by
                simpa using List.mem_takeWhile_imp hz
              cases hdrop : xs.dropWhile (!closes ·) with
              | nil =>
                  rw [hdrop, List.append_nil] at hsplit
                  rw [hsplit] at hbody
                  exact hcutOff x xs hopen hbody
              | cons y rest =>
                  have hy : closes y = true := by
                    have hhead := List.head?_dropWhile_not (!closes ·) xs
                    rw [hdrop] at hhead
                    simpa using hhead
                  rw [hdrop] at hsplit
                  have hlt : rest.length < (x :: xs).length := by
                    rw [← hsplit]
                    simp only [List.length_cons, List.length_append]
                    omega
                  have hrest := hclosed x _ y rest hopen hbody hy (ih _ hlt rest rfl)
                  rwa [hsplit] at hrest

/-- No section holds a line that closes. -/
theorem not_closes_of_mem {xs : List α} {x : Sect α} (h : x ∈ sections opens closes xs) :
    ∀ z ∈ x.body, closes z = false := by
  induction xs using sections_induction opens closes with
  | hnil =>
      rw [sections_nil] at h
      cases h
  | houtside y xs hy ih =>
      rw [sections_outside xs hy] at h
      exact ih h
  | hclosed y body y' rest hy hbody hy' ih =>
      rw [sections_closed hy hbody hy'] at h
      rcases List.mem_cons.mp h with rfl | h
      · exact hbody
      · exact ih h
  | hcutOff y body hy hbody =>
      rw [sections_cutOff hy hbody] at h
      obtain rfl := List.mem_singleton.mp h
      exact hbody

/-! ## Readers -/

/-- A reader of single lines, which does nothing but skip the lines outside of sections. -/
structure Reader (opens closes : α → Bool) (step : σ → α → σ) where
  outside : σ → Prop
  inside : σ → Prop
  enter : σ → σ
  leave : σ → σ
  skips : ∀ {s x}, outside s → opens x = false → step s x = s
  enters : ∀ {s x}, outside s → opens x = true → step s x = enter s ∧ inside (enter s)
  stays : ∀ {s x}, inside s → closes x = false → inside (step s x)
  leaves : ∀ {s x}, inside s → closes x = true → step s x = leave s ∧ outside (leave s)

namespace Reader

variable {step : σ → α → σ} (r : Reader opens closes step) {s : σ}

/-- What the reader makes of a section that it is handed. -/
def sect (s : σ) (x : Sect α) : σ :=
  let inner := x.body.foldl step (r.enter s)
  if x.closed then r.leave inner else inner

theorem inside_foldl {body : List α} (hs : r.inside s) (hbody : ∀ z ∈ body, closes z = false) :
    r.inside (body.foldl step s) := by
  induction body generalizing s with
  | nil => exact hs
  | cons z body ih =>
      obtain ⟨hz, hbody⟩ := List.forall_mem_cons.mp hbody
      exact ih (r.stays hs hz) hbody

/-- Line by line, or section by section. -/
theorem foldl_sections (hs : r.outside s) (xs : List α) :
    xs.foldl step s = (sections opens closes xs).foldl r.sect s := by
  induction xs using sections_induction opens closes generalizing s with
  | hnil => rw [sections_nil]; rfl
  | houtside x xs hx ih =>
      rw [List.foldl_cons, r.skips hs hx, sections_outside xs hx]
      exact ih hs
  | hclosed x body y rest hx hbody hy ih =>
      obtain ⟨henter, hin⟩ := r.enters hs hx
      obtain ⟨hleave, hout⟩ := r.leaves (r.inside_foldl hin hbody) hy
      rw [sections_closed hx hbody hy, List.foldl_cons, List.foldl_append, List.foldl_cons, henter,
        hleave, ih hout]
      rfl
  | hcutOff x body hx hbody =>
      rw [sections_cutOff hx hbody, List.foldl_cons, (r.enters hs hx).1]
      rfl

end Reader

end Sections
