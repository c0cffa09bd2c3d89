import Mathlib.Data.List.TakeWhile

/-!
# Lines and words

A text file holds lines, and a line holds words.  `pieces` is how a reader with a buffer cuts a text
into lines, and `words` how it takes words off a line, each at most so wide.  What is written with
`endLines` and `spaced` is read back whole (`pieces_endLines`, `words_spaced`) if no word has a
separator in it; whatever is read has none (`mem_words`).
-/

namespace Text

variable {α : Type*}

/-! ## Lines -/

section Lines

variable [DecidableEq α] (stop : α) (size : ℕ)

/-- The pieces of a text, when `acc` has been read of the first and there is room for `room`
more. -/
def piecesFrom : ℕ → List α → List α → List (List α)
  | _, acc, [] => if acc.isEmpty then [] else [acc]
  | room, acc, b :: rest =>
    if b = stop ∨ room ≤ 1 then (acc ++ [b]) :: piecesFrom size [] rest
    else piecesFrom (room - 1) (acc ++ [b]) rest

/-- A piece goes up to a `stop`, which stays with it, or to the `size` of the buffer. -/
def pieces (text : List α) : List (List α) := piecesFrom stop size size [] text

/-- Lines, each with its `stop`. -/
def endLines (ls : List (List α)) : List α := ls.flatMap fun l => l ++ [stop]

variable {stop size}

/-- A line that fits the buffer is one piece. -/
theorem piecesFrom_line {l : List α} (hl : stop ∉ l) (rest acc : List α) {room : ℕ}
    (hroom : l.length < room) :
    piecesFrom stop size room acc (l ++ stop :: rest) =
      (acc ++ l ++ [stop]) :: pieces stop size rest := by
  induction l generalizing acc room with
  | nil =>
      rw [List.nil_append, piecesFrom, if_pos (.inl rfl), List.append_nil]
      rfl
  | cons b l ih =>
      have hb : b ≠ stop := fun h => hl (h ▸ List.mem_cons_self)
      have hl' : stop ∉ l := fun h => hl (List.mem_cons_of_mem b h)
      rw [List.length_cons] at hroom
      rw [List.cons_append, piecesFrom, if_neg (by simp only [hb, false_or]; omega),
        ih hl' (acc ++ [b]) (by omega), List.append_assoc acc [b] l, List.singleton_append]

/-- Lines that fit are read back. -/
theorem pieces_endLines {ls : List (List α)} (h : ∀ l ∈ ls, stop ∉ l ∧ l.length < size) :
    pieces stop size (endLines stop ls) = ls.map fun l => l ++ [stop] := by
  induction ls with
  | nil => rfl
  | cons l ls ih =>
      obtain ⟨hl, hfits⟩ := h l List.mem_cons_self
      have hrest := ih fun l' hl' => h l' (List.mem_cons_of_mem l hl')
      have hcons : endLines stop (l :: ls) = l ++ stop :: endLines stop ls := by simp [endLines]
      rw [hcons, pieces, piecesFrom_line hl _ [] hfits, hrest, List.nil_append, List.map_cons]

end Lines

/-! ## Words -/

section Words

variable (blank stop : α → Bool) (width : ℕ)

/-- An element of a word. -/
def inWord (b : α) : Bool := !blank b && !stop b

/-- At most so many words of a line, up to a `stop`; an overlong one goes on as the next. -/
def words : ℕ → List α → List (List α)
  | 0, _ => []
  | turns + 1, line =>
    let line := line.dropWhile blank
    let word := (line.takeWhile (inWord blank stop)).take width
    if word.isEmpty then [] else word :: words turns (line.drop word.length)

/-- A word that can be written: it is not empty, fits, and has no separator in it. -/
structure IsWord (w : List α) : Prop where
  ne : w ≠ []
  fits : w.length ≤ width
  clean : ∀ b ∈ w, inWord blank stop b = true

/-- Words, each behind a separator. -/
def spaced (sep : α) (ws : List (List α)) : List α := ws.flatMap fun w => sep :: w

variable {blank stop width}

theorem spaced_cons (sep : α) (w : List α) (ws : List (List α)) :
    spaced sep (w :: ws) = sep :: w ++ spaced sep ws := by
  simp [spaced]

/-- No word starts with what is no part of one. -/
theorem takeWhile_spaced {sep : α} (hsep : blank sep = true) (ws : List (List α)) {tail : List α}
    (htail : ∀ b, tail.head? = some b → inWord blank stop b = false) :
    (spaced sep ws ++ tail).takeWhile (inWord blank stop) = [] := by
  cases ws with
  | nil =>
      cases tail with
      | nil => rfl
      | cons b tail =>
          rw [spaced, List.flatMap_nil, List.nil_append, List.takeWhile_cons_of_neg]
          simp [htail b rfl]
  | cons w ws =>
      rw [spaced_cons, List.cons_append, List.cons_append, List.takeWhile_cons_of_neg]
      simp [inWord, hsep]

/-- Words that can be written are read back. -/
theorem words_spaced {sep : α} (hsep : blank sep = true) {ws : List (List α)} {tail : List α}
    (hws : ∀ w ∈ ws, IsWord blank stop width w)
    (htail : ∀ b, tail.head? = some b → inWord blank stop b = false) :
    words blank stop width ws.length (spaced sep ws ++ tail) = ws := by
  induction ws with
  | nil => rfl
  | cons w ws ih =>
      have hw := hws w List.mem_cons_self
      obtain ⟨b, v, hb⟩ := List.exists_cons_of_ne_nil hw.ne
      have hhead : blank b = false := by
        have h := hw.clean b (hb ▸ List.mem_cons_self)
        simp only [inWord, Bool.and_eq_true, Bool.not_eq_true'] at h
        exact h.1
      have hdrop : (sep :: (w ++ (spaced sep ws ++ tail))).dropWhile blank =
          w ++ (spaced sep ws ++ tail) := by
        rw [List.dropWhile_cons_of_pos hsep, hb, List.cons_append, List.dropWhile_cons_of_neg]
        simp [hhead]
      have htake :
          ((w ++ (spaced sep ws ++ tail)).takeWhile (inWord blank stop)).take width = w := by
        rw [List.takeWhile_append_of_pos hw.clean, takeWhile_spaced hsep ws htail, List.append_nil]
        exact List.take_of_length_le hw.fits
      rw [spaced_cons, List.cons_append, List.cons_append, List.append_assoc,
        List.length_cons, words]
      rw [hdrop, htake, if_neg (by simp [hb]), List.drop_left,
        ih fun w' h => hws w' (List.mem_cons_of_mem w h)]

/-- Whatever is read can be written, and stands in the line. -/
theorem mem_words {turns : ℕ} {line w : List α} (h : w ∈ words blank stop width turns line) :
    IsWord blank stop width w ∧ ∀ b ∈ w, b ∈ line := by
  induction turns generalizing line with
  | zero => exact absurd h List.not_mem_nil
  | succ turns ih =>
      rw [words] at h
      split_ifs at h with hempty
      · exact absurd h List.not_mem_nil
      rcases List.mem_cons.mp h with rfl | h
      · refine ⟨⟨?_, ?_, ?_⟩, ?_⟩
        · intro hnil
          rw [hnil] at hempty
          exact hempty rfl
        · exact List.length_take_le _ _
        · intro b hb
          exact List.mem_takeWhile_imp (List.mem_of_mem_take hb)
        · intro b hb
          have hkept := (List.takeWhile_prefix _).subset (List.mem_of_mem_take hb)
          exact (List.dropWhile_suffix _).subset hkept
      · obtain ⟨hword, hmem⟩ := ih h
        refine ⟨hword, ?_⟩
        intro b hb
        exact (List.dropWhile_suffix _).subset (List.mem_of_mem_drop (hmem b hb))

end Words

end Text
