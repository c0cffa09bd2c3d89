import Mathlib.Data.List.Nodup
import Mathlib.Data.List.Basic
import Mathlib.Data.List.Lookmap

/-!
# Keyed tables

A list used as a table: rows carry their key, at most one row per key, new rows are appended.
`lookup` finds the first row of a key and `store` overwrites that row in place or appends one.
-/

namespace KeyedTable

variable {α κ : Type*} [DecidableEq κ] (key : α → κ)

/-- The first row whose key is `k`. -/
def lookup (rows : List α) (k : κ) : Option α :=
  rows.find? fun a => key a = k

/-- Overwrite the first row with the key of `a`, or append `a`. -/
def store (a : α) : List α → List α
  | [] => [a]
  | b :: rows => if key b = key a then a :: rows else b :: store a rows

/-- No two rows share a key. -/
def Distinct (rows : List α) : Prop :=
  (rows.map key).Nodup

variable {key} {rows : List α} {a b : α} {k : κ}

theorem lookup_key (h : lookup key rows k = some a) : key a = k := by
  simpa using List.find?_some h

theorem mem_of_lookup (h : lookup key rows k = some a) : a ∈ rows :=
  List.mem_of_find?_eq_some h

@[simp] theorem lookup_nil : lookup key ([] : List α) k = none := rfl

theorem lookup_of_mem (hd : Distinct key rows) (ha : a ∈ rows) :
    lookup key rows (key a) = some a := by
  induction rows with
  | nil => cases ha
  | cons b rows ih =>
      obtain ⟨hb, hrows⟩ := List.nodup_cons.mp (show (List.map key (_ :: rows)).Nodup from hd)
      rcases List.mem_cons.mp ha with rfl | ha
      · simp [lookup]
      · have hne : key b ≠ key a := fun h => hb (h ▸ List.mem_map_of_mem ha)
        simpa [lookup, hne] using ih hrows ha

theorem mem_store (h : b ∈ store key a rows) : b = a ∨ b ∈ rows := by
  induction rows with
  | nil => exact .inl (by simpa [store] using h)
  | cons c rows ih =>
      by_cases hc : key c = key a
      · rw [store, if_pos hc] at h
        rcases List.mem_cons.mp h with h | h
        · exact .inl h
        · exact .inr (List.mem_cons_of_mem _ h)
      · rw [store, if_neg hc] at h
        rcases List.mem_cons.mp h with rfl | h
        · exact .inr List.mem_cons_self
        · exact (ih h).imp id (List.mem_cons_of_mem _)

/-- A row of another key survives a store. -/
theorem mem_store_of_ne (hb : b ∈ rows) (hne : key b ≠ key a) : b ∈ store key a rows := by
  induction rows with
  | nil => cases hb
  | cons c rows ih =>
      by_cases hc : key c = key a
      · rw [store, if_pos hc]
        rcases List.mem_cons.mp hb with rfl | hb
        · exact absurd hc hne
        · exact List.mem_cons_of_mem _ hb
      · rw [store, if_neg hc]
        rcases List.mem_cons.mp hb with rfl | hb
        · exact List.mem_cons_self
        · exact List.mem_cons_of_mem _ (ih hb)

@[simp] theorem lookup_store_self : lookup key (store key a rows) (key a) = some a := by
  induction rows with
  | nil => simp [store, lookup]
  | cons c rows ih =>
      by_cases hc : key c = key a
      · simp [store, lookup, hc]
      · simpa [store, lookup, hc] using ih

/-- A store passes over the rows of other keys. -/
theorem store_append_of_ne {front : List α} (h : ∀ b ∈ front, key b ≠ key a) :
    store key a (front ++ rows) = front ++ store key a rows := by
  induction front with
  | nil => rfl
  | cons b front ih =>
      have hb := h b List.mem_cons_self
      rw [List.cons_append, store, if_neg hb, ih fun c hc => h c (List.mem_cons_of_mem b hc),
        List.cons_append]

/-- A second store of the same key replaces the first. -/
theorem store_store (hab : key a = key b) : store key b (store key a rows) = store key b rows := by
  induction rows with
  | nil => simp [store, hab]
  | cons c rows ih =>
      by_cases hc : key c = key b
      · simp [store, hab, hc]
      · simpa [store, hab, hc] using ih

theorem lookup_store_of_ne (hk : k ≠ key a) :
    lookup key (store key a rows) k = lookup key rows k := by
  induction rows with
  | nil => simp [store, lookup, hk.symm]
  | cons c rows ih =>
      by_cases hc : key c = key a
      · simp [store, lookup, hc, hk.symm]
      · by_cases hck : key c = k
        · rw [store, if_neg hc]
          simp [lookup, hck]
        · simpa [store, lookup, hc, hck] using ih

/-- What a stored row shares with the row it replaces, the table keeps. -/
theorem map_store_of_lookup {β : Type*} {f : α → β} (hb : lookup key rows (key a) = some b)
    (hf : f a = f b) : (store key a rows).map f = rows.map f := by
  induction rows with
  | nil => cases hb
  | cons c rows ih =>
      by_cases hc : key c = key a
      · obtain rfl : c = b := by simpa [lookup, hc] using hb
        simp [store, hc, hf]
      · have hb' : lookup key rows (key a) = some b := by simpa [lookup, hc] using hb
        simp [store, hc, ih hb']

theorem map_key_store :
    (store key a rows).map key = rows.map key ∨
      (store key a rows).map key = rows.map key ++ [key a] := by
  induction rows with
  | nil => exact .inr rfl
  | cons c rows ih =>
      by_cases hc : key c = key a
      · exact .inl (by simp [store, hc])
      · exact ih.imp (by simp +contextual [store, hc]) (by simp +contextual [store, hc])

theorem distinct_store (hd : Distinct key rows) : Distinct key (store key a rows) := by
  induction rows with
  | nil => simp [Distinct, store]
  | cons c rows ih =>
      obtain ⟨hc', hrows⟩ := List.nodup_cons.mp (show (List.map key (_ :: rows)).Nodup from hd)
      by_cases hc : key c = key a
      · rw [store, if_pos hc, Distinct, List.map_cons, ← hc, List.nodup_cons]
        exact ⟨hc', hrows⟩
      · rw [store, if_neg hc, Distinct, List.map_cons, List.nodup_cons]
        refine ⟨fun hmem => ?_, ih hrows⟩
        obtain ⟨b, hb, hbc⟩ := List.mem_map.mp hmem
        rcases mem_store hb with rfl | hb
        · exact hc hbc.symm
        · exact hc' (hbc ▸ List.mem_map_of_mem hb)

end KeyedTable
