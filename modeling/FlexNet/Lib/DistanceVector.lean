import Mathlib.Combinatorics.SimpleGraph.Metric

/-!
# Costs told along links

In a distance-vector protocol a station tells its neighbours what a destination costs it: a
positive cost for what it owns, and for anything else at least one more than a cost it heard, up to
a cap.  `Fair` is what the topology says about a cost, and `Tellable` what one station may tell
given what it heard.  `Tellable.fair` is the step that makes an induction over any exchange of such
costs go through: no cost is ever below the number of links to a station that owns the destination.
-/

namespace DistanceVector

variable {ι κ : Type*}

/-- A cost at station `i` is fair: some station that can be reached owns the destination, and the
cost counts the links to it, and one for the destination itself, up to `cap`. -/
def Fair (G : SimpleGraph ι) (owns : ι → κ → Prop) (cap : ℤ) (i : ι) (k : κ) (c : ℤ) : Prop :=
  ∃ j, owns j k ∧ G.Reachable i j ∧ min ((G.dist i j : ℤ) + 1) cap ≤ c

/-- A cost is fair at a neighbour of station `i`. -/
def Heard (G : SimpleGraph ι) (owns : ι → κ → Prop) (cap : ℤ) (i : ι) (k : κ) (c : ℤ) : Prop :=
  ∃ j, G.Adj i j ∧ Fair G owns cap j k c

/-- What a station may tell: what it owns, or what it heard with one link on top. -/
def Tellable (owns : κ → Prop) (heard : κ → ℤ → Prop) (cap : ℤ) (k : κ) (c : ℤ) : Prop :=
  (owns k ∧ 1 ≤ c) ∨ ∃ d, heard k d ∧ min (d + 1) cap ≤ c

variable {G : SimpleGraph ι} {owns : ι → κ → Prop} {cap : ℤ} {i j : ι} {k : κ} {c d : ℤ}

/-- The owner's own cost. -/
theorem Fair.own (h : owns i k) (hc : 1 ≤ c) : Fair G owns cap i k c := by
  refine ⟨i, h, .refl i, ?_⟩
  rw [SimpleGraph.dist_self]
  exact (min_le_left _ _).trans (by simpa using hc)

/-- A link takes a path one further. -/
theorem dist_le_of_adj (hadj : G.Adj i j) {o : ι} (hreach : G.Reachable j o) :
    G.dist i o ≤ G.dist j o + 1 := by
  obtain ⟨w, hw⟩ := hreach.exists_walk_length_eq_dist
  have hle := SimpleGraph.dist_le (.cons hadj w)
  rwa [SimpleGraph.Walk.length_cons, hw] at hle

/-- One more link costs one more. -/
theorem Fair.link (hadj : G.Adj i j) (h : Fair G owns cap j k d) (hc : min (d + 1) cap ≤ c) :
    Fair G owns cap i k c := by
  obtain ⟨o, hown, hreach, hd⟩ := h
  have hdist := dist_le_of_adj hadj hreach
  exact ⟨o, hown, hadj.reachable.trans hreach, by omega⟩

/-- A cost that is heard counts the links to the owner. -/
theorem Heard.far (h : Heard G owns cap i k c) :
    ∃ j, owns j k ∧ G.Reachable i j ∧ min (G.dist i j : ℤ) cap ≤ c := by
  obtain ⟨j, hadj, o, hown, hreach, hc⟩ := h
  have hdist := dist_le_of_adj hadj hreach
  exact ⟨o, hown, hadj.reachable.trans hreach, by omega⟩

/-- A station that heard fair costs tells fair costs. -/
theorem Tellable.fair (h : Tellable (owns i) (Heard G owns cap i) cap k c) :
    Fair G owns cap i k c := by
  rcases h with ⟨hown, hc⟩ | ⟨d, ⟨j, hadj, hfair⟩, hc⟩
  · exact .own hown hc
  · exact hfair.link hadj hc

section

variable {owns : κ → Prop} {heard : κ → ℤ → Prop}

/-- A cost above the cap may be told as the cap. -/
theorem Tellable.clamp (h : Tellable owns heard cap k c) (hcap : 1 ≤ cap) :
    Tellable owns heard cap k (min c cap) := by
  rcases h with ⟨hown, hc⟩ | ⟨d, hd, hc⟩
  · exact .inl ⟨hown, le_min hc hcap⟩
  · exact .inr ⟨d, hd, le_min hc (min_le_right _ _)⟩

end

end DistanceVector
