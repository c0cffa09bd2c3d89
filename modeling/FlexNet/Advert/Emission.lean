import FlexNet.Advert.Entries
import FlexNet.Wire.RoundTrip

/-!
# Emission

A frame takes queued entries in table order and commits each of them.  `Packed` says what one frame
did to the table: every entry is as it was, or was queued and is committed.  A record always fits an
empty frame, so no queued entry of a sound table is ever dropped as unencodable.
-/

namespace FlexNet

namespace AdvertisedState

variable {st st' st'' : AdvertisedState} {now : ℤ} {a : AdvRoute} {k : Key}

theorem mem_of_pick (h : st.pick = some a) : a ∈ st.advs := List.mem_of_find?_eq_some h

theorem pending_of_pick (h : st.pick = some a) : a.pending = true := by
  simpa using List.find?_some h

theorem pick_eq_none (h : st.pick = none) : ∀ a ∈ st.advs, a.pending = false := by
  simpa [pick] using h

/-! ## One frame -/

/-- The table after the entries `picks` were put in a frame. -/
structure Packed (now : ℤ) (picks : List AdvRoute) (st st' : AdvertisedState) : Prop where
  picked : ∀ a ∈ picks, a ∈ st.advs ∧ a.pending = true
  distinct : (picks.map AdvRoute.key).Nodup
  find : ∀ k, st'.find k = (st.find k).map fun a => if a ∈ picks then a.commit now else a
  sound : st'.Sound
  rest : st' = { st with advs := st'.advs }

theorem Packed.refl (h : st.Sound) : Packed now [] st st where
  picked := fun _ ha => absurd ha List.not_mem_nil
  distinct := List.nodup_nil
  find := fun k => by simp
  sound := h
  rest := rfl

/-- Taking one more entry first. -/
theorem Packed.cons {picks : List AdvRoute} (hs : st.Sound) (ha : a ∈ st.advs)
    (hq : a.pending = true) (h : Packed now picks (st.put (a.commit now)) st') :
    Packed now (a :: picks) st st' := by
  have hfind : st.find a.key = some a := hs.find_of_mem ha
  have hput : (st.put (a.commit now)).find a.key = some (a.commit now) :=
    find_put_self (a := a.commit now)
  -- no later pick has the key of `a`: its entry is committed and queued no more
  have hkey : ∀ b ∈ picks, b.key ≠ a.key := by
    intro b hb hk
    obtain ⟨hmem, hpend⟩ := h.picked b hb
    have hput' : (st.put (a.commit now)).Sound := hs.put ((hs.entries a ha).commit hq)
    have hb' := hput'.find_of_mem hmem
    rw [hk, hput] at hb'
    cases hb'
    cases hpend
  refine ⟨?_, ?_, fun k => ?_, h.sound, h.rest⟩
  · intro b hb
    rcases List.mem_cons.mp hb with rfl | hb
    · exact ⟨ha, hq⟩
    · obtain ⟨hmem, hpend⟩ := h.picked b hb
      refine ⟨?_, hpend⟩
      rcases KeyedTable.mem_store hmem with rfl | hmem
      · cases hpend
      · exact hmem
  · rw [List.map_cons, List.nodup_cons]
    refine ⟨fun hmem => ?_, h.distinct⟩
    obtain ⟨b, hb, hk⟩ := List.mem_map.mp hmem
    exact hkey b hb hk
  · rw [h.find k]
    by_cases hk : k = a.key
    · subst hk
      have hnot : a.commit now ∉ picks := fun hmem => hkey _ hmem rfl
      simp [hput, hfind, hnot]
    · rw [find_put_of_ne (a := a.commit now) hk]
      cases hb : st.find k with
      | none => rfl
      | some b =>
          have hne : b ≠ a := fun hba => hk (by rw [← find_key hb, hba])
          simp [hne]

end AdvertisedState

open AdvertisedState

/-- The records of some queued entries. -/
def pickRecords (picks : List AdvRoute) : List (Key × ℤ) :=
  picks.map fun a => (a.key, a.pendingRtt)

theorem recordsOctets_pick {a : AdvRoute} {picks : List AdvRoute} :
    recordsOctets (pickRecords (a :: picks)) =
      recordOctets a.key a.pendingRtt ++ recordsOctets (pickRecords picks) := rfl

/-- What the packing loop did: it took some entries, in this order, and a loop that could take
one and took none found nothing queued. -/
theorem packRecords_packed (now : ℤ) (max : ℕ) {st : AdvertisedState} (hs : st.Sound)
    (body : CStr) (inFrame : ℕ) (hroom : inFrame = 0 → body.length < 100) :
    ∃ picks, picks.length ≤ max ∧
      Packed now picks st (packRecords now max body inFrame st).2.2 ∧
      (packRecords now max body inFrame st).1 = body ++ recordsOctets (pickRecords picks) ∧
      (packRecords now max body inFrame st).2.1 = inFrame + picks.length ∧
      (inFrame = 0 → 0 < max → picks = [] → st.pick = none) := by
  induction max generalizing body inFrame st with
  | zero =>
      exact ⟨[], le_rfl, .refl hs, by simp [packRecords, pickRecords, recordsOctets], rfl, by simp⟩
  | succ max ih =>
      unfold packRecords
      cases hpick : st.pick with
      | none => exact ⟨[], by simp, .refl hs, by simp [pickRecords, recordsOctets], rfl, by simp⟩
      | some a =>
          have ha := mem_of_pick hpick
          have hq := pending_of_pick hpick
          have hcost := (hs.entries a ha).queued hq
          have hlen := length_recordOctets_le (k := a.key) hcost.1 hcost.2
          dsimp only
          by_cases hfit : advertFrameBytes - body.length - 1 ≤
            (recordOctets a.key a.pendingRtt).length
          · have hfull : inFrame ≠ 0 := fun h0 => by
              have := hroom h0
              unfold advertFrameBytes at hfit
              omega
            rw [flexBuildRouteRec, if_pos hfit]
            refine ⟨[], by simp, ?_, by simp [pickRecords, recordsOctets], rfl,
              fun h => absurd h hfull⟩
            simpa [hfull] using Packed.refl hs
          · rw [flexBuildRouteRec, if_neg hfit]
            obtain ⟨picks, hmax, hpacked, hbody, hcount, -⟩ := ih
              (hs.put ((hs.entries a ha).commit hq)) (body ++ recordOctets a.key a.pendingRtt)
              (inFrame + 1) (by simp)
            refine ⟨a :: picks, by simpa using hmax, hpacked.cons hs ha hq, ?_, ?_, by simp⟩
            · rw [hbody, recordsOctets_pick, List.append_assoc]
            · rw [hcount]
              simp only [List.length_cons]
              omega

namespace Env

variable {e : Env} {p : Slot} {isPcf : Bool} {x y : Peer}

theorem advertRecs_pos (isPcf : Bool) : 0 < advertRecs isPcf := by cases isPcf <;> decide

/-- One turn of the frame loop: nothing was queued and nothing happened, or a frame of queued
entries was handed to `flexSendFrame`. -/
theorem emitFrame_cases (e : Env) (p : Slot) (isPcf : Bool) (hs : x.adv.Sound) :
    ((∀ a ∈ x.adv.advs, a.pending = false) ∧ e.emitFrame p isPcf x = (x, false)) ∨
      ∃ picks st, picks ≠ [] ∧ picks.length ≤ 20 ∧ Packed e.now picks x.adv st ∧
        e.emitFrame p isPcf x =
          (e.flexSendFrame p pidCE (recordsFrame (pickRecords picks))
            { x with adv := { st with tokens := st.tokens - 1 } }, true) := by
  obtain ⟨picks, hmax, hpacked, hbody, hcount, hnone⟩ :=
    packRecords_packed e.now (advertRecs isPcf) hs [0x33] 0 (by simp)
  have h20 : picks.length ≤ 20 := hmax.trans (by cases isPcf <;> decide)
  unfold emitFrame
  rcases hp : packRecords e.now (advertRecs isPcf) [0x33] 0 x.adv with ⟨body, inFrame, st⟩
  rw [hp] at hpacked hbody hcount
  dsimp only at hpacked hbody hcount ⊢
  rw [Nat.zero_add] at hcount
  by_cases hnil : picks = []
  · have hpick := hnone rfl (advertRecs_pos isPcf) hnil
    have hst : st = x.adv := by
      have : packRecords e.now (advertRecs isPcf) [0x33] 0 x.adv = ([0x33], 0, x.adv) := by
        obtain ⟨m, hm⟩ := Nat.exists_eq_succ_of_ne_zero (advertRecs_pos isPcf).ne'
        rw [hm, packRecords, hpick]
      rw [this] at hp
      cases hp
      rfl
    subst hnil hst
    exact .inl ⟨pick_eq_none hpick, by simp [hcount]⟩
  · refine .inr ⟨picks, st, hnil, h20, hpacked, ?_⟩
    have hpos : inFrame ≠ 0 := by
      rw [hcount]
      simpa using hnil
    rw [if_neg hpos, hbody, recordsFrame]

end Env

end FlexNet
