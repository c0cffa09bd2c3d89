import FlexNet.Routing.Effects

/-!
# Options that change

`flex_link_opts_changed` shifts what the destination table holds via a session, and does not choose
again.  `Node.opts_changes_iff`: a sequence of changes leaves the table as if the options had been
the last ones all along exactly when no cost was too close to infinity to be shifted back, and no
other offer has become the cheaper one.
-/

namespace FlexNet

/-! ## A cost and its shifts -/

/-- What `flex_link_opts_changed` makes of a cost when `'+'` comes or goes. -/
def shiftCost (before after : LinkOpts) (rtt : ℤ) : ℤ :=
  let shift :=
    (if after.penalty then linkPenalty else 0) - (if before.penalty then linkPenalty else 0)
  if shift = 0 then rtt else min (max (rtt + shift) 1) (rttInfinity - 1)

/-- The options after a sequence of changes. -/
def lastOpts (o : LinkOpts) (os : List LinkOpts) : LinkOpts := os.getLastD o

theorem lastOpts_append (o : LinkOpts) (os : List LinkOpts) (o' : LinkOpts) :
    lastOpts o (os ++ [o']) = o' := by
  rw [lastOpts, List.getLastD_eq_getLast?, List.getLast?_concat, Option.getD_some]

/-- The cost that a sequence of changes leaves of a reported cost. -/
def costAfter (o : LinkOpts) (os : List LinkOpts) (c : ℤ) : ℤ :=
  if (lastOpts o os).penalty then flexLinkOptsCost (lastOpts o os) c
  else if (o :: os).any LinkOpts.penalty then min c (rttInfinity - 1 - linkPenalty)
  else c

variable {o o' : LinkOpts} {os : List LinkOpts} {c rtt : ℤ}

theorem costAfter_nil : costAfter o [] c = flexLinkOptsCost o c := by
  unfold costAfter lastOpts flexLinkOptsCost
  cases h : o.penalty <;> simp [h]

theorem costAfter_bounds (h₀ : 0 < c) (h₁ : c < rttInfinity) :
    0 < costAfter o os c ∧ costAfter o os c < rttInfinity := by
  unfold costAfter
  have hcost := flexLinkOptsCost_bounds (lastOpts o os) h₀ h₁
  unfold rttInfinity linkPenalty at *
  split_ifs <;> omega

/-- One more change. -/
theorem costAfter_step (h₀ : 0 < c) (h₁ : c < rttInfinity) :
    shiftCost (lastOpts o os) o' (costAfter o os c) = costAfter o (os ++ [o']) c := by
  have hany : (o :: (os ++ [o'])).any LinkOpts.penalty =
      ((o :: os).any LinkOpts.penalty || o'.penalty) := by
    rw [← List.cons_append, List.any_append]
    simp
  have hlast : (lastOpts o os).penalty = true → (o :: os).any LinkOpts.penalty = true := by
    intro h
    rw [List.any_eq_true]
    refine ⟨lastOpts o os, ?_, h⟩
    unfold lastOpts
    rw [List.getLastD_eq_getLast?]
    cases hl : os.getLast? with
    | none => simp
    | some o'' => exact List.mem_cons_of_mem _ (List.mem_of_getLast? hl)
  unfold costAfter
  rw [lastOpts_append, hany]
  unfold shiftCost flexLinkOptsCost rttInfinity linkPenalty at *
  cases hp : (lastOpts o os).penalty with
  | true =>
      rw [hlast hp]
      cases hq : o'.penalty <;> simp
      split_ifs <;> omega
  | false =>
      cases hq : o'.penalty <;> cases ha : (o :: os).any LinkOpts.penalty <;> simp <;>
        split_ifs <;> omega

/-- The cost is the one of the last options, unless it was cut off by a penalty that is gone. -/
theorem costAfter_eq_iff : costAfter o os c = flexLinkOptsCost (lastOpts o os) c ↔
      (lastOpts o os).penalty = true ∨ (o :: os).any LinkOpts.penalty = false ∨
        c ≤ rttInfinity - 1 - linkPenalty := by
  unfold costAfter flexLinkOptsCost
  cases hp : (lastOpts o os).penalty <;> cases ha : (o :: os).any LinkOpts.penalty <;> simp

namespace Node

variable {n : Node} {i s : Slot} {d : DestEntry} {j : ℕ}

/-! ## The table after a sequence of changes -/

/-- A sequence of option changes of a session's link. -/
def flexLinkOptsChanges (n : Node) (i : Slot) (os : List LinkOpts) : Node :=
  os.foldl (fun n o => n.flexLinkOptsChanged i o) n

/-- A change writes the options and the rows; the rest is what the other peers are told. -/
theorem onlyPeers_flexLinkOptsChanged (n : Node) (s : Slot) (o : LinkOpts) :
    (n.setLinkOpts s o).OnlyPeers (n.flexLinkOptsChanged s o) := by
  unfold flexLinkOptsChanged
  extract_lets old n₁ shift n₂ n₃
  have h₂ : n.setLinkOpts s o = n₂ := rfl
  rw [h₂]
  have h₃ : n₂.OnlyPeers n₃ := onlyPeers_triggerPeersAll n₂ s _
  split
  · exact .refl n₂
  split
  · exact h₃
  · exact h₃.trans ((onlyPeers_walk n₃ s false false).trans (onlyPeers_setPeer _ s _))

/-- A row after a change. -/
def shiftRow (n : Node) (s : Slot) (o : LinkOpts) (d : DestEntry) : DestEntry :=
  if d.viaSession = some s ∧ d.isInfinity = false ∧ 0 < d.rtt ∧ d.rtt < rttInfinity then
    { d with rtt := shiftCost (n.linkOpts s) o d.rtt }
  else d

theorem flexLinkOptsChanged_spec (n : Node) (s : Slot) (o : LinkOpts) :
    (n.flexLinkOptsChanged s o).toEnv =
        { n.toEnv with linkOpts := Function.update n.linkOpts s o } ∧
      (n.flexLinkOptsChanged s o).dests = n.dests.map (n.shiftRow s o) := by
  have honly := n.onlyPeers_flexLinkOptsChanged s o
  have hdests : (n.flexLinkOptsChanged s o).dests = (n.setLinkOpts s o).dests := by rw [honly]
  rw [honly.toEnv, hdests]
  unfold setLinkOpts
  extract_lets shift m
  by_cases hzero : shift = 0
  · have hsame : ∀ d, n.shiftRow s o d = d := by
      intro d
      unfold shiftRow shiftCost
      dsimp only
      rw [if_pos hzero]
      split <;> rfl
    rw [if_pos hzero, List.map_congr_left fun d _ => hsame d, List.map_id']
    exact ⟨rfl, rfl⟩
  · rw [if_neg hzero]
    refine ⟨rfl, List.map_congr_left fun d _ => ?_⟩
    unfold shiftDest shiftRow shiftCost
    dsimp only
    rw [if_neg hzero]

/-- A finite row through a session, which has the cost that its station reported. -/
structure Bears (n : Node) (i : Slot) (c : ℤ) (d : DestEntry) : Prop where
  via : d.viaSession = some i
  finite : d.isInfinity = false
  reported : 0 < c ∧ c < rttInfinity
  cost : d.rtt = flexLinkOptsCost (n.linkOpts i) c

/-- The tables and the rows after a sequence of changes. -/
theorem changes_spec (n : Node) (i : Slot) (os : List LinkOpts) :
    (n.flexLinkOptsChanges i os).toEnv = { n.toEnv with
      linkOpts := Function.update n.linkOpts i (lastOpts (n.linkOpts i) os) } ∧
    (∀ (j : ℕ) (d : DestEntry), n.dests[j]? = some d → d.viaSession ≠ some i →
      (n.flexLinkOptsChanges i os).dests[j]? = some d) ∧
    ∀ (j : ℕ) (d : DestEntry) (c : ℤ), n.dests[j]? = some d → n.Bears i c d →
      (n.flexLinkOptsChanges i os).dests[j]? =
        some { d with rtt := costAfter (n.linkOpts i) os c } := by
  induction os using List.reverseRecOn with
  | nil =>
      refine ⟨?_, fun j d hd _ => hd, fun j d c hd hbears => ?_⟩
      · have hsame : Function.update n.linkOpts i (n.linkOpts i) = n.linkOpts :=
          Function.update_eq_self i _
        change n.toEnv = { n.toEnv with linkOpts := Function.update n.linkOpts i (n.linkOpts i) }
        rw [hsame]
      · rw [costAfter_nil, ← hbears.cost]
        exact hd
  | append_singleton os o ih =>
      obtain ⟨henv, hother, hrow⟩ := ih
      have hstep : n.flexLinkOptsChanges i (os ++ [o]) =
          (n.flexLinkOptsChanges i os).flexLinkOptsChanged i o := by
        unfold flexLinkOptsChanges
        rw [List.foldl_append]
        rfl
      obtain ⟨henv', hdests'⟩ := (n.flexLinkOptsChanges i os).flexLinkOptsChanged_spec i o
      have hopts : (n.flexLinkOptsChanges i os).linkOpts i = lastOpts (n.linkOpts i) os := by
        rw [henv]
        exact Function.update_self ..
      rw [hstep, lastOpts_append]
      refine ⟨?_, fun j d hd hvia => ?_, fun j d c hd hbears => ?_⟩
      · rw [henv', henv]
        dsimp only
        rw [Function.update_idem]
      · rw [hdests', List.getElem?_map, hother j d hd hvia, Option.map_some, shiftRow,
          if_neg fun h => hvia h.1]
      · obtain ⟨h₀, h₁⟩ := hbears.reported
        have hbounds := @costAfter_bounds (n.linkOpts i) os c h₀ h₁
        rw [hdests', List.getElem?_map, hrow j d c hd hbears, Option.map_some, shiftRow,
          if_pos ⟨hbears.via, hbears.finite, hbounds⟩, hopts]
        dsimp only
        rw [costAfter_step h₀ h₁]

/-- A finite row through a session that offers it: at the cost the session's station reported, under
the options of the link, and no session offers it more cheaply from here. -/
structure Elected (e : Env) (d : DestEntry) (s : Slot) : Prop where
  via : d.viaSession = some s
  finite : d.isInfinity = false
  offer : ∃ h, e.hopOffer d.key s = some h ∧ d.rtt = h.eff ∧
    ∀ s' h', e.hopOffer d.key s' = some h' → h.here ≤ h'.here

/-- The rows are as if the options had been the last ones all along: a row through the session has
the cost its station reported under the last options, and a row that went the cheapest way does. -/
structure AllAlong (n : Node) (i : Slot) (os : List LinkOpts) : Prop where
  costs : ∀ (j : ℕ) (d : DestEntry) (c : ℤ), n.dests[j]? = some d → n.Bears i c d →
    ∃ d', (n.flexLinkOptsChanges i os).dests[j]? = some d' ∧ d'.key = d.key ∧
      (n.flexLinkOptsChanges i os).Bears i c d'
  cheapest : ∀ (j : ℕ) (d : DestEntry) (s : Slot), n.dests[j]? = some d → Elected n.toEnv d s →
    ∃ d', (n.flexLinkOptsChanges i os).dests[j]? = some d' ∧ d'.key = d.key ∧
      Elected (n.flexLinkOptsChanges i os).toEnv d' s

/-- No cost is cut off by a penalty that goes again, and with the last options no other way is the
cheaper one. -/
structure Harmless (n : Node) (i : Slot) (os : List LinkOpts) : Prop where
  low : (lastOpts (n.linkOpts i) os).penalty = true ∨
    (n.linkOpts i :: os).any LinkOpts.penalty = false ∨
    ∀ d ∈ n.dests, ∀ c, n.Bears i c d → c ≤ rttInfinity - 1 - linkPenalty
  come : (n.linkOpts i).penalty = false → (lastOpts (n.linkOpts i) os).penalty = true →
    ∀ d ∈ n.dests, Elected n.toEnv d i → ∀ s h, s ≠ i → n.hopOffer d.key s = some h →
      n.flexDestCostHere (flexLinkOptsCost (lastOpts (n.linkOpts i) os) d.rtt) (some i) ≤ h.here
  gone : (n.linkOpts i).penalty = true → (lastOpts (n.linkOpts i) os).penalty = false →
    ∀ d ∈ n.dests, ∀ s, s ≠ i → Elected n.toEnv d s → ∀ lr, (n.sessions i).active = true →
      (n.learned i).find d.key = some lr → 0 < lr.rttAtNeighbour → lr.rttAtNeighbour < rttInfinity →
        n.flexDestCostHere d.rtt (some s) ≤ n.flexDestCostHere lr.rttAtNeighbour (some i)

/-! ## The offers under other options -/

/-- The tables with other options of one link. -/
def withOpts (e : Env) (i : Slot) (o : LinkOpts) : Env :=
  { e with linkOpts := Function.update e.linkOpts i o }

theorem hopOffer_withOpts_ne {e : Env} {o : LinkOpts} {k : Key} (hs : s ≠ i) :
    (withOpts e i o).hopOffer k s = e.hopOffer k s := by
  unfold Env.hopOffer withOpts
  dsimp only
  rw [Function.update_of_ne hs]
  rfl

/-- What the session itself offers. -/
theorem hopOffer_withOpts_self {e : Env} {o : LinkOpts} {k : Key} {h : Env.Hop} :
    (withOpts e i o).hopOffer k i = some h ↔ (e.sessions i).active = true ∧
      ∃ lr, (e.learned i).find k = some lr ∧ 0 < lr.rttAtNeighbour ∧
        lr.rttAtNeighbour < rttInfinity ∧ h = ⟨some i, flexLinkOptsCost o lr.rttAtNeighbour,
          e.flexDestCostHere (flexLinkOptsCost o lr.rttAtNeighbour) (some i)⟩ := by
  rw [Env.hopOffer_eq_some]
  unfold withOpts
  dsimp only
  rw [Function.update_self]
  exact Iff.rfl

theorem costHere_mono {e : Env} {via : Option Slot} {a b : ℤ} (h : a ≤ b) :
    e.flexDestCostHere a via ≤ e.flexDestCostHere b via := by
  unfold Env.flexDestCostHere
  cases via with
  | none =>
      dsimp only
      split_ifs <;> omega
  | some s =>
      dsimp only
      split_ifs <;> omega

/-- A row that goes the cheapest way bears the cost its station reported. -/
theorem Elected.bears (h : Elected n.toEnv d i) : ∃ lr, (n.learned i).find d.key = some lr ∧
    n.Bears i lr.rttAtNeighbour d ∧ (n.sessions i).active = true := by
  obtain ⟨hop, hoffer, hcost, -⟩ := h.offer
  obtain ⟨hup, lr, hfind, h₀, h₁, rfl⟩ := Env.hopOffer_eq_some.mp hoffer
  exact ⟨lr, hfind, ⟨h.via, h.finite, ⟨h₀, h₁⟩, hcost⟩, hup⟩

theorem changes_withOpts (n : Node) (i : Slot) (os : List LinkOpts) :
    (n.flexLinkOptsChanges i os).toEnv = withOpts n.toEnv i (lastOpts (n.linkOpts i) os) :=
  (n.changes_spec i os).1

theorem changes_linkOpts (n : Node) (i : Slot) (os : List LinkOpts) :
    (n.flexLinkOptsChanges i os).linkOpts i = lastOpts (n.linkOpts i) os := by
  rw [changes_withOpts]
  exact Function.update_self ..

theorem cost_of_plain {o : LinkOpts} {c : ℤ} (h : o.penalty = false) :
    flexLinkOptsCost o c = c := by
  unfold flexLinkOptsCost
  rw [h]
  rfl

/-- A penalty that does not come makes nothing dearer. -/
theorem cost_le_of {o o' : LinkOpts} {c : ℤ} (h₀ : 0 < c) (h₁ : c < rttInfinity)
    (h : o.penalty = false → o'.penalty = false) :
    flexLinkOptsCost o' c ≤ flexLinkOptsCost o c := by
  cases hp : o.penalty with
  | false =>
      rw [cost_of_plain hp, cost_of_plain (h hp)]
  | true =>
      cases hp' : o'.penalty with
      | false =>
          rw [cost_of_plain hp']
          exact (flexLinkOptsCost_bounds o h₀ h₁).1
      | true =>
          unfold flexLinkOptsCost
          rw [hp, hp']

variable {os : List LinkOpts}

theorem AllAlong.harmless (h : n.AllAlong i os) : n.Harmless i os := by
  obtain ⟨-, hother, hrow⟩ := n.changes_spec i os
  have henv := n.changes_withOpts i os
  constructor
  · by_cases hlast : (lastOpts (n.linkOpts i) os).penalty = true
    · exact .inl hlast
    by_cases hany : (n.linkOpts i :: os).any LinkOpts.penalty = false
    · exact .inr (.inl hany)
    refine .inr (.inr fun d hd c hbears => ?_)
    obtain ⟨j, hj⟩ := List.getElem?_of_mem hd
    obtain ⟨d', hd', -, hbears'⟩ := h.costs j d c hj hbears
    have hcost := hbears'.cost
    rw [hrow j d c hj hbears] at hd'
    obtain rfl := Option.some.inj hd'
    rw [changes_linkOpts] at hcost
    exact ((costAfter_eq_iff.mp hcost).resolve_left hlast).resolve_left hany
  · intro hold hlast d hd helected s hop hs hoffer
    obtain ⟨j, hj⟩ := List.getElem?_of_mem hd
    obtain ⟨d', hd', hkey, helected'⟩ := h.cheapest j d i hj helected
    obtain ⟨lr, hfind, hbears, -⟩ := helected.bears
    have hrtt : d.rtt = lr.rttAtNeighbour := hbears.cost.trans (cost_of_plain hold)
    rw [henv] at helected'
    obtain ⟨own, hown, -, hmin⟩ := helected'.offer
    obtain ⟨-, lr', hfind', -, -, rfl⟩ := hopOffer_withOpts_self.mp hown
    rw [hkey] at hfind'
    obtain rfl := Option.some.inj (hfind.symm.trans hfind')
    have hle := hmin s hop (by rwa [hopOffer_withOpts_ne hs, hkey])
    rw [hrtt]
    exact hle
  · intro hold hlast d hd s hs helected lr hup hfind h₀ h₁
    obtain ⟨j, hj⟩ := List.getElem?_of_mem hd
    obtain ⟨d', hd', -, helected'⟩ := h.cheapest j d s hj helected
    have hvia : d.viaSession ≠ some i := by
      rw [helected.via]
      exact fun heq => hs (Option.some.inj heq)
    rw [hother j d hj hvia] at hd'
    obtain rfl := Option.some.inj hd'
    rw [henv] at helected'
    obtain ⟨hop, hoffer, hcost, hmin⟩ := helected'.offer
    rw [hopOffer_withOpts_ne hs] at hoffer
    obtain ⟨-, -, -, -, hhere⟩ := Env.hopOffer_bounds hoffer
    have hle := hmin i _ (hopOffer_withOpts_self.mpr ⟨hup, lr, hfind, h₀, h₁, rfl⟩)
    dsimp only at hle
    rw [cost_of_plain hlast] at hle
    rw [hcost, ← hhere]
    exact hle

theorem Harmless.allAlong (h : n.Harmless i os) : n.AllAlong i os := by
  obtain ⟨-, hother, hrow⟩ := n.changes_spec i os
  have henv := n.changes_withOpts i os
  have hcost : ∀ d ∈ n.dests, ∀ c, n.Bears i c d →
      costAfter (n.linkOpts i) os c = flexLinkOptsCost (lastOpts (n.linkOpts i) os) c := by
    intro d hd c hbears
    refine costAfter_eq_iff.mpr ?_
    rcases h.low with hlast | hnone | hlow
    · exact .inl hlast
    · exact .inr (.inl hnone)
    · exact .inr (.inr (hlow d hd c hbears))
  constructor
  · intro j d c hd hbears
    refine ⟨_, hrow j d c hd hbears, rfl, ⟨hbears.via, hbears.finite, hbears.reported, ?_⟩⟩
    rw [changes_linkOpts]
    exact hcost d (List.mem_of_getElem? hd) c hbears
  · intro j d s hd helected
    have hmem := List.mem_of_getElem? hd
    obtain ⟨hop, hoffer, hrtt, hmin⟩ := helected.offer
    obtain ⟨-, -, -, -, hhere⟩ := Env.hopOffer_bounds hoffer
    rw [henv]
    by_cases hs : s = i
    · -- the row goes through the session itself
      subst hs
      obtain ⟨lr, hfind, hbears, hup⟩ := helected.bears
      obtain ⟨h₀, h₁⟩ := hbears.reported
      refine ⟨_, hrow j d _ hd hbears, rfl, helected.via, helected.finite,
        ⟨some s, flexLinkOptsCost (lastOpts (n.linkOpts s) os) lr.rttAtNeighbour,
          n.flexDestCostHere (flexLinkOptsCost (lastOpts (n.linkOpts s) os) lr.rttAtNeighbour)
            (some s)⟩,
        hopOffer_withOpts_self.mpr ⟨hup, lr, hfind, h₀, h₁, rfl⟩, hcost d hmem _ hbears, ?_⟩
      intro s' h' hoffer'
      dsimp only at hoffer' ⊢
      by_cases hs' : s' = s
      · subst hs'
        obtain ⟨-, lr', hfind', -, -, rfl⟩ := hopOffer_withOpts_self.mp hoffer'
        obtain rfl := Option.some.inj (hfind.symm.trans hfind')
        exact le_rfl
      rw [hopOffer_withOpts_ne hs'] at hoffer'
      by_cases hcome : (n.linkOpts s).penalty = false ∧ (lastOpts (n.linkOpts s) os).penalty = true
      · have hle := h.come hcome.1 hcome.2 d hmem helected s' h' hs' hoffer'
        rwa [hbears.cost.trans (cost_of_plain hcome.1)] at hle
      · have hle : flexLinkOptsCost (lastOpts (n.linkOpts s) os) lr.rttAtNeighbour ≤ d.rtt := by
          rw [hbears.cost]
          refine cost_le_of h₀ h₁ fun hold => ?_
          by_contra hlast
          exact hcome ⟨hold, by simpa using hlast⟩
        refine (costHere_mono hle).trans ?_
        rw [hrtt, ← hhere]
        exact hmin s' h' hoffer'
    · -- it goes elsewhere
      have hvia : d.viaSession ≠ some i := by
        rw [helected.via]
        exact fun heq => hs (Option.some.inj heq)
      refine ⟨d, hother j d hd hvia, rfl, helected.via, helected.finite, hop, ?_, hrtt, ?_⟩
      · rwa [hopOffer_withOpts_ne hs]
      intro s' h' hoffer'
      by_cases hs' : s' = i
      · subst hs'
        obtain ⟨hup, lr, hfind, h₀, h₁, rfl⟩ := hopOffer_withOpts_self.mp hoffer'
        dsimp only
        by_cases hgone : (n.linkOpts s').penalty = true ∧
            (lastOpts (n.linkOpts s') os).penalty = false
        · rw [cost_of_plain hgone.2, hhere, ← hrtt]
          exact h.gone hgone.1 hgone.2 d hmem s hs helected lr hup hfind h₀ h₁
        · refine (hmin s' _ (Env.hopOffer_eq_some.mpr ⟨hup, lr, hfind, h₀, h₁, rfl⟩)).trans ?_
          refine costHere_mono (cost_le_of h₀ h₁ fun hlast => ?_)
          by_contra hold
          exact hgone ⟨by simpa using hold, hlast⟩
      · rw [hopOffer_withOpts_ne hs'] at hoffer'
        exact hmin s' h' hoffer'

/-- A sequence of option changes leaves the table as if the last options had been there all along,
if and only if it is harmless. -/
theorem opts_changes_iff (n : Node) (i : Slot) (os : List LinkOpts) :
    n.AllAlong i os ↔ n.Harmless i os :=
  ⟨AllAlong.harmless, Harmless.allAlong⟩

end Node

namespace Bench

/-- A link with `'+'`. -/
def plus : LinkOpts := { penalty := true }

/-- `A` reports `K` at 58500. -/
def nearInfinity : Node := (node false).after [.processCE 0
  [0x33, 0x4B, 0x20, 0x20, 0x20, 0x20, 0x20, 0x30, 0x30, 0x35, 0x38, 0x35, 0x30, 0x30, 0x20, 0x0D]]

/-- `A` and `B` report `K`. -/
def twoWays : Node := (node false).after [record 0 0x4B 10, record 1 0x4B 20]

set_option maxRecDepth 10000 in
/-- A cost that was cut off does not come back, and with `'+'` the row stays on the dearer way. -/
theorem opts_changed_lasts :
    ¬ (nearInfinity.AllAlong slotA [plus, {}] ∨ twoWays.AllAlong slotA [plus]) := by
  rintro (hall | hall)
  · have hrow : nearInfinity.dests[1]?.map (fun d => (d.viaSession, d.isInfinity, d.rtt)) =
        some (some slotA, false, 58500) := by decide +kernel
    obtain ⟨d, hd, hfields⟩ := Option.map_eq_some_iff.mp hrow
    obtain ⟨hvia, hfinite, hrtt⟩ :
        d.viaSession = some slotA ∧ d.isInfinity = false ∧ d.rtt = 58500 := by
      simpa using hfields
    have hplain : nearInfinity.linkOpts slotA = {} := by decide +kernel
    have hbears : nearInfinity.Bears slotA 58500 d :=
      ⟨hvia, hfinite, by decide, by rw [hplain, hrtt]; rfl⟩
    rcases hall.harmless.low with hlast | hnone | hlow
    · exact absurd hlast (by decide)
    · exact absurd hnone (by decide)
    · exact absurd (hlow d (List.mem_of_getElem? hd) 58500 hbears) (by decide)
  · have hrow : twoWays.dests[1]?.map
        (fun d => (d.viaSession, d.isInfinity, d.rtt, d.key)) =
        some (some slotA, false, 10, dest 0x4B) := by decide +kernel
    obtain ⟨d, hd, hfields⟩ := Option.map_eq_some_iff.mp hrow
    obtain ⟨hvia, hfinite, hrtt, hkey⟩ : d.viaSession = some slotA ∧ d.isInfinity = false ∧
        d.rtt = 10 ∧ d.key = dest 0x4B := by simpa using hfields
    have hoffers : (twoWays.hopOffer (dest 0x4B) slotA).map Env.Hop.eff = some 10 ∧
        ∀ s', ((twoWays.hopOffer (dest 0x4B) s').map fun h' =>
          decide (((twoWays.hopOffer (dest 0x4B) slotA).map Env.Hop.here).getD 0 ≤ h'.here)).getD
            true = true := by decide +kernel
    have hother : (twoWays.hopOffer (dest 0x4B) slotB).map (fun h' =>
        decide (twoWays.flexDestCostHere (flexLinkOptsCost plus 10) (some slotA) ≤ h'.here)) =
          some false := by decide +kernel
    obtain ⟨heff, hmin⟩ := hoffers
    obtain ⟨own, hown, hcost⟩ := Option.map_eq_some_iff.mp heff
    obtain ⟨hop, hhop, hdear⟩ := Option.map_eq_some_iff.mp hother
    have helected : Node.Elected twoWays.toEnv d slotA := by
      refine ⟨hvia, hfinite, own, by rw [hkey]; exact hown, by rw [hrtt, hcost], ?_⟩
      intro s' h' hoffer
      have hle := hmin s'
      rw [hkey] at hoffer
      rw [hoffer, hown] at hle
      simpa using hle
    have hplain : (twoWays.linkOpts slotA).penalty = false := by decide +kernel
    have hle := hall.harmless.come hplain (by decide) d (List.mem_of_getElem? hd) helected slotB hop
      (by decide) (by rw [hkey]; exact hhop)
    rw [hrtt] at hle
    rw [decide_eq_false_iff_not] at hdear
    exact hdear hle

end Bench

end FlexNet
