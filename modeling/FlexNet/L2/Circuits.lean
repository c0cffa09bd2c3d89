import FlexNet.L2.Transit

/-!
# What one frame does to the circuit table

A search drops expired circuits (`L2Table.Swept`) and finds the circuit of a pair and a port, or
that there is none, or makes one (`flexL2Find_cases`).  From it, what a frame can do to a slot: it
keeps the circuit and its pins, or there is a new circuit without pins (`L2Circuit.Stays`), or the
frame was extended on the circuit (`L2Circuit.Extended`).  `L2Node.flexNetL2Transit_fate` says which
of them a frame does, and what becomes of the frame.
-/

namespace FlexNet

namespace L2Circuit

variable {now : ℤ} {e e' e'' : L2Circuit} {user dest hop : AxCall} {port : ℕ}

/-! ## Slots -/

/-- A search went past a circuit. -/
def Swept (now : ℤ) (e e' : L2Circuit) : Prop :=
  e' = e ∨ (e.state now = .expired ∧ e'.active = false)

theorem Swept.refl (now : ℤ) (e : L2Circuit) : Swept now e e := .inl rfl

theorem Swept.trans (h : Swept now e e') (h' : Swept now e' e'') : Swept now e e'' := by
  rcases h with rfl | ⟨hexpired, hdead⟩
  · exact h'
  · rcases h' with rfl | ⟨-, hdead'⟩
    · exact .inr ⟨hexpired, hdead⟩
    · exact .inr ⟨hexpired, hdead'⟩

/-- A circuit that is still active was not touched. -/
theorem Swept.eq (h : Swept now e e') (hactive : e'.active = true) : e' = e := by
  rcases h with rfl | ⟨-, hdead⟩
  · rfl
  · rw [hdead] at hactive
    cases hactive

/-- The circuit goes on: it is not dropped, and no other takes its slot. -/
structure Keeps (now : ℤ) (e e' : L2Circuit) : Prop where
  before : e.active = true
  after : e'.active = true
  user : e'.user = e.user
  dest : e'.dest = e.dest
  port : e'.port = e.port
  seen : e' = e ∨ (e.state now ≠ .expired ∧ e'.state now ≠ .expired)

/-- Another circuit has taken the slot. -/
structure New (now : ℤ) (e e' : L2Circuit) : Prop where
  live : e'.state now ≠ .expired
  freed : e.active = false ∨ e.state now = .expired ∨
    ¬ (e'.user = e.user ∧ e'.dest = e.dest ∧ e'.port = e.port)

theorem New.not_keeps (h : New now e e') : ¬ Keeps now e e' := by
  intro hkeeps
  rcases h.freed with hdead | hexpired | hother
  · rw [hkeeps.before] at hdead
    cases hdead
  · rcases hkeeps.seen with rfl | ⟨hlive, -⟩
    · exact h.live hexpired
    · exact hlive hexpired
  · exact hother ⟨hkeeps.user, hkeeps.dest, hkeeps.port⟩

theorem Keeps.refl (h : e.active = true) : Keeps now e e := ⟨h, h, rfl, rfl, rfl, .inl rfl⟩

/-- A slot that no frame was extended on. -/
def Stays (now : ℤ) (e e' : L2Circuit) : Prop :=
  e'.active = true →
    (Keeps now e e' ∧ e'.appended = e.appended ∧ e'.prevAppended = e.prevAppended) ∨
      (New now e e' ∧ e'.appended = .zero ∧ e'.prevAppended = .zero)

theorem Swept.stays (h : Swept now e e') : Stays now e e' := by
  intro hactive
  obtain rfl := h.eq hactive
  exact .inl ⟨.refl hactive, rfl, rfl⟩

theorem New.swept_left (h : Swept now e e') (hnew : New now e' e'') : New now e e'' := by
  rcases h with rfl | ⟨hexpired, -⟩
  · exact hnew
  · exact ⟨hnew.live, .inr (.inl hexpired)⟩

theorem Stays.swept_left (h : Swept now e e') (hstays : Stays now e' e'') : Stays now e e'' := by
  intro hactive
  rcases hstays hactive with ⟨hkeeps, hpin, hprev⟩ | ⟨hnew, hpins⟩
  · obtain rfl := h.eq hkeeps.before
    exact .inl ⟨hkeeps, hpin, hprev⟩
  · exact .inr ⟨hnew.swept_left h, hpins⟩

theorem Stays.swept_right (hstays : Stays now e e') (h : Swept now e' e'') : Stays now e e'' := by
  intro hactive
  obtain rfl := h.eq hactive
  exact hstays hactive

/-- A frame was extended on the circuit: the hop is its pin, and a pin it replaced is remembered. -/
structure Extended (now : ℤ) (user dest : AxCall) (port : ℕ) (hop : AxCall) (e e' : L2Circuit) :
    Prop where
  active : e'.active = true
  live : e'.state now ≠ .expired
  user : e'.user.same user = true
  dest : e'.dest.same dest = true
  port : e'.port = port
  named : hop.isEmpty = false
  pin : e'.appended = hop
  prev : (Keeps now e e' ∧ e'.prevAppended =
      if e.appended.isEmpty || e.appended.same hop then e.prevAppended else e.appended) ∨
    (New now e e' ∧ e'.prevAppended = .zero)

theorem Extended.swept_left (h : Swept now e e') (hext : Extended now user dest port hop e' e'') :
    Extended now user dest port hop e e'' := by
  refine { hext with prev := ?_ }
  rcases hext.prev with ⟨hkeeps, hprev⟩ | ⟨hnew, hprev⟩
  · obtain rfl := h.eq hkeeps.before
    exact .inl ⟨hkeeps, hprev⟩
  · exact .inr ⟨hnew.swept_left h, hprev⟩

theorem Extended.swept_right (hext : Extended now user dest port hop e e') (h : Swept now e' e'') :
    Extended now user dest port hop e e'' := by
  rcases h with rfl | ⟨hexpired, -⟩
  · exact hext
  · exact absurd hexpired hext.live

/-! ### The use of a circuit -/

/-- The circuit after a frame was carried on it. -/
def used (e : L2Circuit) (kind : L2Kind) (now : ℤ) : L2Circuit :=
  ({ e with lastUsed := now }).noteCtl kind now

theorem used_eq (e : L2Circuit) (kind : L2Kind) (now : ℤ) : ∃ closing closedAt,
    e.used kind now = { e with closing := closing, closedAt := closedAt, lastUsed := now } ∧
      (closedAt = e.closedAt ∨ closedAt = 0 ∨ closedAt = now) := by
  unfold used noteCtl
  cases kind with
  | other => exact ⟨_, _, rfl, .inl rfl⟩
  | sabm => exact ⟨_, _, rfl, .inr (.inl rfl)⟩
  | disc => exact ⟨_, _, rfl, .inl rfl⟩
  | ua =>
      dsimp only
      split
      · exact ⟨_, _, rfl, .inr (.inr rfl)⟩
      · exact ⟨_, _, rfl, .inl rfl⟩
  | dm =>
      dsimp only
      split
      · exact ⟨_, _, rfl, .inr (.inr rfl)⟩
      · exact ⟨_, _, rfl, .inl rfl⟩

/-- The use of a circuit leaves its key and its pins. -/
theorem used_key (e : L2Circuit) (kind : L2Kind) (now : ℤ) :
    (e.used kind now).user = e.user ∧ (e.used kind now).dest = e.dest ∧
      (e.used kind now).prevAppended = e.prevAppended := by
  obtain ⟨closing, closedAt, heq, -⟩ := used_eq e kind now
  rw [heq]
  exact ⟨rfl, rfl, rfl⟩

theorem state_expired_iff {now : ℤ} : e.state now = .expired ↔
    (e.closedAt ≠ 0 ∧ l2Linger < now - e.closedAt) ∨ l2Idle < now - e.lastUsed := by
  unfold state flexL2SlotState
  split_ifs with h₁ h₂ h₃
  · simp [h₁]
  · simp [h₂]
  · simp [h₁, h₂]
  · simp [h₁, h₂]

/-- A circuit that is used does not expire by it. -/
theorem state_used {kind : L2Kind} (h : e.state now ≠ .expired) :
    (e.used kind now).state now ≠ .expired := by
  rw [Ne, state_expired_iff] at h ⊢
  obtain ⟨closing, closedAt, heq, hclosed⟩ := used_eq e kind now
  rw [heq]
  unfold l2Linger l2Idle at *
  dsimp only
  rcases hclosed with rfl | rfl | rfl <;> omega

theorem state_fresh (now : ℤ) (user dest : AxCall) (port : ℕ) :
    (L2Circuit.fresh now user dest port).state now ≠ .expired := by
  rw [Ne, state_expired_iff]
  simp [fresh, l2Idle]

theorem Swept.ofPair (h : Swept now e e') (hpair : e'.ofPair user dest port = true) :
    e.ofPair user dest port = true := by
  have hactive : e'.active = true := by
    simp only [L2Circuit.ofPair, Bool.and_eq_true] at hpair
    exact hpair.1.1.1
  rwa [h.eq hactive] at hpair

end L2Circuit

open L2Circuit

/-! ## Searches -/

/-- A search went through the table. -/
def L2Table.Swept (now : ℤ) (t t' : L2Table) : Prop := ∀ i, L2Circuit.Swept now (t i) (t' i)

theorem L2Table.Swept.refl (now : ℤ) (t : L2Table) : t.Swept now t := fun i => .refl now (t i)

theorem L2Table.Swept.trans {now : ℤ} {t t' t'' : L2Table} (h : t.Swept now t')
    (h' : t'.Swept now t'') : t.Swept now t'' := fun i => (h i).trans (h' i)

section Searches

variable {now : ℤ} {user dest : AxCall} {port : ℕ}

namespace L2Scan

theorem pass_circuits (a : L2Scan) (st : L2SlotState) (i : L2Slot) :
    (a.pass st i).circuits = a.circuits := by
  unfold pass reclaim
  dsimp only
  split
  · rfl
  split
  · rfl
  split
  · split <;> rfl
  · split <;> rfl

/-- What the search has come by has not expired any more. -/
theorem sweep_spec (a : L2Scan) (now : ℤ) (i : L2Slot) :
    a.circuits.Swept now (a.sweep now i).circuits ∧
      (((a.sweep now i).circuits i).active = true →
        ((a.sweep now i).circuits i).state now ≠ .expired) := by
  unfold sweep
  dsimp only
  split
  · rename_i hexpired
    rw [Bool.and_eq_true, beq_iff_eq] at hexpired
    refine ⟨fun j => ?_, fun hactive => ?_⟩
    · by_cases hj : j = i
      · subst hj
        exact .inr ⟨hexpired.2, by simp⟩
      · exact .inl (by simp [hj])
    · simp at hactive
  · rename_i hexpired
    refine ⟨.refl now _, fun hactive hstate => hexpired ?_⟩
    rw [hactive, hstate]
    rfl

end L2Scan

/-- The loop of the search. -/
theorem flexL2FindLoop_spec (l : List L2Slot) (a : L2Scan) :
    a.circuits.Swept now (flexL2FindLoop now user dest port l a).1.circuits ∧
      (∀ i, (flexL2FindLoop now user dest port l a).2 = some i →
        ((flexL2FindLoop now user dest port l a).1.circuits i).ofPair user dest port = true ∧
          ((flexL2FindLoop now user dest port l a).1.circuits i).state now ≠ .expired) ∧
      ((flexL2FindLoop now user dest port l a).2 = none → ∀ i ∈ l,
        ((flexL2FindLoop now user dest port l a).1.circuits i).ofPair user dest port = false) := by
  induction l generalizing a with
  | nil =>
      refine ⟨.refl now _, ?_, ?_⟩
      · intro i h
        cases h
      · intro _ i h
        cases h
  | cons i rest ih =>
      obtain ⟨hswept, hlive⟩ := a.sweep_spec now i
      unfold flexL2FindLoop
      dsimp only
      split
      · rename_i hpair
        refine ⟨hswept, fun j hj => ?_, fun hnone => by cases hnone⟩
        obtain rfl : i = j := Option.some.inj hj
        refine ⟨hpair, hlive ?_⟩
        simp only [L2Circuit.ofPair, Bool.and_eq_true] at hpair
        exact hpair.1.1.1
      · rename_i hpair
        obtain ⟨hrest, hfound, hnone⟩ := ih ((a.sweep now i).pass ((a.circuits i).state now) i)
        rw [L2Scan.pass_circuits] at hrest
        refine ⟨hswept.trans hrest, hfound, fun h j hj => ?_⟩
        rcases List.mem_cons.mp hj with rfl | hj
        · rw [Bool.eq_false_iff]
          exact fun hyes => hpair ((hrest j).ofPair hyes)
        · exact hnone h j hj

/-- The search finds the circuit, finds that there is none, or makes one. -/
theorem flexL2Find_cases (t : L2Table) (create : Bool) :
    (∃ i, (flexL2Find t now user dest port create).2 = some i ∧
      t.Swept now (flexL2Find t now user dest port create).1 ∧
      (t i).ofPair user dest port = true ∧ (t i).state now ≠ .expired ∧
      (flexL2Find t now user dest port create).1 i = t i) ∨
    ((flexL2Find t now user dest port create).2 = none ∧
      t.Swept now (flexL2Find t now user dest port create).1 ∧
      ∀ i, ((flexL2Find t now user dest port create).1 i).ofPair user dest port = false) ∨
    (create = true ∧ ∃ i t', (flexL2Find t now user dest port create).2 = some i ∧ t.Swept now t' ∧
      (∀ j, (t' j).ofPair user dest port = false) ∧
      (flexL2Find t now user dest port create).1 =
        Function.update t' i (.fresh now user dest port)) := by
  obtain ⟨hswept, hfound, hnone⟩ :=
    @flexL2FindLoop_spec now user dest port l2Slots
      { circuits := t }
  unfold flexL2Find
  cases hloop : flexL2FindLoop now user dest port l2Slots { circuits := t } with
  | mk a found =>
      rw [hloop] at hswept hfound hnone
      cases found with
      | some i =>
          obtain ⟨hpair, hlive⟩ := hfound i rfl
          have hactive : (a.circuits i).active = true := by
            simp only [L2Circuit.ofPair, Bool.and_eq_true] at hpair
            exact hpair.1.1.1
          have hsame : a.circuits i = t i := (hswept i).eq hactive
          rw [hsame] at hpair hlive
          exact .inl ⟨i, rfl, hswept, hpair, hlive, hsame⟩
      | none =>
          have hall : ∀ j, (a.circuits j).ofPair user dest port = false := fun j =>
            hnone rfl j (List.mem_finRange j)
          dsimp only
          split
          · exact .inr (.inl ⟨rfl, hswept, hall⟩)
          · rename_i hcreate
            split
            · exact .inr (.inl ⟨rfl, hswept, hall⟩)
            · rename_i i _
              exact .inr (.inr ⟨by simpa using hcreate, i, a.circuits, rfl, hswept, hall, rfl⟩)

end Searches

/-! ## One frame -/

namespace L2Circuit

variable {now : ℤ} {e : L2Circuit} {user dest hop : AxCall} {port : ℕ} {kind : L2Kind}

theorem same_self (a : AxCall) : a.same a = true := by simp [AxCall.same]

theorem ofPair_iff : e.ofPair user dest port = true ↔ e.active = true ∧ e.port = port ∧
    e.user.same user = true ∧ e.dest.same dest = true := by
  simp [ofPair, and_assoc]

/-- A circuit that was used, with its out port written or not. -/
theorem stays_used (hactive : e.active = true) (hlive : e.state now ≠ .expired) (outPort : ℕ) :
    Stays now e (({ e with outPort := outPort }).used kind now) := by
  have hused := @state_used _ { e with outPort := outPort } kind hlive
  obtain ⟨closing, closedAt, heq, -⟩ := used_eq { e with outPort := outPort } kind now
  rw [heq] at hused ⊢
  exact fun _ => .inl ⟨⟨hactive, hactive, rfl, rfl, rfl, .inr ⟨hlive, hused⟩⟩, rfl, rfl⟩

/-- A circuit in a slot where there was none of the pair. -/
theorem new_of_none {e' : L2Circuit} (hnone : e.ofPair user dest port = false)
    (hlive : e'.state now ≠ .expired) (huser : e'.user = user) (hdest : e'.dest = dest)
    (hport : e'.port = port) : New now e e' := by
  refine ⟨hlive, ?_⟩
  by_cases hactive : e.active = true
  · refine .inr (.inr ?_)
    rintro ⟨hu, hd, hp⟩
    rw [← Bool.not_eq_true, ofPair_iff] at hnone
    refine hnone ⟨hactive, hp ▸ hport, ?_, ?_⟩
    · rw [← hu, huser]
      exact same_self user
    · rw [← hd, hdest]
      exact same_self dest
  · exact .inl (by simpa using hactive)

end L2Circuit

namespace L2Node

variable {n : L2Node} {port our : ℕ} {f : L2Frame} {kind : L2Kind}

theorem l2Find_spec (n : L2Node) (user dest : AxCall) (port : ℕ) (create : Bool) :
    (n.l2Find user dest port create).1 =
        { n with circuits := (flexL2Find n.circuits n.now user dest port create).1 } ∧
      (n.l2Find user dest port create).2 = (flexL2Find n.circuits n.now user dest port create).2 :=
  ⟨rfl, rfl⟩

/-- The choice of the port goes through the table, and nothing else. -/
theorem withPort_spec (n : L2Node) (port : ℕ) (f : L2Frame) (our : ℕ) :
    (∃ out, (n.withPort port f our).2 = some ⟨f, our, out⟩) ∧
      n.circuits.Swept n.now (n.withPort port f our).1.circuits := by
  refine ⟨⟨_, rfl⟩, ?_⟩
  unfold withPort flexL2ChoosePort
  dsimp only
  split
  · exact .refl n.now _
  have hswept : n.circuits.Swept n.now
      (flexL2Find n.circuits n.now f.origin.toAxCall f.dest.toAxCall port false).1 := by
    rcases @flexL2Find_cases n.now f.origin.toAxCall f.dest.toAxCall port
        n.circuits false with ⟨_, _, h, _⟩ | ⟨_, h, _⟩ | ⟨hfalse, _⟩
    · exact h
    · exact h
    · cases hfalse
  split
  · exact hswept
  · split <;> exact hswept

/-- A circuit that the search of this frame has found, or that there is none. -/
structure Entry (n : L2Node) (port : ℕ) (f : L2Frame) (e : Option L2Slot) : Prop where
  found : ∀ i, e = some i → (n.circuits i).ofPair f.origin.toAxCall f.dest.toAxCall port = true ∧
    (n.circuits i).state n.now ≠ .expired
  none : e = none → ∀ i, (n.circuits i).ofPair f.origin.toAxCall f.dest.toAxCall port = false

/-- The first search of the forward path. -/
theorem l2Find_entry (n : L2Node) (port : ℕ) (f : L2Frame) :
    n.circuits.Swept n.now (n.l2Find f.origin.toAxCall f.dest.toAxCall port false).1.circuits ∧
      (n.l2Find f.origin.toAxCall f.dest.toAxCall port false).1.Entry port f
        (n.l2Find f.origin.toAxCall f.dest.toAxCall port false).2 := by
  obtain ⟨h₁, h₂⟩ := l2Find_spec n f.origin.toAxCall f.dest.toAxCall port false
  rw [h₁, h₂]
  rcases @flexL2Find_cases n.now f.origin.toAxCall f.dest.toAxCall port
      n.circuits false with ⟨i, hfind, hswept, hpair, hlive, hsame⟩ |
    ⟨hfind, hswept, hnone⟩ | ⟨hfalse, _⟩
  · rw [hfind]
    refine ⟨hswept, fun j hj => ?_, fun h => by cases h⟩
    obtain rfl := Option.some.inj hj
    dsimp only
    rw [hsame]
    exact ⟨hpair, hlive⟩
  · rw [hfind]
    refine ⟨hswept, ?_, fun _ => hnone⟩
    intro j hj
    cases hj
  · cases hfalse

/-- The circuit a frame is carried on: the one that was found, or a new one. -/
theorem l2Entry_cases {e : Option L2Slot} (he : n.Entry port f e) :
    ((n.l2Entry port f e).2 = none ∧
        ∃ t, (n.l2Entry port f e).1 = { n with circuits := t } ∧ n.circuits.Swept n.now t) ∨
      (∃ i, e = some i ∧ (n.l2Entry port f e) = (n, some i)) ∨
      (e = none ∧ ∃ i t, n.circuits.Swept n.now t ∧
        (∀ j, (t j).ofPair f.origin.toAxCall f.dest.toAxCall port = false) ∧
        n.l2Entry port f e = (({ n with circuits := t } : L2Node).setCircuit i
          (.fresh n.now f.origin.toAxCall f.dest.toAxCall port), some i)) := by
  cases e with
  | some i => exact .inr (.inl ⟨i, rfl, rfl⟩)
  | none =>
      have hnone := he.none rfl
      unfold l2Entry
      dsimp only
      obtain ⟨h₁, h₂⟩ := l2Find_spec n f.origin.toAxCall f.dest.toAxCall port true
      rcases @flexL2Find_cases n.now f.origin.toAxCall f.dest.toAxCall port
          n.circuits true with ⟨i, hfind, hswept, hpair, -⟩ |
        ⟨hfind, hswept, -⟩ | ⟨-, i, t, hfind, hswept, hall, hnew⟩
      · rw [hnone i] at hpair
        cases hpair
      · exact .inl ⟨h₂.trans hfind, _, h₁, hswept⟩
      · refine .inr (.inr ⟨rfl, i, t, hswept, hall, Prod.ext ?_ (h₂.trans hfind)⟩)
        rw [h₁, hnew]
        rfl

/-- The slots but one, and that one. -/
theorem stays_setCircuit {n₀ : L2Node} {i : L2Slot} {e : L2Circuit}
    (hswept : n₀.circuits.Swept n.now n.circuits) (h : Stays n.now (n₀.circuits i) e) :
    ∀ j, Stays n.now (n₀.circuits j) ((n.setCircuit i e).circuits j) := by
  intro j
  unfold setCircuit
  dsimp only
  by_cases hj : j = i
  · subst hj
    rw [Function.update_self]
    exact h
  · rw [Function.update_of_ne hj]
    exact (hswept j).stays

theorem stays_noteAdjacent {e : Option L2Slot} (he : n.Entry port f e) (hopPort : ℕ) :
    (n.flexL2NoteAdjacent port f e hopPort kind).now = n.now ∧
      ∀ i, Stays n.now (n.circuits i)
        ((n.flexL2NoteAdjacent port f e hopPort kind).circuits i) := by
  unfold flexL2NoteAdjacent
  rcases l2Entry_cases he with ⟨hnone, t, ht, hswept⟩ | ⟨i, rfl, hentry⟩ |
    ⟨rfl, i, t, hswept, hall, hentry⟩
  · rw [show n.l2Entry port f e = ({ n with circuits := t }, none) from Prod.ext ht hnone]
    exact ⟨rfl, fun j => (hswept j).stays⟩
  · rw [hentry]
    obtain ⟨hpair, hlive⟩ := he.found i rfl
    exact ⟨rfl, stays_setCircuit (.refl n.now _)
      (stays_used (ofPair_iff.mp hpair).1 hlive hopPort)⟩
  · rw [hentry]
    dsimp only
    set fresh := L2Circuit.fresh n.now f.origin.toAxCall f.dest.toAxCall port with hfresh
    have hlive := @state_used _ { fresh with outPort := hopPort } kind
      (state_fresh n.now f.origin.toAxCall f.dest.toAxCall port)
    obtain ⟨closing, closedAt, heq, -⟩ := used_eq { fresh with outPort := hopPort } kind n.now
    refine ⟨rfl, fun j => ?_⟩
    unfold setCircuit
    dsimp only
    by_cases hj : j = i
    · subst hj
      rw [Function.update_self, Function.update_self]
      refine Stays.swept_left (hswept j) fun _ => .inr ?_
      change New n.now (t j) (({ fresh with outPort := hopPort }).used kind n.now) ∧ _
      rw [heq] at hlive
      rw [show (({ fresh with outPort := hopPort, lastUsed := n.now } : L2Circuit).noteCtl
          kind n.now) = ({ fresh with outPort := hopPort }).used kind n.now from rfl, heq]
      exact ⟨new_of_none (hall j) hlive rfl rfl rfl, rfl, rfl⟩
    · rw [Function.update_of_ne hj, Function.update_of_ne hj]
      exact (hswept j).stays

theorem repin_eq (c : L2Circuit) (fresh : Bool) (nexthop : AxCall) (hopPort : ℕ) :
    ∃ prevOutPort, repin c fresh nexthop hopPort = { c with
      appended := nexthop, outPort := hopPort, prevOutPort := prevOutPort,
      prevAppended :=
          if fresh || c.appended.same nexthop then c.prevAppended else c.appended } := by
  unfold repin
  cases fresh with
  | true => exact ⟨_, rfl⟩
  | false =>
      cases hsame : c.appended.same nexthop with
      | true => exact ⟨c.prevOutPort, rfl⟩
      | false => exact ⟨c.outEff, rfl⟩

/-- The circuit after a frame was extended on it. -/
theorem extended_used {c : L2Circuit} {nexthop : AxCall} {pinned : Bool} {hopPort : ℕ}
    (hpair : c.ofPair f.origin.toAxCall f.dest.toAxCall port = true)
    (hlive : c.state n.now ≠ .expired) (hnamed : nexthop.isEmpty = false)
    (hpin : pinned = true → nexthop = c.appended) {c' : L2Circuit}
    (hc' : c' = if pinned then c else repin c c.appended.isEmpty nexthop hopPort) :
    Extended n.now f.origin.toAxCall f.dest.toAxCall port nexthop c (c'.used kind n.now) := by
  obtain ⟨hactive, hport, huser, hdest⟩ := ofPair_iff.mp hpair
  obtain ⟨outPort, prevOutPort, rfl⟩ : ∃ outPort prevOutPort, c' = { c with
      appended := nexthop, outPort := outPort, prevOutPort := prevOutPort,
      prevAppended := if c.appended.isEmpty || c.appended.same nexthop then c.prevAppended
        else c.appended } := by
    cases pinned with
    | true =>
        refine ⟨c.outPort, c.prevOutPort, ?_⟩
        have hsame := same_self c.appended
        rw [hc', hpin rfl, hsame, Bool.or_true, if_pos rfl]
        rfl
    | false =>
        obtain ⟨prevOutPort, heq⟩ := repin_eq c c.appended.isEmpty nexthop hopPort
        exact ⟨hopPort, prevOutPort, hc'.trans heq⟩
  set c' : L2Circuit := { c with
    appended := nexthop, outPort := outPort, prevOutPort := prevOutPort,
    prevAppended := if c.appended.isEmpty || c.appended.same nexthop then c.prevAppended
      else c.appended } with hdef
  have hused := @state_used n.now c' kind hlive
  obtain ⟨closing, closedAt, heq, -⟩ := used_eq c' kind n.now
  rw [heq] at hused ⊢
  exact ⟨hactive, hused, huser, hdest, hport, hnamed, rfl,
    .inl ⟨⟨hactive, hactive, rfl, rfl, rfl, .inr ⟨hlive, hused⟩⟩, rfl⟩⟩

/-- A frame that is extended, on the circuit that was found or on a new one. -/
theorem flexL2Extend_cases {e : Option L2Slot} (he : n.Entry port f e) {nexthop : AxCall}
    {pinned : Bool} (hopPort : ℕ) (hnamed : nexthop.isEmpty = false)
    (hpin : pinned = true → ∃ i, e = some i ∧ nexthop = (n.circuits i).appended) :
    (n.flexL2Extend port f e nexthop pinned hopPort kind).1.now = n.now ∧
    (((n.flexL2Extend port f e nexthop pinned hopPort kind).2 = none ∧ ∀ i, Stays n.now
        (n.circuits i) ((n.flexL2Extend port f e nexthop pinned hopPort kind).1.circuits i)) ∨
      ∃ f' i, (n.flexL2Extend port f e nexthop pinned hopPort kind).2 = some f' ∧
        f.appendDigi nexthop = some f' ∧
        Extended n.now f.origin.toAxCall f.dest.toAxCall port nexthop (n.circuits i)
          ((n.flexL2Extend port f e nexthop pinned hopPort kind).1.circuits i) ∧
        ∀ j, j ≠ i → Stays n.now (n.circuits j)
          ((n.flexL2Extend port f e nexthop pinned hopPort kind).1.circuits j)) := by
  unfold flexL2Extend
  rcases l2Entry_cases he with ⟨hnone, t, ht, hswept⟩ | ⟨i, rfl, hentry⟩ |
    ⟨rfl, i, t, hswept, hall, hentry⟩
  · rw [show n.l2Entry port f e = ({ n with circuits := t }, none) from Prod.ext ht hnone]
    exact ⟨rfl, .inl ⟨rfl, fun j => (hswept j).stays⟩⟩
  · -- a circuit that is there
    obtain ⟨hpair, hlive⟩ := he.found i rfl
    obtain ⟨hactive, hport, huser, hdest⟩ := ofPair_iff.mp hpair
    rw [hentry]
    dsimp only
    cases happend : f.appendDigi nexthop with
    | none =>
        dsimp only
        refine ⟨by split <;> rfl, .inl ⟨rfl, fun j => ?_⟩⟩
        split
        · by_cases hj : j = i
          · subst hj
            intro hup
            simp [setCircuit] at hup
          · simpa [setCircuit, hj] using (Swept.refl n.now (n.circuits j)).stays
        · exact (Swept.refl n.now (n.circuits j)).stays
    | some f' =>
        dsimp only
        refine ⟨rfl, .inr ⟨f', i, rfl, rfl, ?_, fun j hj => ?_⟩⟩
        · rw [show (n.setCircuit i _).circuits i = _ from Function.update_self _ _ _]
          refine extended_used hpair hlive hnamed (fun hp => ?_) rfl
          obtain ⟨i', hi', hnext⟩ := hpin hp
          obtain rfl := Option.some.inj hi'
          exact hnext
        · simpa [setCircuit, hj] using (Swept.refl n.now (n.circuits j)).stays
  · -- a new one
    rw [hentry]
    have hp : pinned = false := by
      rw [← Bool.not_eq_true]
      intro hp
      obtain ⟨i', hi', -⟩ := hpin hp
      cases hi'
    subst hp
    set fresh := L2Circuit.fresh n.now f.origin.toAxCall f.dest.toAxCall port with hfresh
    have hfreshPair : fresh.ofPair f.origin.toAxCall f.dest.toAxCall port = true :=
      ofPair_iff.mpr ⟨rfl, rfl, same_self _, same_self _⟩
    have hfreshLive := state_fresh n.now f.origin.toAxCall f.dest.toAxCall port
    have hself : ∀ c : L2Circuit, ((({ n with circuits := t } : L2Node).setCircuit i
        fresh).setCircuit i c).circuits i = c := fun c => Function.update_self _ _ _
    have hother : ∀ (c : L2Circuit) (j : L2Slot), j ≠ i → Stays n.now (n.circuits j)
        (((({ n with circuits := t } : L2Node).setCircuit i fresh).setCircuit i c).circuits j) :=
      fun c j hj => by simpa [setCircuit, hj] using (hswept j).stays
    have hcircuit : ((({ n with circuits := t } : L2Node).setCircuit i fresh).circuits i) = fresh :=
      Function.update_self _ _ _
    dsimp only
    cases happend : f.appendDigi nexthop with
    | none =>
        dsimp only
        refine ⟨rfl, .inl ⟨rfl, fun j => ?_⟩⟩
        rw [Option.isNone_none, Bool.true_or, if_pos rfl]
        by_cases hj : j = i
        · subst hj
          intro hup
          rw [hself] at hup
          cases hup
        · exact hother _ j hj
    | some f' =>
        dsimp only
        refine ⟨rfl, .inr ⟨f', i, rfl, rfl, ?_, fun j hj => hother _ j hj⟩⟩
        rw [hself, hcircuit, Option.isNone_none, Bool.true_or, if_neg (by simp)]
        have hext := @extended_used n _ _ kind _ _ false hopPort
          hfreshPair hfreshLive hnamed (fun h => by cases h) _ rfl
        obtain ⟨huser, hdest, hprev⟩ := used_key (repin fresh true nexthop hopPort) kind n.now
        obtain ⟨prevOutPort, heq⟩ := repin_eq fresh true nexthop hopPort
        have hnew := new_of_none (hall i) hext.live
          (huser.trans (congrArg L2Circuit.user heq)) (hdest.trans (congrArg L2Circuit.dest heq))
          hext.port
        exact { hext with prev := .inr ⟨hnew.swept_left (hswept i),
          hprev.trans (congrArg L2Circuit.prevAppended heq)⟩ }

/-- Routing finds a hop that has a name, and leaves the table alone. -/
theorem flexL2ResolveHop_spec (n : L2Node) (dest : AxCall) :
    (n.flexL2ResolveHop dest).1.circuits = n.circuits ∧ (n.flexL2ResolveHop dest).1.now = n.now ∧
      ∀ call pinned hopPort, (n.flexL2ResolveHop dest).2 = .hop call pinned hopPort →
        pinned = false ∧ call.isEmpty = false := by
  unfold flexL2ResolveHop
  dsimp only
  split
  · exact ⟨rfl, rfl, fun _ _ _ h => by cases h⟩
  split
  · exact ⟨rfl, rfl, fun _ _ _ h => by cases h⟩
  split
  · exact ⟨rfl, rfl, fun _ _ _ h => by cases h⟩
  split
  · exact ⟨rfl, rfl, fun _ _ _ h => by cases h⟩
  split
  · exact ⟨rfl, rfl, fun _ _ _ h => by cases h⟩
  · rename_i hnamed _
    refine ⟨rfl, rfl, fun call pinned hopPort h => ?_⟩
    obtain ⟨rfl, rfl, -⟩ := L2Hop.hop.inj h
    exact ⟨rfl, by simpa using hnamed⟩

theorem flexL2PickHop_spec (n : L2Node) (e : Option L2Slot) (kind : L2Kind) (dest : AxCall) :
    (n.flexL2PickHop e kind dest).1.circuits = n.circuits ∧
      (n.flexL2PickHop e kind dest).1.now = n.now ∧
      ∀ call pinned hopPort, (n.flexL2PickHop e kind dest).2 = .hop call pinned hopPort →
        call.isEmpty = false ∧
          (pinned = true → ∃ i, e = some i ∧ call = (n.circuits i).appended) := by
  unfold flexL2PickHop
  dsimp only
  split
  · rename_i c hpin
    refine ⟨rfl, rfl, fun call pinned hopPort h => ?_⟩
    obtain ⟨rfl, -, -⟩ := L2Hop.hop.inj h
    rw [Option.filter_eq_some_iff, Option.map_eq_some_iff] at hpin
    obtain ⟨⟨i, hi, rfl⟩, hnamed⟩ := hpin
    rw [Bool.and_eq_true, Bool.not_eq_true'] at hnamed
    exact ⟨hnamed.1, fun _ => ⟨i, hi, rfl⟩⟩
  · obtain ⟨hcircuits, hnow, hhop⟩ := n.flexL2ResolveHop_spec dest
    refine ⟨hcircuits, hnow, fun call pinned hopPort h => ?_⟩
    obtain ⟨hfresh, hnamed⟩ := hhop call pinned hopPort h
    refine ⟨hnamed, fun hp => ?_⟩
    rw [hfresh] at hp
    cases hp

/-- What a frame does to the table, and what becomes of it. -/
inductive L2Fate (n : L2Node) (port : ℕ) (f : L2Frame) (our : ℕ) : L2Table → Option L2Out → Prop
  | looped {t : L2Table} (table : ∀ i, Stays n.now (n.circuits i) (t i)) :
      L2Fate n port f our t none
  | passed {t : L2Table} (toPort : ℕ) (table : ∀ i, Stays n.now (n.circuits i) (t i)) :
      L2Fate n port f our t (some ⟨f, our, toPort⟩)
  | contracted {t : L2Table} (toPort : ℕ) (i : L2Slot) (prev : L2Addr) (after : 1 ≤ our)
      (hprev : f.digis[our - 1]? = some prev)
      (found : n.l2FindRev f.dest.toAxCall f.origin.toAxCall port = some i)
      (hop : (n.circuits i).isOurHop prev = true)
      (table : ∀ i, Stays n.now (n.circuits i) (t i)) :
      L2Fate n port f our t (some ⟨f.removeDigi (our - 1), our - 1, toPort⟩)
  | extended {t : L2Table} (toPort : ℕ) (i : L2Slot) (hop : AxCall) (f' : L2Frame)
      (last : our + 1 = f.digis.length) (room : f.digis.length < l2MaxDigis)
      (append : f.appendDigi hop = some f')
      (circuit : Extended n.now f.origin.toAxCall f.dest.toAxCall port hop (n.circuits i) (t i))
      (others : ∀ j, j ≠ i → Stays n.now (n.circuits j) (t j)) :
      L2Fate n port f our t (some ⟨f', our, toPort⟩)

/-- A frame that is passed on as it is. -/
theorem fate_withPort {m : L2Node} (hnow : m.now = n.now)
    (h : ∀ i, Stays n.now (n.circuits i) (m.circuits i)) :
    L2Fate n port f our (m.withPort port f our).1.circuits (m.withPort port f our).2 := by
  obtain ⟨⟨out, hout⟩, hswept⟩ := m.withPort_spec port f our
  rw [hout]
  rw [hnow] at hswept
  exact .passed out fun i => (h i).swept_right (hswept i)

theorem l2Cap_le (n : L2Node) (port : ℕ) : n.l2Cap port ≤ l2MaxDigis := by
  unfold l2Cap
  split_ifs
  · exact le_rfl
  · exact min_le_right _ _

/-- The forward path. -/
theorem forwardL2_fate (n : L2Node) (ourDigi : L2Addr) (hlast : our + 1 = f.digis.length) :
    L2Fate n port f our (n.forwardL2 port f our ourDigi kind).1.circuits
      (n.forwardL2 port f our ourDigi kind).2 := by
  obtain ⟨hswept, hentry⟩ := l2Find_entry n port f
  obtain ⟨hfind, -⟩ := l2Find_spec n f.origin.toAxCall f.dest.toAxCall port false
  have hnow : (n.l2Find f.origin.toAxCall f.dest.toAxCall port false).1.now = n.now := by rw [hfind]
  unfold forwardL2
  dsimp only
  generalize n.l2Find f.origin.toAxCall f.dest.toAxCall port false = found at hswept hentry hnow
  obtain ⟨m, e⟩ := found
  dsimp only at hswept hentry hnow ⊢
  split
  · exact .looped fun i => (hswept i).stays
  obtain ⟨hcircuits, hnow', hhop⟩ := m.flexL2PickHop_spec e kind f.dest.toAxCall
  cases hpick : m.flexL2PickHop e kind f.dest.toAxCall with
  | mk k found =>
      rw [hpick] at hcircuits hnow' hhop
      dsimp only at hcircuits hnow' hhop
      have hentry' : k.Entry port f e := by
        refine ⟨fun i hi => ?_, fun hnone i => ?_⟩
        · rw [hcircuits, hnow']
          exact hentry.found i hi
        · rw [hcircuits]
          exact hentry.none hnone i
      have hstays : ∀ i, Stays n.now (n.circuits i) (k.circuits i) := by
        rw [hcircuits]
        exact fun i => (hswept i).stays
      have hsame : k.now = n.now := hnow'.trans hnow
      cases found with
      | declined => exact fate_withPort hsame hstays
      | adjacent hopPort =>
          dsimp only
          obtain ⟨hnoted, hnote⟩ := @stays_noteAdjacent _ _ _ kind _ hentry' hopPort
          split
          · refine fate_withPort (hnoted.trans hsame) fun i => ?_
            have hi := hnote i
            rw [hsame, hcircuits] at hi
            exact hi.swept_left (hswept i)
          · exact fate_withPort hsame hstays
      | hop nexthop pinned hopPort =>
          obtain ⟨hnamed, hpin⟩ := hhop nexthop pinned hopPort rfl
          dsimp only
          split
          · exact .passed 0 hstays
          split
          · exact .passed 0 hstays
          split
          · exact .passed 0 hstays
          rename_i hcap
          have hroom : f.digis.length < l2MaxDigis := (not_le.mp hcap).trans_le (l2Cap_le _ _)
          obtain ⟨hkept, hcases⟩ := @flexL2Extend_cases _ _ _ kind _ hentry' _ _ hopPort hnamed
            (by rw [hcircuits]; exact hpin)
          generalize k.flexL2Extend port f e nexthop pinned hopPort kind = result at hkept hcases
          obtain ⟨m', result⟩ := result
          dsimp only at hkept hcases
          rcases hcases with ⟨rfl, htable⟩ | ⟨f', i, rfl, happend, hext, hothers⟩
          · dsimp only
            refine .passed 0 fun i => ?_
            have hi := htable i
            rw [hsame, hcircuits] at hi
            exact hi.swept_left (hswept i)
          · dsimp only
            obtain ⟨⟨out, hout⟩, hswept'⟩ := m'.withPort_spec port f' our
            rw [hout]
            rw [hkept, hsame] at hswept'
            rw [hsame, hcircuits] at hext
            refine .extended out i nexthop f' hlast hroom happend
              ((hext.swept_left (hswept i)).swept_right (hswept' i)) fun j hj => ?_
            have hj' := hothers j hj
            rw [hsame, hcircuits] at hj'
            exact (hj'.swept_left (hswept j)).swept_right (hswept' j)

/-- A frame is contracted on the circuit it returns on, when the hop before the node is a pin of
it. -/
theorem flexL2Contract_cases (n : L2Node) (port : ℕ) (f : L2Frame) (our : ℕ) (kind : L2Kind) :
    n.flexL2Contract port f our kind = (n, none) ∨
      ∃ i prev, n.l2FindRev f.dest.toAxCall f.origin.toAxCall port = some i ∧
        f.digis[our - 1]? = some prev ∧ (n.circuits i).isOurHop prev = true ∧
        n.flexL2Contract port f our kind = (n.setCircuit i ((n.circuits i).used kind n.now),
          some (f.removeDigi (our - 1), our - 1)) := by
  unfold flexL2Contract
  split
  · rename_i i prev hrev hprev
    dsimp only
    split
    · exact .inl rfl
    · rename_i hop
      exact .inr ⟨i, prev, hrev, hprev, by simpa using hop, rfl⟩
  · exact .inl rfl

/-- What `FlexNet_L2Transit` does with a frame. -/
theorem flexNetL2Transit_fate (n : L2Node) (port : ℕ) (f : L2Frame) (our : ℕ) :
    L2Fate n port f our (n.flexNetL2Transit port f our).1.circuits
      (n.flexNetL2Transit port f our).2 := by
  have hasIs : L2Fate n port f our n.circuits (some ⟨f, our, 0⟩) :=
    .passed 0 fun i => (Swept.refl n.now (n.circuits i)).stays
  unfold flexNetL2Transit
  dsimp only
  split
  · exact hasIs
  split
  · exact hasIs
  split
  swap
  · exact hasIs
  split
  · exact hasIs
  have hforward : ∀ kind ourDigi, L2Fate n port f our
      (if our + 1 ≠ f.digis.length then n.withPort port f our
        else n.forwardL2 port f our ourDigi kind).1.circuits
      (if our + 1 ≠ f.digis.length then n.withPort port f our
        else n.forwardL2 port f our ourDigi kind).2 := by
    intro kind ourDigi
    split
    · exact fate_withPort rfl fun i => (Swept.refl n.now (n.circuits i)).stays
    · rename_i hlast
      exact n.forwardL2_fate ourDigi (by omega)
  by_cases hour : 1 ≤ our
  · rw [if_pos hour]
    rcases n.flexL2Contract_cases port f our _ with hnone | ⟨i, prev, hrev, hprev, hop, hsome⟩
    · rw [hnone]
      exact hforward _ _
    · rw [hsome]
      dsimp only
      obtain ⟨⟨out, hout⟩, hswept⟩ := (n.setCircuit i ((n.circuits i).used _ n.now)).withPort_spec
        port (f.removeDigi (our - 1)) (our - 1)
      rw [hout]
      have hreturns := List.find?_some hrev
      simp only [returns, Bool.and_eq_true, bne_iff_ne] at hreturns
      refine .contracted out i prev hour hprev hrev hop fun j => ?_
      refine (stays_setCircuit (.refl n.now _) ?_ j).swept_right (hswept j)
      exact stays_used hreturns.1.1.1.1 hreturns.1.1.1.2 (n.circuits i).outPort
  · rw [if_neg hour]
    exact hforward _ _

end L2Node

end FlexNet
