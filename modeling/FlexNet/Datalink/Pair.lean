import FlexNet.Lib.Runs
import FlexNet.Datalink.Numbers

/-!
# Two ends of a session

The two ends of a session in its data phase, each running the code of `FlexNet.Datalink.Session`,
and the frames of each on the air.  The air keeps the order of what one end sends and may lose any
of it.  Frames are queued, sent, lost, taken in and timed at either end in any order; the one
condition on a run is that no end sends a command while a poll of its own, or the answer to it, is
still on the air (`LinkPair.Timely`): the retry timer is longer than the way there and back, and the
layer above waits for the answer before it lets more frames go.

Then the other end gets exactly the frames that were queued, in their order, none twice
(`LinkPair.delivered_inOrder`), and no N(R) is ever rejected.
-/

namespace FlexNet

open Runs SlotRing PolledWindow

/-- The two ends, what each has on the air, oldest first, and all each has been given to send. -/
structure LinkPair (α : Type) where
  ends : Bool → DataLink α
  air : Bool → List (LinkFrame α) := fun _ => []
  told : Bool → List α := fun _ => []

/-- What can happen to an end `x`: the layer above queues a frame, the sender is run, the port has
sent a frame with a poll and starts its retry timer, the oldest frame of the other end comes in, a
timer tick passes; and the `i`-th frame `x` has on the air is lost. -/
inductive LinkEvent (α : Type)
  | queue (x : Bool) (a : α)
  | transmit (x : Bool) (env : LinkEnv)
  | sent (x : Bool)
  | hear (x : Bool) (env : LinkEnv)
  | tick (x : Bool) (env : LinkEnv)
  | lose (x : Bool) (i : Nat)

namespace LinkPair

variable {α : Type} (ports : Bool → LinkPort)

/-- An end is left with `r.1` and has sent `r.2`. -/
def act (s : LinkPair α) (x : Bool) (r : DataLink α × List (LinkFrame α)) : LinkPair α :=
  { s with
    ends := Function.update s.ends x r.1
    air := Function.update s.air x (s.air x ++ r.2) }

/-- What an end does by itself, its sender or its timers; an end that has left the data phase does
nothing. -/
def actOf (s : LinkPair α) : LinkEvent α → Option (Bool × DataLink α × List (LinkFrame α))
  | .transmit x env =>
    if (s.ends x).l2State < 5 then none else some (x, (s.ends x).sdEtx (ports x) env)
  | .tick x env =>
    if (s.ends x).l2State < 5 then none else some (x, (s.ends x).l2TimerProc (ports x) env)
  | _ => none

def step (s : LinkPair α) : LinkEvent α → LinkPair α
  | .queue x a =>
    { s with
      ends := Function.update s.ends x { s.ends x with txQ := (s.ends x).txQ ++ [a] }
      told := Function.update s.told x (s.told x ++ [a]) }
  | .sent x =>
    { s with ends := Function.update s.ends x { s.ends x with l2Timer := (s.ends x).l2Time } }
  | .hear x env =>
    match s.air (!x) with
    | [] => s
    | f :: rest =>
      act { s with air := Function.update s.air (!x) rest } x
        ((s.ends x).l2Process (ports x) env f)
  | .lose x i => { s with air := Function.update s.air x ((s.air x).eraseIdx i) }
  | e => match actOf ports s e with
    | none => s
    | some (x, r) => s.act x r

/-- A poll of an end, or the answer to it, is on the air. -/
def UnderWay (s : LinkPair α) (x : Bool) : Prop :=
  (∃ f ∈ s.air x, f.flag = .cmd ∧ ctlPf f.ctl = true) ∨
    ∃ f ∈ s.air (!x), f.flag = .resp ∧ ctlPf f.ctl = true

instance (s : LinkPair α) (x : Bool) : Decidable (s.UnderWay x) :=
  inferInstanceAs (Decidable (_ ∨ _))

/-- No end sends a command while a poll of its own or the answer to it is on the air.  Without this
an old frame can be handed up for a new one (`Bench.not_delivered_earlyPoll`). -/
def Timely (s : LinkPair α) (e : LinkEvent α) : Prop :=
  match actOf ports s e with
  | none => True
  | some (x, r) => (∃ f ∈ r.2, f.flag = .cmd) → ¬ s.UnderWay x

instance (s : LinkPair α) (e : LinkEvent α) : Decidable (Timely ports s e) := by
  unfold Timely
  split <;> infer_instance

/-- A session just set up (`RESET2X`), over frames of version 2 and without SREJ, whose ends may
have frames queued already. -/
structure Fresh (s : LinkPair α) : Prop where
  numbers : ∀ x, (s.ends x).linkNr = 0 ∧ (s.ends x).linkNs = 0 ∧ (s.ends x).linkWs = 0 ∧
    (s.ends x).linkOws = 0 ∧ (s.ends x).sdtSlot = 0
  slots : ∀ x, (s.ends x).frames = (fun _ => none) ∧ (s.ends x).rxFrames = fun _ => none
  queues : ∀ x, (s.ends x).txQ = s.told x ∧ (s.ends x).rxQ = [] ∧ s.air x = []
  window : ∀ x, 0 < (s.ends x).linkWindow ∧ (s.ends x).linkWindow ≤ 7
  plain : ∀ x, (s.ends x).ver1Flag = false ∧ (s.ends x).ver2point2 = false ∧
    (s.ends x).discPending = false ∧ (s.ends x).sdRejF = false

/-! ## The numbered session behind it -/

/-- The frames of one direction as the numbered protocol has them. -/
def flow (s : LinkPair α) (m : Bool → Marks) (tags : Bool → List Tag) (x : Bool) : Flow where
  size := (s.told x).length
  acked := (m x).acked
  next := (m x).next
  recv := (m !x).recv
  out := (tags x).map Tag.out
  back := (tags !x).map Tag.back

/-- The ends are at their marks and the frames on the air carry their numbers. -/
structure At (s : LinkPair α) (m : Bool → Marks) (tags : Bool → List Tag) : Prop where
  stands : ∀ x, Stands (s.ends x) (s.told x) (s.told !x) (m x)
  air : ∀ x, List.Forall₂ (Carries (s.told x)) (s.air x) (tags x)

variable {ports : Bool → LinkPort} {s : LinkPair α} {m : Bool → Marks} {tags : Bool → List Tag}
  {x : Bool}

/-- What holds of an end and of the other one holds of both. -/
theorem both {P : Bool → Prop} (x : Bool) (hx : P x) (hother : P !x) : ∀ y, P y := fun y => by
  cases x <;> cases y <;> assumption

theorem exists_mem_iff {β γ : Type} {R : β → γ → Prop} {p : β → Prop} {q : γ → Prop} {bs : List β}
    {cs : List γ} (h : List.Forall₂ R bs cs) (hpq : ∀ b c, R b c → (p b ↔ q c)) :
    (∃ b ∈ bs, p b) ↔ ∃ c ∈ cs, q c := by
  induction h with
  | nil => simp
  | cons hR _ ih => simp [hpq _ _ hR, ih]

theorem forall₂_eraseIdx {β γ : Type} {R : β → γ → Prop} {bs : List β} {cs : List γ}
    (h : List.Forall₂ R bs cs) (i : Nat) : List.Forall₂ R (bs.eraseIdx i) (cs.eraseIdx i) := by
  induction h generalizing i with
  | nil => exact .nil
  | cons hR hrest ih =>
      cases i with
      | zero => exact hrest
      | succ i => exact .cons hR (ih i)

theorem At.underWay_iff (h : At s m tags) (x : Bool) :
    s.UnderWay x ↔ (flow s m tags x).UnderWay := by
  have hout := exists_mem_iff (h.air x) fun _ _ hc => hc.polls.1
  have hback := exists_mem_iff (h.air !x) fun _ _ hc => hc.polls.2
  simp only [UnderWay, hout, hback, flow, Flow.UnderWay, List.mem_map, exists_exists_and_eq_and]
  rfl

/-! ## What an end sends, in both directions -/

/-- An end that has moved to new marks and sent something. -/
theorem At.act (h : At s m tags) {r : DataLink α × List (LinkFrame α)} {m' : Marks} {new : List Tag}
    (hr : Stands r.1 (s.told x) (s.told !x) m') (hnew : List.Forall₂ (Carries (s.told x)) r.2 new) :
    At (s.act x r) (Function.update m x m') (Function.update tags x (tags x ++ new)) where
  stands := by
    refine both x ?_ ?_
    · simpa [LinkPair.act] using hr
    · simpa [LinkPair.act] using h.stands !x
  air := by
    refine both x ?_ ?_
    · simpa [LinkPair.act] using List.rel_append (h.air x) hnew
    · simpa [LinkPair.act] using h.air !x

theorem flow_act_self (s : LinkPair α) (m : Bool → Marks) (tags : Bool → List Tag) (x : Bool)
    (r : DataLink α × List (LinkFrame α)) (m' : Marks) (new : List Tag) :
    flow (s.act x r) (Function.update m x m') (Function.update tags x (tags x ++ new)) x =
      { flow s m tags x with
        acked := m'.acked, next := m'.next
        out := (flow s m tags x).out ++ new.map Tag.out } := by
  simp [flow, LinkPair.act]

theorem flow_act_other (s : LinkPair α) (m : Bool → Marks) (tags : Bool → List Tag) (x : Bool)
    (r : DataLink α × List (LinkFrame α)) (m' : Marks) (new : List Tag) :
    flow (s.act x r) (Function.update m x m') (Function.update tags x (tags x ++ new)) (!x) =
      { flow s m tags (!x) with
        recv := m'.recv
        back := (flow s m tags (!x)).back ++ new.map Tag.back } := by
  simp [flow, LinkPair.act]

/-- Frames that answer nothing final are steps of the receiver. -/
theorem steps_answers {f : Flow} {new : List Tag} (hnew : ∀ t ∈ new, t.back = ⟨f.recv, false⟩) :
    Steps 7 f { f with back := f.back ++ new.map Tag.back } := by
  induction new generalizing f with
  | nil =>
      simp only [List.map_nil, List.append_nil]
      exact .refl
  | cons t new ih =>
      have hfirst := Step.answer (w := 7) f false (by simp)
      have hrest := ih (f := { f with back := f.back ++ [⟨f.recv, false⟩] })
        fun t ht => hnew t (List.mem_cons_of_mem _ ht)
      refine .head hfirst ?_
      simpa [hnew t List.mem_cons_self] using hrest

/-- At most one supervisory frame, which says how far this end has come. -/
theorem exists_tags (own : List α) {m : Marks} {mayFinal : Prop} {out : List (LinkFrame α)}
    (h : DataLink.Answers m mayFinal out) : ∃ new : List Tag, List.Forall₂ (Carries own) out new ∧
      (new = [] ∨ ∃ final, (final = true → mayFinal) ∧ new = [⟨none, m.recv, false, final⟩]) := by
  rcases h with rfl | ⟨kind, pf, hkind, hpf, rfl⟩
  · exact ⟨[], .nil, .inl rfl⟩
  · exact ⟨_, .cons (.response kind m.recv pf hkind) .nil, .inr ⟨pf, hpf, rfl⟩⟩

theorem steps_send {f : Flow} {new : List Tag} {recv : Nat}
    (hnew : new = [] ∨ ∃ final, new = [⟨none, recv, false, final⟩]) :
    Steps 7 f { f with out := f.out ++ new.map Tag.out } := by
  rcases hnew with rfl | ⟨final, rfl⟩
  · simp only [List.map_nil, List.append_nil]
    exact .refl
  · exact .single (.send f false (by simp))

/-! ## The code refines the numbered session -/

/-- A step of the pair is matched by steps of the numbered protocol in both directions. -/
def Refined (s : LinkPair α) (m : Bool → Marks) (tags : Bool → List Tag) (s' : LinkPair α) : Prop :=
  ∃ m' tags', At s' m' tags' ∧ ∀ x, Steps 7 (flow s m tags x) (flow s' m' tags' x)

theorem Refined.refl (h : At s m tags) : Refined s m tags s := ⟨m, tags, h, fun _ => .refl⟩

theorem At.queue (h : At s m tags) (hinv : ∀ x, Inv 7 (flow s m tags x)) (x : Bool) (a : α) :
    Refined s m tags (s.step ports (.queue x a)) := by
  have hrecv : (m !x).recv ≤ (s.told x).length := (hinv x).recv_le.trans (hinv x).next_le
  refine ⟨m, tags, ⟨?_, ?_⟩, both x ?_ ?_⟩
  · refine both x ?_ ?_
    · have hx := h.stands x
      simp only [step, Function.update_self]
      rw [Function.update_of_ne (Bool.not_ne_self x)]
      exact { hx with
        covers := hx.covers.append [a]
        queued := by rw [hx.queued, List.drop_append_of_le_length hx.covers.inside] }
    · have hx := h.stands !x
      simp only [step, Bool.not_not, Function.update_self]
      rw [Function.update_of_ne (Bool.not_ne_self x), Function.update_of_ne (Bool.not_ne_self x)]
      rw [Bool.not_not] at hx
      exact { hx with
        saved := hx.saved.append [a]
        handed := by rw [hx.handed, List.take_append_of_le_length hrecv] }
  · refine both x ?_ ?_
    · simp only [step, Function.update_self]
      exact (h.air x).imp fun _ _ hc => hc.append [a]
    · simp only [step]
      rw [Function.update_of_ne (Bool.not_ne_self x)]
      exact h.air !x
  · have hgive := Step.give (w := 7) (flow s m tags x)
    refine .single ?_
    simpa [flow, step] using hgive
  · simp only [flow, step]
    rw [Function.update_of_ne (Bool.not_ne_self x)]

theorem At.sent (h : At s m tags) (x : Bool) : Refined s m tags (s.step ports (.sent x)) := by
  refine ⟨m, tags, ⟨both x ?_ ?_, h.air⟩, fun _ => .refl⟩
  · have hx := h.stands x
    simp only [LinkPair.step, Function.update_self]
    exact { hx with }
  · simpa [LinkPair.step] using h.stands !x

theorem At.lose (h : At s m tags) (x : Bool) (i : Nat) :
    Refined s m tags (s.step ports (.lose x i)) := by
  refine ⟨m, Function.update tags x ((tags x).eraseIdx i), ⟨h.stands, both x ?_ ?_⟩, both x ?_ ?_⟩
  · simpa [step] using forall₂_eraseIdx (h.air x) i
  · simpa [step] using h.air !x
  · have hlose := Step.lose (w := 7) (flow s m tags x) _ (flow s m tags x).back
      ((List.eraseIdx_sublist (tags x) i).map Tag.out) (.refl _)
    refine .single ?_
    simpa [flow, step] using hlose
  · have hlose := Step.lose (w := 7) (flow s m tags !x) (flow s m tags !x).out _ (.refl _)
      (by simpa [flow] using (List.eraseIdx_sublist (tags x) i).map Tag.back)
    refine .single ?_
    simpa [flow, step] using hlose

theorem At.transmit (h : At s m tags) (x : Bool) (env : LinkEnv)
    (hok : (∃ f ∈ ((s.ends x).sdEtx (ports x) env).2, f.flag = .cmd) → ¬ s.UnderWay x) :
    Refined s m tags (s.act x ((s.ends x).sdEtx (ports x) env)) := by
  obtain ⟨next, top, new, hstands, hburst⟩ := DataLink.sdEtx_stands (ports x) env (h.stands x)
  refine ⟨_, _, h.act hstands hburst.air, both x ?_ ?_⟩
  · rw [flow_act_self]
    by_cases hnil : new = []
    · subst hnil
      simp only [hburst.count, List.map_nil, List.append_nil, List.length_nil, Nat.add_zero]
      exact .refl
    · refine hburst.steps (flow s m tags x) rfl rfl rfl ?_
      rw [← h.underWay_iff]
      obtain ⟨f, hf⟩ : ∃ f, f ∈ ((s.ends x).sdEtx (ports x) env).2 := by
        by_contra hno
        have hout := List.eq_nil_iff_forall_not_mem.mpr (not_exists.mp hno)
        have hair := hburst.air
        rw [hout] at hair
        exact hnil (List.forall₂_nil_left_iff.mp hair)
      exact hok ⟨f, hf, hburst.commands f hf⟩
  · rw [flow_act_other]
    have hsteps : Steps 7 (flow s m tags !x) { flow s m tags (!x) with
        back := (flow s m tags !x).back ++ new.map Tag.back } :=
      steps_answers (by simpa [flow] using hburst.tells)
    simpa [flow] using hsteps

theorem At.tick (h : At s m tags) (x : Bool) (env : LinkEnv)
    (hok : (∃ f ∈ ((s.ends x).l2TimerProc (ports x) env).2, f.flag = .cmd) → ¬ s.UnderWay x) :
    Refined s m tags (s.act x ((s.ends x).l2TimerProc (ports x) env)) := by
  obtain ⟨hstands, hsends⟩ := DataLink.l2TimerProc_stands (ports x) env (h.stands x)
  -- the frame, its numbers, and the two steps they are
  obtain ⟨new, hnew, hback, hout⟩ : ∃ new : List Tag,
      List.Forall₂ (Carries (s.told x)) ((s.ends x).l2TimerProc (ports x) env).2 new ∧
      (∀ t ∈ new, t.back = ⟨(m x).recv, false⟩) ∧
      Steps 7 (flow s m tags x)
        { flow s m tags x with out := (flow s m tags x).out ++ new.map Tag.out } := by
    rcases hsends with hans | ⟨kind, hkind, hsent⟩
    · obtain ⟨new, hnew, hform⟩ := exists_tags (s.told x) hans
      refine ⟨new, hnew, ?_, ?_⟩
      · rcases hform with rfl | ⟨final, hfinal, rfl⟩
        · simp
        · cases final with
          | false => simp [Tag.back]
          | true => exact (hfinal rfl).elim
      · exact steps_send (hform.imp id fun ⟨final, _, hf⟩ => ⟨final, hf⟩)
    · rw [hsent] at hok ⊢
      refine ⟨_, .cons (.command kind (m x).recv hkind) .nil, by simp [Tag.back], ?_⟩
      exact .single (.send _ true fun _ => h.underWay_iff x |>.not.mp (hok (by simp)))
  refine ⟨_, _, h.act hstands hnew, both x ?_ ?_⟩
  · rw [flow_act_self]
    exact hout
  · rw [flow_act_other]
    have hsteps : Steps 7 (flow s m tags !x) { flow s m tags (!x) with
        back := (flow s m tags !x).back ++ new.map Tag.back } :=
      steps_answers (by simpa [flow] using hback)
    simpa [flow] using hsteps

/-- An answer to the frame taken off the air is a step of the receiver: it is final only where the
frame was a poll, and then nothing else is under way. -/
theorem steps_answer {f : Flow} {o : Outgoing} {rest : List Outgoing} {recv : Nat} {new : List Tag}
    (hinv : Inv 7 f) (hout : f.out = o :: rest) (hrecv : f.recv ≤ recv)
    (hitem : recv = f.recv ∨ ∃ k, o.item = some k ∧ recv ≤ k + 1)
    (hnew : new = [] ∨ ∃ final, (final = true → o.poll = true) ∧
      new = [⟨none, recv, false, final⟩]) :
    Steps 7 f { f with recv := recv, out := rest, back := f.back ++ new.map Tag.back } := by
  refine .head (.arrive f o rest recv hout hrecv hitem) ?_
  rcases hnew with rfl | ⟨final, hfinal, rfl⟩
  · simp only [List.map_nil, List.append_nil]
    exact .refl
  · refine .single (.answer _ final fun htrue => ?_)
    obtain ⟨hidle, hback⟩ := hinv.polled hout (hfinal htrue)
    refine ⟨?_, hidle⟩
    rintro (⟨o', ho', hp⟩ | ⟨a, ha, hf⟩)
    · rw [(hidle o' ho').2] at hp
      cases hp
    · rw [hback a ha] at hf
      cases hf

theorem At.hear (h : At s m tags) (hinv : ∀ x, Inv 7 (flow s m tags x)) (x : Bool) (env : LinkEnv) :
    Refined s m tags (s.step ports (.hear x env)) := by
  cases hair : s.air (!x) with
  | nil =>
      simp only [step, hair]
      exact .refl h
  | cons f rest =>
      have htag := h.air !x
      rw [hair] at htag
      obtain ⟨t, trest, hf, hrest, htags⟩ := List.forall₂_cons_left_iff.mp htag
      simp only [step, hair]
      -- the two ends with the frame taken off the air
      have hpop : At { s with air := Function.update s.air (!x) rest } m
          (Function.update tags (!x) trest) :=
        ⟨h.stands, both (!x) (by simpa using hrest) (by simpa using h.air x)⟩
      -- the frame as both directions have it
      have hout : (flow s m tags !x).out = t.out :: trest.map Tag.out := by simp [flow, htags]
      have hback : (flow s m tags x).back = t.back :: trest.map Tag.back := by simp [flow, htags]
      have hrecv : (flow s m tags !x).recv = (m x).recv := by simp [flow]
      have hitem : ∀ k, t.item = some k → (m x).recv ≤ k ∧ k < (m x).recv + 7 := fun k hk =>
        hrecv ▸ (hinv !x).item_window (by simp [hout]) (show t.out.item = some k from hk)
      have hup : (m x).acked ≤ t.upTo ∧ t.upTo ≤ (m x).next := by
        have hb := (hinv x).answer_bounds t.back (by simp [hback])
        exact ⟨hb.1, hb.2.trans (hinv x).recv_le⟩
      rcases DataLink.l2Process_stands (ports x) env (h.stands x) hf hitem hup with
        ⟨hstands, hnil⟩ | ⟨recv, again, hagain, hle, hle', hstands, hans⟩
      · refine ⟨_, _, hpop.act hstands (by rw [hnil]; exact .nil), both x ?_ ?_⟩
        · rw [flow_act_self]
          have hlose := Step.lose (w := 7) (flow s m tags x) _ _ (.refl _)
            (hback ▸ List.sublist_cons_self _ _)
          refine .single ?_
          simpa [flow] using hlose
        · rw [flow_act_other]
          have hlose := Step.lose (w := 7) (flow s m tags !x) _ _
            (hout ▸ List.sublist_cons_self _ _) (.refl _)
          refine .single ?_
          simpa [flow] using hlose
      · obtain ⟨new, hnew, hform⟩ := exists_tags (s.told x) hans
        refine ⟨_, _, hpop.act hstands hnew, both x ?_ ?_⟩
        · rw [flow_act_self]
          have hheard := Step.heard (w := 7) (flow s m tags x) t.back _ again hback hagain
          have hsend := steps_send (f := { flow s m tags x with
            acked := t.upTo
            next := if again then t.upTo else (m x).next
            back := trest.map Tag.back })
            (hform.imp id fun ⟨final, _, hf⟩ => ⟨final, hf⟩)
          refine .head hheard ?_
          simpa [flow] using hsend
        · rw [flow_act_other]
          have hsteps := steps_answer (hinv !x) hout (hrecv ▸ hle) (hrecv ▸ hle') hform
          simpa [flow] using hsteps

/-- **The refinement.**  A timely step of the pair is matched in both directions. -/
theorem At.step (h : At s m tags) (hinv : ∀ x, Inv 7 (flow s m tags x)) (e : LinkEvent α)
    (hok : Timely ports s e) : Refined s m tags (s.step ports e) := by
  cases e with
  | queue x a => exact h.queue hinv x a
  | sent x => exact h.sent x
  | hear x env => exact h.hear hinv x env
  | lose x i => exact h.lose x i
  | transmit x env =>
      simp only [Timely, LinkPair.step, actOf] at hok ⊢
      split_ifs at hok ⊢ with hstate
      · exact .refl h
      · exact h.transmit x env hok
  | tick x env =>
      simp only [Timely, LinkPair.step, actOf] at hok ⊢
      split_ifs at hok ⊢ with hstate
      · exact .refl h
      · exact h.tick x env hok

/-! ## What the other end gets -/

/-- The numbered session is in order behind the pair. -/
def InStep (s : LinkPair α) : Prop := ∃ m tags, At s m tags ∧ ∀ x, Inv 7 (flow s m tags x)

theorem Fresh.inStep (h : Fresh s) : InStep s := by
  refine ⟨fun _ => ⟨0, 0, 0, 0⟩, fun _ => [], ⟨fun x => ?_, fun x => ?_⟩, fun x => ?_⟩
  · obtain ⟨hnr, hns, hws, hows, hslot⟩ := h.numbers x
    obtain ⟨hframes, hrx⟩ := h.slots x
    obtain ⟨htx, hrxQ, -⟩ := h.queues x
    obtain ⟨hv1, hv2, hdisc, hrej⟩ := h.plain x
    exact
      { nr := hnr, ns := hns, ows := hows, slot := hslot, ws := hws
        acked_le := le_rfl, next_le := le_rfl, in_window := Nat.zero_le _
        covers := hframes ▸ .empty
        queued := htx
        saved := hrx ▸ .empty (by decide)
        handed := by rw [hrxQ, List.take_zero]
        window_pos := (h.window x).1, window_le := (h.window x).2
        version2 := hv1, noSrej := hv2, staying := hdisc, accepted := hrej
        waiting := fun _ => by rw [hrx] }
  · rw [(h.queues x).2.2]
    exact .nil
  · exact .start _

theorem InStep.step (e : LinkEvent α) (h : InStep s) (hok : Timely ports s e) :
    InStep (s.step ports e) := by
  obtain ⟨m, tags, hat, hinv⟩ := h
  obtain ⟨m', tags', hat', hsteps⟩ := hat.step hinv e hok
  exact ⟨m', tags', hat', fun x => (hsteps x).inv (hinv x)⟩

end LinkPair

/-- The frames in the send slots, from the first that is not acknowledged on. -/
def DataLink.held {α : Type} (l : DataLink α) : List α :=
  (List.range 8).filterMap fun i => l.frames ((l.linkOws + i) % 8)

theorem Marked.held_eq {α : Type} {l : DataLink α} {own peer : List α} {m : Marks}
    (h : Marked l own peer m) : l.held = (own.take m.top).drop m.acked := by
  rw [← h.covers.elements, DataLink.held, h.ows]
  simp only [Nat.mod_add_mod]

namespace LinkPair

variable {α : Type} {ports : Bool → LinkPort}

/-- In every timely run of a session, whatever is lost and whatever the two ends do in between: what
an end has handed up is the beginning of what the other end was given to send; what has not been
handed up is still kept by the sender, in its slots and on its queue, in order; and no N(R) has been
rejected. -/
theorem delivered_inOrder {s₀ s : LinkPair α} (hfresh : s₀.Fresh) {es : List (LinkEvent α)}
    (hrun : GuardedRun (step ports) (Timely ports) s₀ es s) (x : Bool) :
    (s.ends !x).rxQ <+: s.told x ∧
      (∃ n ≤ (s.ends !x).rxQ.length, (s.told x).drop n = (s.ends x).held ++ (s.ends x).txQ) ∧
      (s.ends x).sdRejF = false := by
  obtain ⟨m, tags, hat, hinv⟩ := hrun.invariant (fun _ e => InStep.step e) hfresh.inStep
  have hx := hat.stands x
  have hother := hat.stands !x
  rw [Bool.not_not] at hother
  have hrecv : (m !x).recv ≤ (s.told x).length := (hinv x).recv_le.trans (hinv x).next_le
  have hlen : (s.ends !x).rxQ.length = (m !x).recv := by
    rw [hother.handed, List.length_take, min_eq_left hrecv]
  refine ⟨hother.handed ▸ List.take_prefix _ _, ⟨(m x).acked, ?_, ?_⟩, hx.accepted⟩
  · rw [hlen]
    exact (hinv x).acked_le
  · have hle : (m x).acked ≤ (m x).top := hx.acked_le.trans hx.next_le
    have htop : (m x).acked ≤ ((s.told x).take (m x).top).length := by
      rw [List.length_take, min_eq_left hx.covers.inside]
      exact hle
    calc (s.told x).drop (m x).acked
        = ((s.told x).take (m x).top ++ (s.told x).drop (m x).top).drop (m x).acked := by
          rw [List.take_append_drop]
      _ = ((s.told x).take (m x).top).drop (m x).acked ++ (s.told x).drop (m x).top :=
          List.drop_append_of_le_length htop
      _ = (s.ends x).held ++ (s.ends x).txQ := by rw [hx.toMarked.held_eq, hx.queued]

end LinkPair

namespace Bench

open LinkPair LinkEvent

def linkPorts (_ : Bool) : LinkPort := { portT2 := 10, portN2 := 10, t3 := 1800, l2KillTime := 0 }

def linkClock (now : Nat) : LinkEnv :=
  { now := now, seconds := now / 10, busy := false, buffers := 100, jitter := 0 }

/-- Two ends with a window, one of which has been given the first numbers to send. -/
def session (window count : Nat) : LinkPair Nat where
  ends x :=
    { linkWindow := window, l2Time := 40, lastFrameSent := 1
      txQ := if x then List.range count else [] }
  told x := if x then List.range count else []

theorem session_fresh : (session 4 6).Fresh where
  numbers _ := ⟨rfl, rfl, rfl, rfl, rfl⟩
  slots _ := ⟨rfl, rfl⟩
  queues x := by cases x <;> exact ⟨rfl, rfl, rfl⟩
  window _ := ⟨by show 0 < 4; decide, by show 4 ≤ 7; decide⟩
  plain _ := ⟨rfl, rfl, rfl, rfl⟩

/-- The second of four frames is lost, and the four from there on are sent when the answer comes. -/
def oneLost : List (LinkEvent Nat) :=
  [transmit true (linkClock 100), lose true 1] ++ List.replicate 3 (hear false (linkClock 110)) ++
    [hear true (linkClock 120), transmit true (linkClock 120)] ++
    List.replicate 2 (hear false (linkClock 130))

theorem delivered_oneLost :
    ((oneLost.foldl (step linkPorts) (session 4 6)).ends !true).rxQ <+:
        (oneLost.foldl (step linkPorts) (session 4 6)).told true ∧
      (∃ n ≤ ((oneLost.foldl (step linkPorts) (session 4 6)).ends !true).rxQ.length,
        ((oneLost.foldl (step linkPorts) (session 4 6)).told true).drop n =
          ((oneLost.foldl (step linkPorts) (session 4 6)).ends true).held ++
            ((oneLost.foldl (step linkPorts) (session 4 6)).ends true).txQ) ∧
      ((oneLost.foldl (step linkPorts) (session 4 6)).ends true).sdRejF = false :=
  delivered_inOrder session_fresh (.of_chain (by decide +kernel)) true

/-- The retry timer runs out while the answer to the first seven frames is on the air.  The answer
to the poll then has the next seven sent twice, the receiver keeps the copies of frames it has, and
takes one of them for the frame eight further on when that one is lost. -/
def earlyPoll : List (LinkEvent Nat) :=
  transmit true (linkClock 100) :: List.replicate 7 (hear false (linkClock 200)) ++
    sent true :: List.replicate 40 (tick true (linkClock 240)) ++
    [hear true (linkClock 241), transmit true (linkClock 242), hear false (linkClock 243)] ++
    List.replicate 7 (hear false (linkClock 250)) ++
    [hear true (linkClock 251), transmit true (linkClock 252)] ++
    List.replicate 7 (hear false (linkClock 290)) ++
    [hear true (linkClock 291), hear true (linkClock 292), transmit true (linkClock 293),
      hear false (linkClock 300), lose true 0, hear false (linkClock 300)]

/-- Without the condition on the polls the data are not safe: an old frame is handed up in the place
of a new one. -/
theorem not_delivered_earlyPoll :
    ¬ ((earlyPoll.foldl (step linkPorts) (session 7 17)).ends false).rxQ <+:
      (earlyPoll.foldl (step linkPorts) (session 7 17)).told true := by
  decide +kernel

end Bench

end FlexNet
