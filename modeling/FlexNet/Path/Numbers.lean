import FlexNet.Path.Probes
import FlexNet.Path.RoundTrip
import FlexNet.Path.Sysop

/-!
# The numbers of outstanding probes

A probe is told from the other outstanding ones by its QSO number alone, in the frame it sends, in
the answer it waits for, and in the ring that keeps the outcomes of the sysop's own queries.  The
counter wraps around without regard to the slots, slots are used again before the ring is read, and
answers and timeouts come in any order: `numbered_run` says that through all of it the numbers stay
apart, each is the one its frame carries, and an entry of the ring is closed by its own probe alone.
Whatever frame is received is handled in such a run (`reaches_flexNetProcessCE`).
-/

namespace FlexNet

open Runs

/-! ## Runs -/

/-- The text of a queued frame. -/
def WireEvent.text : WireEvent → Option CStr
  | .frame _ data => some data
  | .cleared => none

/-- What a node with the ring of its sysop's queries does about its probes.  A probe may be sent for
the sysop or for anybody else; `other` is whatever leaves the probes and the counter alone. -/
inductive NumberStep
  | send (dest : Option ℕ) (call : Callsign) (ssid : ℤ)
  | sysop (call : CStr) (ssid : ℤ)
  | answer (f : PathFrame)
  | expire (p : ProbeSlot)
  | other (m : PathNode)

namespace SysopNode

variable (n m : SysopNode)

/-- One step of the node; an answer no probe waits for is somebody else's. -/
def next : NumberStep → SysopNode
  | .send dest call ssid => (n.flexSendPathReqEx dest call ssid).1
  | .sysop call ssid => (n.flexCmdProbeSend call ssid).1
  | .answer f => (n.matchedProbe f.qso).elim n fun p => n.answerProbe p f
  | .expire p => n.expirePathProbe p
  | .other m => { n with toPathNode := { m with probes := n.probes, qsoCounter := n.qsoCounter } }

/-- The probe a step ends. -/
def ends : NumberStep → Option ProbeSlot
  | .answer f => n.matchedProbe f.qso
  | .expire p =>
    if (n.probes p).active ∧ pathProbeTimeout < n.now - (n.probes p).sentTime then some p else none
  | _ => none

/-- The frame a step put on a transmit queue, if a buffer was found for it. -/
def queued : Option CStr :=
  (slots.find? fun s => decide ((m.peers s).wire.length ≠ (n.peers s).wire.length)).bind fun s =>
    (m.peers s).wire.getLast?.bind WireEvent.text

end SysopNode

/-- A node with the history of its probes.  A probe goes by the number of the step that sent it:
`serial` is the probe of each slot, `frame` what it put on the wire, `owner` the probe each entry of
the ring was made for.  `closed` lists the entries that got their outcome, each with its owner and
with the probe whose outcome it was. -/
structure Numbering where
  node : SysopNode
  steps : ℕ := 0
  serial : ProbeSlot → ℕ := fun _ => 0
  frame : ProbeSlot → Option CStr := fun _ => none
  owner : RingSlot → ℕ := fun _ => 0
  closed : List (ℕ × Option ℕ) := []

namespace Numbering

variable {r : Numbering} {n m : SysopNode} {p q : ProbeSlot} {i j : RingSlot}

/-- A node that has sent no probe yet, whatever its counter. -/
def start (n : PathNode) : Numbering := { node := { n with probes := fun _ => {} } }

/-- One step, with the history kept. -/
def apply (r : Numbering) (step : NumberStep) : Numbering :=
  let m := r.node.next step
  let isNew := fun p => !(r.node.probes p).active && (m.probes p).active
  let isMade := fun i =>
    decide (m.sysopProbeNext ≠ r.node.sysopProbeNext) && decide (i = r.node.sysopProbeNext)
  let isClosed := fun i => (r.node.sysopProbes i).waits && !(m.sysopProbes i).waits
  { node := m
    steps := r.steps + 1
    serial := fun p => if isNew p then r.steps else r.serial p
    frame := fun p => if isNew p then r.node.queued m else r.frame p
    owner := fun i => if isMade i then r.steps else r.owner i
    closed := r.closed ++ ((List.finRange sysopProbeRing).filter isClosed).map fun i =>
      (r.owner i, (r.node.ends step).map r.serial) }

/-- The number a frame carries, read from its five digits. -/
def Carries (data : CStr) (qso : ℤ) : Prop :=
  ∃ f, flexParsePathFrame data = some f ∧ f.isReply = false ∧ f.qso = qso

/-- The outstanding probes are told apart by their numbers, and so are their outcomes. -/
structure Numbered (r : Numbering) : Prop where
  distinct : ∀ p q, (r.node.probes p).active = true → (r.node.probes q).active = true →
    (r.node.probes p).qso = (r.node.probes q).qso → p = q
  nonzero : ∀ p, (r.node.probes p).active = true →
    1 ≤ (r.node.probes p).qso ∧ (r.node.probes p).qso ≤ 65535
  carried : ∀ p data, (r.node.probes p).active = true → r.frame p = some data →
    Carries data (r.node.probes p).qso
  closed : ∀ c ∈ r.closed, c.2 = some c.1

/-- What keeps the ring right: a waiting entry with the number of a probe that names it was made for
that probe, and no two outstanding probes were sent by one step. -/
structure Kept (r : Numbering) : Prop extends Numbered r where
  past : ∀ p, (r.node.probes p).active = true → r.serial p < r.steps
  apart : ∀ p q, (r.node.probes p).active = true → (r.node.probes q).active = true →
    r.serial p = r.serial q → p = q
  owned : ∀ (p : ProbeSlot) (i : RingSlot),
    (r.node.probes p).active = true → r.node.sysopRing p = i + 1 →
    (r.node.sysopProbes i).waits = true → (r.node.sysopProbes i).qso = (r.node.probes p).qso →
    r.owner i = r.serial p

/-! ## What a step does -/

/-- A probe goes out from a free slot, under a number no outstanding one has. -/
structure Sends (n m : SysopNode) (p : ProbeSlot) : Prop where
  free : (n.probes p).active = false
  active : (m.probes p).active = true
  others : ∀ q, q ≠ p → m.probes q = n.probes q
  range : 1 ≤ (m.probes p).qso ∧ (m.probes p).qso ≤ 65535
  fresh : ∀ q, (n.probes q).active = true → (n.probes q).qso ≠ (m.probes p).qso
  carries : ∀ data, n.queued m = some data → Carries data (m.probes p).qso
  ringOthers : ∀ q, q ≠ p → m.sysopRing q = n.sysopRing q

/-- The probe is nobody's. -/
structure Background (n m : SysopNode) (p : ProbeSlot) : Prop where
  ring : m.sysopRing p = 0
  entries : m.sysopProbes = n.sysopProbes
  next : m.sysopProbeNext = n.sysopProbeNext

/-- The probe is the sysop's, and the next entry is about it. -/
structure Sysop (n m : SysopNode) (p : ProbeSlot) : Prop where
  ring : m.sysopRing p = n.sysopProbeNext + 1
  entry : (m.sysopProbes n.sysopProbeNext).waits = true
  number : (m.sysopProbes n.sysopProbeNext).qso = (m.probes p).qso
  others : ∀ i, i ≠ n.sysopProbeNext → m.sysopProbes i = n.sysopProbes i
  next : m.sysopProbeNext = ringNext n.sysopProbeNext

/-- The probes and the ring are as they were. -/
structure Rests (n m : SysopNode) : Prop where
  probes : m.probes = n.probes
  ring : m.sysopRing = n.sysopRing
  entries : m.sysopProbes = n.sysopProbes
  next : m.sysopProbeNext = n.sysopProbeNext

/-- A probe is over, and with it the entry it names, if that waits under its number. -/
structure Ends (n m : SysopNode) (p : ProbeSlot) : Prop where
  active : (n.probes p).active = true
  done : (m.probes p).active = false
  others : ∀ q, q ≠ p → m.probes q = n.probes q
  ring : m.sysopRing = n.sysopRing
  next : m.sysopProbeNext = n.sysopProbeNext
  entries : ∀ i, m.sysopProbes i = n.sysopProbes i ∨ (m.sysopProbes i).waits = false ∧
    n.sysopRing p = i + 1 ∧ (n.sysopProbes i).qso = (n.probes p).qso

end Numbering

/-! ### A probe that goes out -/

/-- A number that was found is none of the reserved ones. -/
theorem freshQso_range {taken : ℤ → Bool} {tries : ℕ} {c c' : UInt16} {qso : ℤ}
    (h : freshQso taken tries c = (c', some qso)) : 1 ≤ qso ∧ qso ≤ 65535 := by
  obtain ⟨t, -, rfl, rfl, -, -⟩ := freshQso_some h
  rw [Function.iterate_succ_apply', toNat_nextQso]
  omega

/-- The five digits of a request that was built are read back, whatever its callsigns. -/
theorem carries_flexBuildPathReq {buflen : ℕ} {qso : ℤ} {trace : Bool}
    {origin nextHop target data : CStr} (h₀ : 0 ≤ qso) (h₁ : qso < 100000)
    (h : flexBuildPathReq buflen qso trace origin nextHop target = some data) :
    Numbering.Carries data qso := by
  have hlen := length_qsoField qso trace
  have hread := (parseQso_qsoField trace h₀ h₁).1
  unfold flexBuildPathReq at h
  dsimp only at h
  split at h
  · cases h
  · obtain rfl := Option.some.inj h
    unfold Numbering.Carries flexParsePathFrame
    have hlong : ¬ ([0x36, 0x21] ++ qsoField qso trace ++ origin ++ 0x20 :: nextHop ++
        0x20 :: target : CStr).length < pathHeaderLen := by
      simp only [List.length_append, List.length_cons, List.length_nil, hlen, pathHeaderLen]
      omega
    rw [if_neg hlong, if_neg (by simp)]
    refine ⟨_, rfl, rfl, (congrArg parseQso ?_).trans hread⟩
    simp only [List.append_assoc, List.cons_append, List.nil_append, List.drop_succ_cons,
      List.drop_zero]
    exact List.take_left' hlen

namespace PathNode

variable {n m : PathNode} {dest : Option ℕ} {call : Callsign} {ssid : ℤ} {p : ProbeSlot}

/-- A probe that goes out takes a free slot. -/
theorem slot_free (h : n.flexSendPathReqEx dest call ssid = (m, .ok p)) :
    (n.probes p).active = false := by
  unfold flexSendPathReqEx at h
  split at h
  · cases h
  · rename_i i hi
    dsimp only at h
    split at h
    · cases h
    · split at h
      · cases h
      · split at h
        · cases h
        · cases h
          simpa using List.find?_some hi

/-- Where nothing is sent the probes are as they were. -/
theorem probes_error {e : ProbeErr} (h : n.flexSendPathReqEx dest call ssid = (m, .error e)) :
    m.probes = n.probes := by
  have hvia := (n.flexProbeSession_probes dest (probeTarget call ssid)).1
  rcases n.flexSendPathReqEx_cases dest call ssid with
    ⟨_, hc⟩ | ⟨_, _, hc⟩ | ⟨_, _, _, _, _, hc⟩ <;>
    rw [hc] at h <;> cases h
  exacts [rfl, hvia]

end PathNode

namespace SysopNode

variable {n m : SysopNode} {dest : Option ℕ} {call : Callsign} {ssid : ℤ} {p : ProbeSlot}

/-- The frame on a queue that alone gained one. -/
theorem queued_eq {e : Env} {s : Slot} {frame data : CStr}
    (hpeers : m.peers = Function.update n.peers s (e.flexSendFrame s pidCE frame (n.peers s)))
    (h : n.queued m = some data) : data = frame := by
  unfold queued at h
  obtain ⟨i, hi, hlast⟩ := Option.bind_eq_some_iff.mp h
  have hgrew := List.find?_some hi
  rw [decide_eq_true_eq, hpeers] at hgrew
  rw [hpeers] at hlast
  by_cases his : i = s
  · subst his
    rw [Function.update_self] at hgrew hlast
    unfold Env.flexSendFrame at hgrew hlast
    split at hgrew
    · rename_i hbuff
      rw [if_pos hbuff, List.getLast?_append] at hlast
      exact (Option.some.inj hlast).symm
    · exact absurd rfl hgrew
  · rw [Function.update_of_ne his] at hgrew
    exact absurd rfl hgrew

end SysopNode

namespace Numbering

variable {n m : SysopNode} {dest : Option ℕ} {call : Callsign} {ssid : ℤ} {p : ProbeSlot}

theorem sends_flexSendPathReqEx (h : n.flexSendPathReqEx dest call ssid = (m, .ok p)) :
    Sends n m p ∧ Background n m p := by
  unfold SysopNode.flexSendPathReqEx at h
  split at h
  · cases h
  · rename_i k i hsent
    cases h
    have hfree := PathNode.slot_free hsent
    obtain ⟨n', s, counter, qso, frame, hvia, hqso, hframe, rfl⟩ :=
      PathNode.flexSendPathReqEx_ok hsent
    obtain ⟨hprobes, -, hpeers, -⟩ :=
      n.toPathNode.flexProbeSession_probes dest (PathNode.probeTarget call ssid)
    rw [hvia] at hprobes hpeers
    have hrange := freshQso_range hqso
    obtain ⟨-, -, -, -, hnot, -⟩ := freshQso_some hqso
    refine ⟨⟨hfree, ?_, fun q hq => ?_, ?_, fun q hq => ?_, fun data hdata => ?_, fun q hq => ?_⟩,
      ?_, rfl, rfl⟩
    · simp [PathNode.sendProbe]
    · change Function.update n'.probes p _ q = _
      rw [Function.update_of_ne hq, hprobes]
    · simpa [PathNode.sendProbe] using hrange
    · simp only [PathNode.pendingQso, List.any_eq_false, Bool.and_eq_true, decide_eq_true_eq,
        not_and] at hnot
      have hother := hnot q (List.mem_finRange q)
      rw [hprobes] at hother
      simpa [PathNode.sendProbe] using hother hq
    · have hsame : data = frame := SysopNode.queued_eq (e := n'.toEnv) (s := s) (by
        rw [← hpeers]
        rfl) hdata
      rw [hsame]
      simpa [PathNode.sendProbe] using carries_flexBuildPathReq (by omega) (by omega) hframe
    · exact Function.update_of_ne hq _ _
    · exact Function.update_self ..

theorem rests_flexSendPathReqEx {e : ProbeErr}
    (h : n.flexSendPathReqEx dest call ssid = (m, .error e)) : Rests n m := by
  unfold SysopNode.flexSendPathReqEx at h
  split at h
  · rename_i k e' herr
    cases h
    exact ⟨PathNode.probes_error herr, rfl, rfl, rfl⟩
  · cases h

theorem ringNext_ne (i : RingSlot) : ringNext i ≠ i := by
  intro h
  have hval := congrArg Fin.val h
  have hi : (i : ℕ) < 8 := i.isLt
  change ((i : ℕ) + 1) % 8 = i at hval
  omega

/-- The sysop's query is a probe with its entry, or nothing. -/
theorem rests_or_sends_flexCmdProbeSend (n : SysopNode) (call : CStr) (ssid : ℤ) :
    Rests n (n.flexCmdProbeSend call ssid).1 ∨
      ∃ p, Sends n (n.flexCmdProbeSend call ssid).1 p ∧
        Sysop n (n.flexCmdProbeSend call ssid).1 p := by
  have hrests : Rests n n := ⟨rfl, rfl, rfl, rfl⟩
  unfold SysopNode.flexCmdProbeSend
  extract_lets wait
  split
  · exact .inl hrests
  split
  · exact .inl hrests
  rename_i di _
  split
  · exact .inl hrests
  rename_i d _
  extract_lets useSsid target
  split
  · exact .inl hrests
  split
  · rename_i herr
    exact .inl (rests_flexSendPathReqEx herr)
  · rename_i herr
    exact .inl (rests_flexSendPathReqEx herr)
  · rename_i herr
    exact .inl (rests_flexSendPathReqEx herr)
  · rename_i m p hsent
    obtain ⟨hsends, hbackground⟩ := sends_flexSendPathReqEx hsent
    refine .inr ⟨p, ⟨hsends.free, hsends.active, hsends.others, hsends.range, hsends.fresh,
      hsends.carries, fun q hq => ?_⟩, ?_, ?_, ?_, fun i hi => ?_, ?_⟩
    · exact (Function.update_of_ne hq _ _).trans (hsends.ringOthers q hq)
    · rw [← hbackground.next]
      exact Function.update_self ..
    · rw [← hbackground.next]
      change (Function.update m.sysopProbes m.sysopProbeNext _ m.sysopProbeNext).waits = true
      rw [Function.update_self]
      rfl
    · rw [← hbackground.next]
      change (Function.update m.sysopProbes m.sysopProbeNext _ m.sysopProbeNext).qso = _
      rw [Function.update_self]
      rfl
    · rw [← hbackground.next] at hi
      rw [← hbackground.entries]
      exact Function.update_of_ne hi _ _
    · rw [← hbackground.next]
      rfl

/-! ### A probe that is over -/

/-- An entry is closed under its own number, or nothing happens. -/
theorem flexSysopProbeClose_entries (n : SysopNode) (ring : ℕ) (qso : ℤ) {state : SysopState}
    (hstate : state ≠ .pending) (hops : List Callsign) (now : ℤ) (i : RingSlot) :
    (n.flexSysopProbeClose ring qso state hops now).sysopProbes i = n.sysopProbes i ∨
      ((n.flexSysopProbeClose ring qso state hops now).sysopProbes i).waits = false ∧
        ring = i + 1 ∧ (n.sysopProbes i).qso = qso := by
  unfold SysopNode.flexSysopProbeClose
  split
  · exact .inl rfl
  · rename_i hring
    extract_lets j r
    split
    · exact .inl rfl
    · rename_i hopen
      by_cases hij : i = j
      · subst hij
        push Not at hopen
        refine .inr ⟨?_, ?_, hopen.2.1⟩
        · change (Function.update n.sysopProbes j _ j).waits = false
          rw [Function.update_self]
          simp [SysopProbe.waits, hstate]
        · change ring = ring - 1 + 1
          omega
      · exact .inl (Function.update_of_ne hij _ _)

/-- Nothing but the entries of the ring changes. -/
theorem flexSysopProbeClose_rest (n : SysopNode) (ring : ℕ) (qso : ℤ) (state : SysopState)
    (hops : List Callsign) (now : ℤ) :
    (n.flexSysopProbeClose ring qso state hops now).toPathNode = n.toPathNode ∧
      (n.flexSysopProbeClose ring qso state hops now).sysopRing = n.sysopRing ∧
      (n.flexSysopProbeClose ring qso state hops now).sysopProbeNext = n.sysopProbeNext := by
  unfold SysopNode.flexSysopProbeClose
  split
  · exact ⟨rfl, rfl, rfl⟩
  · extract_lets j r
    split <;> exact ⟨rfl, rfl, rfl⟩

theorem ends_answerProbe {f : PathFrame} (h : n.matchedProbe f.qso = some p) :
    Ends n (n.answerProbe p f) p := by
  have hmatch := List.find?_some h
  rw [Bool.and_eq_true, decide_eq_true_eq] at hmatch
  have hstate : n.answerState (n.probes p) f.hops ≠ .pending := by
    unfold SysopNode.answerState
    split_ifs <;> decide
  obtain ⟨-, hring, hnext⟩ := flexSysopProbeClose_rest n (n.sysopRing p) f.qso
    (n.answerState (n.probes p) f.hops) f.hops n.now
  have hprobes : (n.cacheAnswer (n.probes p) f.hops).probes = n.probes := by
    unfold PathNode.cacheAnswer
    split
    · rfl
    split
    · rfl
    split <;> rfl
  refine ⟨hmatch.1, ?_, fun q hq => ?_, hring, hnext, fun i => ?_⟩
  · unfold SysopNode.answerProbe PathNode.noteAnswer
    dsimp only
    rw [Function.update_self]
  · change Function.update (n.cacheAnswer (n.probes p) f.hops).probes p _ q = _
    rw [Function.update_of_ne hq, hprobes]
  · rw [hmatch.2]
    exact flexSysopProbeClose_entries n (n.sysopRing p) f.qso hstate f.hops n.now i

theorem ends_expirePathProbe (h : n.ends (.expire p) = some p) :
    Ends n (n.expirePathProbe p) p := by
  unfold SysopNode.ends at h
  dsimp only at h
  split at h
  · rename_i hlate
    obtain ⟨hpath, hring, hnext⟩ := flexSysopProbeClose_rest n (n.sysopRing p) (n.probes p).qso
      .timeout [] n.now
    unfold SysopNode.expirePathProbe
    rw [if_pos hlate]
    refine ⟨hlate.1, ?_, fun q hq => ?_, hring, hnext, fun i => ?_⟩
    · dsimp only
      rw [Function.update_self]
    · change Function.update _ p _ q = _
      rw [Function.update_of_ne hq, hpath]
    · exact flexSysopProbeClose_entries n (n.sysopRing p) (n.probes p).qso (by decide) [] n.now i
  · cases h

/-! ## What a run keeps -/

section History

variable {r : Numbering} {step : NumberStep} {p q : ProbeSlot} {i : RingSlot}

/-- A slot whose probe was outstanding before, or is not afterwards. -/
theorem apply_old (h : (r.node.probes p).active = true ∨
    ((r.node.next step).probes p).active = false) :
    (r.apply step).serial p = r.serial p ∧ (r.apply step).frame p = r.frame p := by
  have hold : (!(r.node.probes p).active && ((r.node.next step).probes p).active) = false := by
    rcases h with h | h <;> simp [h]
  exact ⟨if_neg (by simp [hold]), if_neg (by simp [hold])⟩

/-- The slot of the probe a step sent. -/
theorem apply_new (hfree : (r.node.probes p).active = false)
    (hactive : ((r.node.next step).probes p).active = true) :
    (r.apply step).serial p = r.steps ∧
      (r.apply step).frame p = r.node.queued (r.node.next step) :=
  ⟨if_pos (by simp [hfree, hactive]), if_pos (by simp [hfree, hactive])⟩

theorem owner_old (h : (r.node.next step).sysopProbeNext = r.node.sysopProbeNext ∨
    i ≠ r.node.sysopProbeNext) : (r.apply step).owner i = r.owner i :=
  if_neg (by rcases h with h | h <;> simp [h])

theorem owner_new (h : (r.node.next step).sysopProbeNext = ringNext r.node.sysopProbeNext) :
    (r.apply step).owner r.node.sysopProbeNext = r.steps :=
  if_pos (by simp [h, ringNext_ne])

/-- An entry on the list was on it before, or has just got its outcome. -/
theorem mem_closed_apply {c : ℕ × Option ℕ} (hc : c ∈ (r.apply step).closed) :
    c ∈ r.closed ∨ ∃ i, (r.node.sysopProbes i).waits = true ∧
      ((r.node.next step).sysopProbes i).waits = false ∧
        c = (r.owner i, (r.node.ends step).map r.serial) := by
  rcases List.mem_append.mp hc with hc | hc
  · exact .inl hc
  · obtain ⟨i, hi, rfl⟩ := List.mem_map.mp hc
    have hclosed := (List.mem_filter.mp hi).2
    rw [Bool.and_eq_true, Bool.not_eq_true'] at hclosed
    exact .inr ⟨i, hclosed.1, hclosed.2, rfl⟩

/-- Where the probes and the ring rest, so does their history. -/
theorem Kept.rests (h : r.Kept) (hrests : Rests r.node (r.node.next step)) :
    (r.apply step).Kept := by
  have hprobe : ∀ p, ((r.apply step).node.probes p) = r.node.probes p := congrFun hrests.probes
  have hold : ∀ p, (r.apply step).serial p = r.serial p ∧ (r.apply step).frame p = r.frame p := by
    intro p
    refine apply_old ?_
    rw [hrests.probes]
    cases (r.node.probes p).active
    · exact .inr rfl
    · exact .inl rfl
  have howner : ∀ i, (r.apply step).owner i = r.owner i := fun i => owner_old (.inl hrests.next)
  constructor
  · constructor
    · intro p q
      rw [hprobe, hprobe]
      exact h.distinct p q
    · intro p
      rw [hprobe]
      exact h.nonzero p
    · intro p data
      rw [hprobe, (hold p).2]
      exact h.carried p data
    · intro c hc
      rcases mem_closed_apply hc with hc | ⟨i, hwaits, hclosed, -⟩
      · exact h.closed c hc
      · rw [hrests.entries, hwaits] at hclosed
        cases hclosed
  · intro p
    rw [hprobe, (hold p).1]
    exact fun hp => Nat.lt_succ_of_lt (h.past p hp)
  · intro p q
    rw [hprobe, hprobe, (hold p).1, (hold q).1]
    exact h.apart p q
  · intro p i
    rw [hprobe, howner, (hold p).1]
    change _ → (r.node.next step).sysopRing p = _ → ((r.node.next step).sysopProbes i).waits = _ →
      ((r.node.next step).sysopProbes i).qso = _ → _
    rw [hrests.ring, hrests.entries]
    exact h.owned p i

/-- The probes that were outstanding stay as they were, with their history, when another goes
out. -/
theorem sends_old (hsends : Sends r.node (r.node.next step) p) {q : ProbeSlot} (hq : q ≠ p) :
    (r.apply step).node.probes q = r.node.probes q ∧ (r.apply step).serial q = r.serial q ∧
      (r.apply step).frame q = r.frame q := by
  refine ⟨hsends.others q hq, apply_old ?_⟩
  rw [hsends.others q hq]
  cases (r.node.probes q).active
  · exact .inr rfl
  · exact .inl rfl

/-- What tells the outstanding probes apart still does, when the new one has a value of its own. -/
theorem apart_sends {α : Type} {v w : ProbeSlot → α} (hsends : Sends r.node (r.node.next step) p)
    (hsame : ∀ q, q ≠ p → w q = v q) (hfresh : ∀ q, (r.node.probes q).active = true → v q ≠ w p)
    (h : ∀ q q', (r.node.probes q).active = true → (r.node.probes q').active = true →
      v q = v q' → q = q') {q q' : ProbeSlot}
    (hq : ((r.apply step).node.probes q).active = true)
    (hq' : ((r.apply step).node.probes q').active = true) (heq : w q = w q') : q = q' := by
  have hactive : ∀ q, q ≠ p → ((r.apply step).node.probes q).active = true →
      (r.node.probes q).active = true := fun q hqp hq => (sends_old hsends hqp).1 ▸ hq
  by_cases hqp : q = p
  · by_cases hqp' : q' = p
    · rw [hqp, hqp']
    · rw [hqp, hsame q' hqp'] at heq
      exact absurd heq.symm (hfresh q' (hactive q' hqp' hq'))
  · by_cases hqp' : q' = p
    · rw [hqp', hsame q hqp] at heq
      exact absurd heq (hfresh q (hactive q hqp hq))
    · rw [hsame q hqp, hsame q' hqp'] at heq
      exact h q q' (hactive q hqp hq) (hactive q' hqp' hq') heq

theorem Kept.sends_numbered (h : r.Kept) (hsends : Sends r.node (r.node.next step) p)
    (hring : Background r.node (r.node.next step) p ∨ Sysop r.node (r.node.next step) p) :
    (r.apply step).Numbered := by
  obtain ⟨-, hframe⟩ := apply_new hsends.free hsends.active
  constructor
  · intro q q' hq hq' hsame
    exact apart_sends (v := fun q => (r.node.probes q).qso)
      (w := fun q => ((r.apply step).node.probes q).qso) hsends
      (fun q hqp => by rw [(sends_old hsends hqp).1]) hsends.fresh h.distinct hq hq' hsame
  · intro q hq
    by_cases hqp : q = p
    · rw [hqp]
      exact hsends.range
    · rw [(sends_old hsends hqp).1] at hq ⊢
      exact h.nonzero q hq
  · intro q data hq hdata
    by_cases hqp : q = p
    · rw [hqp] at hdata ⊢
      exact hsends.carries data (hframe.symm.trans hdata)
    · rw [(sends_old hsends hqp).2.2] at hdata
      rw [(sends_old hsends hqp).1] at hq ⊢
      exact h.carried q data hq hdata
  · intro c hc
    rcases mem_closed_apply hc with hc | ⟨i, hwaits, hclosed, -⟩
    · exact h.closed c hc
    -- an entry that is made waits, and the others are as they were
    · rcases hring with hring | hring
      · rw [hring.entries, hwaits] at hclosed
        cases hclosed
      · by_cases hi : i = r.node.sysopProbeNext
        · rw [hi, hring.entry] at hclosed
          cases hclosed
        · rw [hring.others i hi, hwaits] at hclosed
          cases hclosed

/-- The entry of the new probe, and no other, was made for it. -/
theorem Kept.sends_owned (h : r.Kept) (hsends : Sends r.node (r.node.next step) p)
    (hring : Background r.node (r.node.next step) p ∨ Sysop r.node (r.node.next step) p)
    {q : ProbeSlot} {i : RingSlot} (hq : ((r.apply step).node.probes q).active = true)
    (hnames : (r.node.next step).sysopRing q = i + 1)
    (hwaits : ((r.node.next step).sysopProbes i).waits = true)
    (hqso : ((r.node.next step).sysopProbes i).qso = ((r.apply step).node.probes q).qso) :
    (r.apply step).owner i = (r.apply step).serial q := by
  obtain ⟨hserial, -⟩ := apply_new hsends.free hsends.active
  by_cases hqp : q = p
  · rw [hqp] at hnames
    rcases hring with hring | hring
    · rw [hring.ring] at hnames
      omega
    · obtain rfl : i = r.node.sysopProbeNext := Fin.ext (by
        have := hring.ring.symm.trans hnames
        omega)
      rw [hqp, hserial]
      exact owner_new hring.next
  · obtain ⟨hprobe, hold, -⟩ := sends_old hsends hqp
    rw [hsends.ringOthers q hqp] at hnames
    rw [hprobe] at hq hqso
    rw [hold]
    rcases hring with hring | hring
    · rw [owner_old (.inl hring.next)]
      rw [hring.entries] at hwaits hqso
      exact h.owned q i hq hnames hwaits hqso
    · by_cases hi : i = r.node.sysopProbeNext
      -- the entry of the new probe has the new number, which the old one has not
      · rw [hi, hring.number] at hqso
        exact absurd hqso.symm (hsends.fresh q hq)
      · rw [owner_old (.inr hi)]
        rw [hring.others i hi] at hwaits hqso
        exact h.owned q i hq hnames hwaits hqso

/-- A probe that goes out gets a number and a place of its own. -/
theorem Kept.sends (h : r.Kept) (hsends : Sends r.node (r.node.next step) p)
    (hring : Background r.node (r.node.next step) p ∨ Sysop r.node (r.node.next step) p) :
    (r.apply step).Kept := by
  obtain ⟨hserial, -⟩ := apply_new hsends.free hsends.active
  refine ⟨h.sends_numbered hsends hring, fun q hq => ?_, fun q q' hq hq' hsame => ?_,
    fun q i hq => h.sends_owned hsends hring hq⟩
  · by_cases hqp : q = p
    · rw [hqp, hserial]
      exact Nat.lt_succ_self _
    · rw [(sends_old hsends hqp).1] at hq
      rw [(sends_old hsends hqp).2.1]
      exact Nat.lt_succ_of_lt (h.past q hq)
  · refine apart_sends hsends (fun q hqp => (sends_old hsends hqp).2.1) (fun q hq => ?_) h.apart
      hq hq' hsame
    rw [hserial]
    exact (h.past q hq).ne

/-- An outcome closes the entry of its own probe. -/
theorem Kept.ends (h : r.Kept) (hends : r.node.ends step = some p)
    (hover : Ends r.node (r.node.next step) p) : (r.apply step).Kept := by
  -- the probes that are outstanding afterwards are the others, as they were
  have hother : ∀ q, ((r.node.next step).probes q).active = true → q ≠ p ∧
      (r.node.next step).probes q = r.node.probes q := by
    intro q hq
    have hne : q ≠ p := by
      rintro rfl
      rw [hover.done] at hq
      cases hq
    exact ⟨hne, hover.others q hne⟩
  have hold : ∀ q, ((r.node.next step).probes q).active = true →
      (r.node.probes q).active = true ∧ (r.apply step).node.probes q = r.node.probes q ∧
        (r.apply step).serial q = r.serial q ∧ (r.apply step).frame q = r.frame q := by
    intro q hq
    obtain ⟨-, hsame⟩ := hother q hq
    have hactive : (r.node.probes q).active = true := by rwa [hsame] at hq
    exact ⟨hactive, hsame, apply_old (.inl hactive)⟩
  constructor
  · constructor
    · intro q q' hq hq' hqso
      obtain ⟨hq, hsame, -⟩ := hold q hq
      obtain ⟨hq', hsame', -⟩ := hold q' hq'
      rw [hsame, hsame'] at hqso
      exact h.distinct q q' hq hq' hqso
    · intro q hq
      obtain ⟨hq, hsame, -⟩ := hold q hq
      rw [hsame]
      exact h.nonzero q hq
    · intro q data hq hdata
      obtain ⟨hq, hsame, -, hframe⟩ := hold q hq
      rw [hframe] at hdata
      rw [hsame]
      exact h.carried q data hq hdata
    · intro c hc
      rcases mem_closed_apply hc with hc | ⟨i, hwaits, hclosed, rfl⟩
      · exact h.closed c hc
      · rcases hover.entries i with hsame | ⟨-, hnames, hqso⟩
        · rw [hsame, hwaits] at hclosed
          cases hclosed
        · rw [hends, h.owned p i hover.active hnames hwaits hqso]
          rfl
  · intro q hq
    obtain ⟨hq, -, hserial, -⟩ := hold q hq
    rw [hserial]
    exact Nat.lt_succ_of_lt (h.past q hq)
  · intro q q' hq hq' hsame
    obtain ⟨hq, -, hserial, -⟩ := hold q hq
    obtain ⟨hq', -, hserial', -⟩ := hold q' hq'
    rw [hserial, hserial'] at hsame
    exact h.apart q q' hq hq' hsame
  · intro q i hq hnames hwaits hqso
    obtain ⟨hq, hprobe, hserial, -⟩ := hold q hq
    rw [hprobe] at hqso
    rw [owner_old (.inl hover.next), hserial]
    change (r.node.next step).sysopRing q = _ at hnames
    change ((r.node.next step).sysopProbes i).waits = _ at hwaits
    change ((r.node.next step).sysopProbes i).qso = _ at hqso
    rw [hover.ring] at hnames
    rcases hover.entries i with hsame | ⟨hgone, -⟩
    · rw [hsame] at hwaits hqso
      exact h.owned q i hq hnames hwaits hqso
    · rw [hgone] at hwaits
      cases hwaits

/-- One step of a run. -/
theorem Kept.apply (h : r.Kept) (step : NumberStep) : (r.apply step).Kept := by
  have hsame : r.node.next step = r.node → (r.apply step).Kept := fun hnext =>
    h.rests (by
      rw [hnext]
      exact ⟨rfl, rfl, rfl, rfl⟩)
  cases step with
  | send dest call ssid =>
      cases hres : r.node.flexSendPathReqEx dest call ssid with
      | mk m sent =>
          have hnext : r.node.next (.send dest call ssid) = m := congrArg Prod.fst hres
          cases sent with
          | error e =>
              refine h.rests ?_
              rw [hnext]
              exact rests_flexSendPathReqEx hres
          | ok p =>
              obtain ⟨hsends, hring⟩ := sends_flexSendPathReqEx hres
              rw [← hnext] at hsends hring
              exact h.sends hsends (.inl hring)
  | sysop call ssid =>
      rcases rests_or_sends_flexCmdProbeSend r.node call ssid with hrests | ⟨p, hsends, hring⟩
      · exact h.rests hrests
      · exact h.sends hsends (.inr hring)
  | answer f =>
      cases hmatch : r.node.matchedProbe f.qso with
      | none =>
          refine hsame ?_
          unfold SysopNode.next
          dsimp only
          rw [hmatch]
          rfl
      | some p =>
          have hnext : r.node.next (.answer f) = r.node.answerProbe p f := by
            unfold SysopNode.next
            dsimp only
            rw [hmatch]
            rfl
          refine h.ends hmatch ?_
          rw [hnext]
          exact ends_answerProbe hmatch
  | expire p =>
      by_cases hlate : (r.node.probes p).active ∧
          pathProbeTimeout < r.node.now - (r.node.probes p).sentTime
      · have hends : r.node.ends (.expire p) = some p := if_pos hlate
        exact h.ends hends (ends_expirePathProbe hends)
      · exact hsame (if_neg hlate)
  | other m => exact h.rests ⟨rfl, rfl, rfl, rfl⟩

end History

theorem kept_start (n : PathNode) : (start n).Kept where
  distinct _ _ h := by cases h
  nonzero _ h := by cases h
  carried _ _ h := by cases h
  closed _ h := by cases h
  past _ h := by cases h
  apart _ _ h := by cases h
  owned _ _ h := by cases h

/-- Pending probes are uniquely numbered: whatever is sent, answered and timed out, and wherever the
counter starts, the outstanding probes have different numbers from 1 to 65535, each the one its
frame carries in its five digits, and an entry of the sysop's ring gets its outcome from the probe
it was made for. -/
theorem numbered_run (n : PathNode) (steps : List NumberStep) :
    (steps.foldl apply (start n)).Numbered := by
  have hkept : (steps.foldl apply (start n)).Kept := by
    refine (Run.of_foldl apply (start n) steps).invariant (I := Kept) ?_ (kept_start n)
    intro r step h _
    exact h.apply step
  exact hkept.toNumbered

set_option maxRecDepth 10000 in
/-- The sysop of the small node asks for `K`, and the answer closes its entry. -/
example : ((start PathNode.small).apply (.sysop [0x4B] (-1))).frame 0 =
      some [0x36, 0x21, 0x20, 0x20, 0x20, 0x20, 0x31, 0x4E, 0x20, 0x41, 0x20, 0x4B, 0x2D, 0x30] ∧
    (((start PathNode.small).apply (.sysop [0x4B] (-1))).apply
      (.answer ⟨true, 1, false, 3, .ofCStr [0x4E], [.ofCStr [0x41], .ofCStr [0x4B]]⟩)).closed =
      [(0, some 0)] := by
  decide +kernel

/-! ## Frames and timeouts are runs -/

/-- The node gets from one state to another by such steps. -/
def Reaches (n m : PathNode) : Prop :=
  ∀ r : Numbering, r.node.toPathNode = n →
    ∃ steps : List NumberStep, (steps.foldl apply r).node.toPathNode = m

section Reaches

variable {n m : PathNode} {f : PathFrame} {data : CStr} {p : ProbeSlot}

theorem Reaches.trans {k : PathNode} (h : Reaches n m) (h' : Reaches m k) : Reaches n k := by
  intro r hr
  obtain ⟨steps, hsteps⟩ := h r hr
  obtain ⟨steps', hsteps'⟩ := h' _ hsteps
  exact ⟨steps ++ steps', by rw [List.foldl_append, hsteps']⟩

/-- What leaves the probes and the counter alone. -/
theorem reaches_other (hprobes : m.probes = n.probes) (hcounter : m.qsoCounter = n.qsoCounter) :
    Reaches n m := by
  rintro r rfl
  refine ⟨[.other m], ?_⟩
  change { m with probes := r.node.probes, qsoCounter := r.node.qsoCounter } = m
  rw [← hprobes, ← hcounter]

theorem reaches_send (n : PathNode) (dest : Option ℕ) (call : Callsign) (ssid : ℤ) :
    Reaches n (n.flexSendPathReqEx dest call ssid).1 := by
  rintro r rfl
  refine ⟨[.send dest call ssid], ?_⟩
  change (r.node.flexSendPathReqEx dest call ssid).1.toPathNode = _
  unfold SysopNode.flexSendPathReqEx
  generalize r.node.toPathNode.flexSendPathReqEx dest call ssid = res
  obtain ⟨k, e | p⟩ := res <;> rfl

theorem reaches_answer (h : n.matchedProbe f.qso = some p) : Reaches n (n.noteAnswer p f) := by
  rintro r rfl
  refine ⟨[.answer f], ?_⟩
  change (r.node.next (.answer f)).toPathNode = _
  unfold SysopNode.next
  dsimp only
  rw [h]
  rfl

/-- A request is handled in such steps. -/
theorem reaches_handles {s : Slot} (h : n.Handles s data m) : Reaches n m := by
  have hprobe : ∀ dest target, Reaches n (n.flexOndemandProbe dest target).1 := by
    intro dest target
    unfold PathNode.flexOndemandProbe
    dsimp only
    split
    · exact reaches_other rfl rfl
    split
    · exact reaches_other rfl rfl
    split
    · exact reaches_other rfl rfl
    · rename_i d _
      have hsent := reaches_send n (some dest) d.key.call d.key.lo
      generalize n.flexSendPathReqEx (some dest) d.key.call d.key.lo = res at hsent
      obtain ⟨k, _ | i⟩ := res
      · exact hsent
      · exact hsent.trans (reaches_other rfl rfl)
  cases h with
  | nothing => exact reaches_other rfl rfl
  | frame via frame => exact reaches_other rfl rfl
  | probe dest target => exact hprobe dest target
  | parked dest target =>
      refine (hprobe dest target).trans ?_
      unfold PathNode.flexDeferPathReq
      split
      · exact reaches_other rfl rfl
      split
      · exact reaches_other rfl rfl
      split <;> exact reaches_other rfl rfl

theorem reaches_replays (base : CStr) (is : List DeferredSlot) (n : PathNode) :
    Reaches n (is.foldl (PathNode.replayDeferred base) n) := by
  induction is generalizing n with
  | nil => exact reaches_other rfl rfl
  | cons i is ih =>
      refine .trans ?_ (ih _)
      unfold PathNode.replayDeferred
      dsimp only
      split
      · exact reaches_other rfl rfl
      split
      · exact reaches_other rfl rfl
      split
      · exact reaches_other rfl rfl
      split
      · exact reaches_other rfl rfl
      · set d := n.deferred i
        set parked := Function.update n.deferred i { d with inUse := false }
        set k : PathNode := { n with deferred := parked, replaying := true }
        have hparked : Reaches n k := reaches_other rfl rfl
        have hhandled := hparked.trans (reaches_handles
          (PathNode.handles_flexHandlePathReq k d.peer d.frame))
        exact hhandled.trans (reaches_other rfl rfl)

/-- A received frame is handled in such steps. -/
theorem reaches_flexNetProcessCE (n : PathNode) (l : LinkId) (data : CStr) :
    Reaches n (n.flexNetProcessCE l data) := by
  have hrelay : ∀ (m : PathNode) f, Reaches m (m.flexRelayPathRep f data) := fun m f => by
    unfold PathNode.flexRelayPathRep
    split
    · exact reaches_other rfl rfl
    split
    · exact reaches_other rfl rfl
    split
    · exact reaches_other rfl rfl
    split <;> exact reaches_other rfl rfl
  have hreply : ∀ m : PathNode, Reaches m (m.flexHandlePathRep data) := fun m => by
    unfold PathNode.flexHandlePathRep
    split
    · exact reaches_other rfl rfl
    split
    · exact reaches_other rfl rfl
    split
    · exact hrelay m _
    · rename_i p hp
      rw [PathNode.acceptAnswer_eq]
      exact (reaches_answer hp).trans (reaches_replays _ _ _)
  have hnode : Reaches n { n with toNode := n.toNode.flexNetProcessCE l data } :=
    reaches_other rfl rfl
  unfold PathNode.flexNetProcessCE
  refine hnode.trans ?_
  dsimp only
  split
  · exact reaches_other rfl rfl
  · split
    · exact reaches_handles (PathNode.handles_flexHandlePathReq _ _ data)
    · exact hreply _
    · exact reaches_other rfl rfl

end Reaches

end Numbering

end FlexNet
