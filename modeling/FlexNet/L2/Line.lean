import FlexNet.L2.Places

/-!
# A line of nodes

Any number of nodes in a row, each with a circuit table of its own, and the frames of one connection
over them: the originator sends, the destination answers over the chain it saw turned round, and
every station handles the frames that come to it, in any order (`L2Line.step`).  What else the nodes
hold may change in between; the circuit tables change by the frames of the connection only.  A
station that is no node of the line repeats its entry; a node of the line calls `FlexNet_L2Transit`
and `Digipeat`.  `L2Line.carried_along`: no frame is lost on the way, a forward frame arrives with
the nodes behind the originator's digipeaters in their order, and a reply arrives with the
originator's chain turned round.
-/

namespace FlexNet

open Runs L2Circuit

/-! ## Chains -/

namespace L2Addr

/-- The address with its H bit cleared. -/
def clearRepeated (a : L2Addr) : L2Addr :=
  ⟨{ a.toAxCall with ssid := a.ssid &&& 0x7F },
    forall_octet (P := fun b => b &&& 0x01 = 0 → (b &&& 0x7F) &&& 0x01 = 0) (by decide +kernel)
      a.ssid a.noEnd⟩

theorem clearRepeated_setRepeated {a : L2Addr} (h : a.repeated = false) :
    a.setRepeated.clearRepeated = a := by
  obtain ⟨⟨call, ssid, hlen⟩, hend⟩ := a
  have hbits : ssid &&& 0x80 = 0 → (ssid ||| 0x80) &&& 0x7F = ssid :=
    forall_octet (P := fun b => b &&& 0x80 = 0 → (b ||| 0x80) &&& 0x7F = b) (by decide +kernel) ssid
  unfold clearRepeated setRepeated
  rw [L2Addr.mk.injEq, AxCall.mk.injEq]
  exact ⟨rfl, hbits (by simpa [repeated] using h)⟩

theorem same_setRepeated (a : L2Addr) (b : AxCall) :
    a.setRepeated.toAxCall.same b = a.toAxCall.same b := by
  unfold setRepeated AxCall.same
  dsimp only
  rw [(or_h a.ssid).2.1]

theorem same_ofCall (a b : AxCall) : (ofCall a).toAxCall.same b = a.same b := by
  unfold ofCall AxCall.same
  dsimp only
  rw [(and_copy a.ssid).2.1]

/-- A chain whose first entries are repeated. -/
def marked (h : ℕ) (as : List L2Addr) : List L2Addr := (as.take h).map setRepeated ++ as.drop h

section Marked

variable {h i : ℕ} {as bs : List L2Addr}

@[simp] theorem marked_zero (as : List L2Addr) : marked 0 as = as := rfl

@[simp] theorem length_marked (h : ℕ) (as : List L2Addr) : (marked h as).length = as.length := by
  rw [marked, List.length_append, List.length_map, ← List.length_append, List.take_append_drop]

theorem marked_full (hlen : as.length ≤ h) : marked h as = as.map setRepeated := by
  rw [marked, List.take_of_length_le hlen, List.drop_of_length_le hlen, List.append_nil]

theorem marked_append (hlen : h ≤ as.length) : marked h as ++ bs = marked h (as ++ bs) := by
  rw [marked, marked, List.take_append_of_le_length hlen, List.drop_append_of_le_length hlen,
    List.append_assoc]

theorem marked_cons (a : L2Addr) (as : List L2Addr) :
    marked (h + 1) (a :: as) = a.setRepeated :: marked h as := rfl

theorem getElem?_marked (hi : h ≤ i) : (marked h as)[i]? = as[i]? := by
  rw [marked]
  by_cases hlen : h ≤ as.length
  · have htake : ((as.take h).map setRepeated).length = h := by
      rw [List.length_map, List.length_take_of_le hlen]
    rw [List.getElem?_append_right (by omega), htake, List.getElem?_drop, Nat.add_sub_cancel' hi]
  · rw [List.drop_of_length_le (by omega), List.append_nil, List.getElem?_eq_none (by simp; omega),
      List.getElem?_eq_none (by omega)]

/-- An entry is of the same station, repeated or not. -/
theorem same_marked {a : L2Addr} (ha : (marked h as)[i]? = some a) :
    ∃ b, as[i]? = some b ∧ ∀ call, a.toAxCall.same call = b.toAxCall.same call := by
  by_cases hi : h ≤ i
  · rw [getElem?_marked hi] at ha
    exact ⟨a, ha, fun _ => rfl⟩
  · have hlt : i < as.length := by
      have hlen := (List.getElem?_eq_some_iff.mp ha).1
      rwa [length_marked] at hlen
    rw [marked, List.getElem?_append_left (by simp; omega), List.getElem?_map,
      List.getElem?_take_of_lt (by omega), Option.map_eq_some_iff] at ha
    obtain ⟨b, hb, rfl⟩ := ha
    exact ⟨b, hb, fun call => same_setRepeated b call⟩

/-- The next station repeats its entry. -/
theorem modify_marked (hlt : h < as.length) :
    (marked h as).modify h setRepeated = marked (h + 1) as := by
  induction as generalizing h with
  | nil => simp at hlt
  | cons a as ih =>
      cases h with
      | zero => rfl
      | succ h =>
          rw [marked_cons, List.modify_succ_cons, ih (by simpa using hlt), ← marked_cons]

theorem findIdx?_marked (hfresh : ∀ a ∈ as, a.repeated = false) :
    (marked h as).findIdx? (fun d => !d.repeated) = if h < as.length then some h else none := by
  induction as generalizing h with
  | nil => simp [marked]
  | cons a as ih =>
      have hrest := fun b hb => hfresh b (List.mem_cons_of_mem a hb)
      cases h with
      | zero =>
          rw [marked_zero, List.findIdx?_cons, hfresh a List.mem_cons_self]
          rfl
      | succ h =>
          rw [marked_cons, List.findIdx?_cons, repeated_setRepeated, ih hrest]
          simp only [Bool.not_true, Bool.false_eq_true, if_false, List.length_cons]
          split_ifs with h₁ h₂ h₂
          · rfl
          · omega
          · omega
          · rfl

end Marked

end L2Addr

open L2Addr

/-! ## The line -/

/-- A node of a line: its call, and its ports towards the originator and towards the destination. -/
structure L2Place where
  call : AxCall
  back : ℕ
  ahead : ℕ
  back_ne : back ≠ 0
  ahead_ne : ahead ≠ 0

/-- A connection over a line of nodes.  The originator's frames list the digipeaters `via` and then
the first node. -/
structure L2Line where
  user : AxCall
  dest : AxCall
  via : List L2Addr
  first : L2Addr
  places : List L2Place
  starts : ∃ p, places[0]? = some p ∧ first.toAxCall.same p.call = true
  fresh : ∀ a ∈ via ++ [first], a.repeated = false
  apart : user.same dest = false
  distinct : places.Pairwise fun p q => p.call.same q.call = false
  others : ∀ p ∈ places, p.call.same user = false ∧ p.call.same dest = false ∧
    ∀ a ∈ via, a.toAxCall.same p.call = false
  fits : via.length + places.length ≤ l2MaxDigis

/-- A frame of the connection: as its station has sent it, as it is now, and how many stations have
handled it; with no frame it has been dropped, or has left on the wrong port. -/
structure L2Carriage where
  forward : Bool
  sent : L2Frame
  frame : Option L2Frame
  hops : ℕ
deriving DecidableEq

/-- The frame, and the digipeater whose turn it is. -/
def L2Carriage.due (c : L2Carriage) : Option (L2Frame × ℕ) :=
  c.frame.bind fun f => f.nextDigi.map fun our => (f, our)

/-- What happens on the line: the originator sends a frame; the destination answers a frame that has
come to it; the station whose turn it is handles a frame, a node of the line as it is then, less its
circuit table. -/
inductive L2LineEvent
  | send (dest origin : L2Addr) (tail : CStr)
  | reply (i : ℕ) (dest origin : L2Addr) (tail : CStr)
  | hop (i : ℕ) (n : L2Node)

/-- The circuit tables of the nodes, and the frames of the connection in the order they were
sent. -/
structure L2Traffic (line : L2Line) where
  tables : Fin line.places.length → L2Table
  frames : List L2Carriage := []

namespace L2Line

variable (line : L2Line)

/-- The stations that the originator puts in, with the first node. -/
def chain : List L2Addr := line.via ++ [line.first]

/-- The stations a frame is handled by. -/
def length : ℕ := line.via.length + line.places.length

/-- A node of the line, for the connection. -/
def relay (j : Fin line.places.length) : L2Relay where
  user := line.user
  dest := line.dest
  back := line.places[j].back
  ahead := line.places[j].ahead
  next := line.places[j.val + 1]?.map L2Place.call
  apart := line.apart
  back_ne := line.places[j].back_ne
  ahead_ne := line.places[j].ahead_ne

/-- The node of the line that an entry names. -/
def placeOf (a : L2Addr) : Option (Fin line.places.length) :=
  (List.finRange line.places.length).find? fun j => a.toAxCall.same line.places[j].call

/-- A station of a frame. -/
def stationOf (f : L2Frame) (our : ℕ) : Option (Fin line.places.length) :=
  f.digis[our]?.bind line.placeOf

/-- The port a frame comes in on. -/
def arrive (j : Fin line.places.length) (forward : Bool) : ℕ :=
  if forward then (line.relay j).back else (line.relay j).ahead

/-- The port it has to leave on. -/
def exit (j : Fin line.places.length) (forward : Bool) : ℕ :=
  if forward then (line.relay j).ahead else (line.relay j).back

/-- `FlexNet_L2Transit` and `Digipeat`: the node after a frame, and the frame if it is sent on the
right port. -/
def handle (n : L2Node) (j : Fin line.places.length) (forward : Bool) (f : L2Frame) (our : ℕ) :
    L2Node × Option L2Frame :=
  let (m, out) := n.flexNetL2Transit (line.arrive j forward) f our
  (m, (out.bind (n.digipeat (line.arrive j forward))).bind fun sent =>
    if sent.2 = line.exit j forward then some sent.1 else none)

/-- One thing that happens. -/
def step (s : L2Traffic line) : L2LineEvent → L2Traffic line
  | .send dest origin tail =>
    let f : L2Frame := ⟨dest, origin, line.chain, tail⟩
    { s with frames := s.frames ++ [⟨true, f, some f, 0⟩] }
  | .reply i dest origin tail =>
    match (s.frames[i]?.filter fun c => c.forward && c.due.isNone).bind (·.frame) with
    | none => s
    | some g =>
      let f : L2Frame := ⟨dest, origin, (g.digis.map clearRepeated).reverse, tail⟩
      { s with frames := s.frames ++ [⟨false, f, some f, 0⟩] }
  | .hop i n =>
    match s.frames[i]? with
    | none => s
    | some c =>
      match c.due with
      | none => s
      | some (f, our) =>
        match line.stationOf f our with
        | none =>
          let sent := (⟨f, our, 0⟩ : L2Out).sent
          { s with frames := s.frames.set i { c with frame := some sent, hops := c.hops + 1 } }
        | some j =>
          let (m, sent) := line.handle { n with circuits := s.tables j } j c.forward f our
          { tables := Function.update s.tables j m.circuits
            frames := s.frames.set i { c with frame := sent, hops := c.hops + 1 } }

/-- The node carries the frame: it forwards and digipeats, routes the destination along the line,
has room for a circuit and for the chain, and knows the stations beside the line on its ports only.
A reply finds the circuit of the connection alive. -/
structure Able (n : L2Node) (j : Fin line.places.length) (forward : Bool) (f : L2Frame) (our : ℕ) :
    Prop where
  serves : (line.relay j).Serves n
  carried : forward = true ∨ (line.relay j).ahead ≠ (line.relay j).back →
    n.l2Carries (line.arrive j forward) f = true
  cap : forward = true → line.length ≤ n.l2Cap (line.relay j).back
  room : forward = true ∨ f.digis.length = 1 → ∃ i, (n.circuits i).active = false
  routes : forward = true → ∀ q, (line.relay j).next = some q → ∃ call, call.same q = true ∧
    (n.flexL2ResolveHop f.dest.toAxCall).2 = .hop call false (line.relay j).ahead
  adjacent : forward = true → (line.relay j).next = none →
    (n.flexL2ResolveHop f.dest.toAxCall).2 = .adjacent (line.relay j).ahead
  known : (line.relay j).next = none → (line.relay j).ahead = (line.relay j).back →
    L2Relay.KnownOn n (line.relay j).ahead f our
  live : forward = false →
    ∀ i, (n.circuits i).ofPair line.user line.dest (line.relay j).back = true →
    (n.circuits i).state n.now ≠ .expired
  home : forward = false → f.digis.length = 1 →
    (n.flexL2ResolveHop f.dest.toAxCall).2 = .declined ∨
      (n.flexL2ResolveHop f.dest.toAxCall).2 = .adjacent (line.relay j).back

/-- What the stations of the line may do. -/
def Ok (s : L2Traffic line) : L2LineEvent → Prop
  | .send dest origin tail =>
    dest.toAxCall.same line.dest = true ∧ origin.toAxCall.same line.user = true ∧ tail ≠ [] ∧
      (⟨dest, origin, line.chain, tail⟩ : L2Frame).octets.length + 7 * (line.places.length - 1) ≤
        l2MaxFrame
  | .reply _ dest origin tail =>
    dest.toAxCall.same line.user = true ∧ origin.toAxCall.same line.dest = true ∧ tail ≠ []
  | .hop i n => ∀ c f our j, s.frames[i]? = some c → c.due = some (f, our) →
    line.stationOf f our = some j → line.Able { n with circuits := s.tables j } j c.forward f our

/-! ## The chain of a frame -/

variable {line : L2Line} {s : L2Traffic line} {as : List L2Addr} {a : L2Addr} {p : L2Place}
  {c : L2Carriage} {n : L2Node} {i : ℕ}

/-- The entries of a chain are the originator's digipeaters and then nodes of the line, in order. -/
structure Along (line : L2Line) (as : List L2Addr) : Prop where
  start : line.chain <+: as
  place : ∀ (i : ℕ) (a : L2Addr) (p : L2Place), line.places[i]? = some p →
    as[line.via.length + i]? = some a → a.toAxCall.same p.call = true
  fresh : ∀ a ∈ as, a.repeated = false
  long : as.length ≤ line.length

theorem places_ne (line : L2Line) : 0 < line.places.length := by
  obtain ⟨p, hp, -⟩ := line.starts
  exact (List.getElem?_eq_some_iff.mp hp).1

/-- No two nodes have one call. -/
theorem not_same (line : L2Line) {j l : ℕ} {p q : L2Place} (hp : line.places[j]? = some p)
    (hq : line.places[l]? = some q) (hne : j ≠ l) : p.call.same q.call = false := by
  obtain ⟨hj, rfl⟩ := List.getElem?_eq_some_iff.mp hp
  obtain ⟨hl, rfl⟩ := List.getElem?_eq_some_iff.mp hq
  have hpairs := List.pairwise_iff_getElem.mp line.distinct
  rcases Nat.lt_or_gt_of_ne hne with hlt | hgt
  · exact hpairs j l hj hl hlt
  · have hother := hpairs l j hl hj hgt
    rw [← Bool.not_eq_true] at hother ⊢
    exact fun hsame => hother (L2Table.same_comm hsame)

theorem length_chain (line : L2Line) : line.chain.length = line.via.length + 1 := by
  rw [chain, List.length_append, List.length_singleton]

theorem along_chain (line : L2Line) : line.Along line.chain where
  start := List.prefix_rfl
  place i a p hp ha := by
    have hlt := (List.getElem?_eq_some_iff.mp ha).1
    rw [length_chain] at hlt
    obtain rfl : i = 0 := by omega
    rw [chain, Nat.add_zero, List.getElem?_append_right (by omega), Nat.sub_self] at ha
    obtain rfl : line.first = a := by simpa using ha
    obtain ⟨q, hq, hsame⟩ := line.starts
    obtain rfl := Option.some.inj (hq.symm.trans hp)
    exact hsame
  fresh := line.fresh
  long := by
    have hpos := line.places_ne
    rw [length_chain, length]
    omega

/-- The next node is put behind. -/
theorem Along.append (h : line.Along as) (x : L2Addr) {j : ℕ}
    (hlen : as.length = line.via.length + j)
    (hp : line.places[j]? = some p) (hx : x.toAxCall.same p.call = true)
    (hfresh : x.repeated = false) :
    line.Along (as ++ [x]) where
  start := h.start.trans (List.prefix_append as [x])
  place i a q hq ha := by
    by_cases hi : line.via.length + i < as.length
    · rw [List.getElem?_append_left hi] at ha
      exact h.place i a q hq ha
    · have hlt := (List.getElem?_eq_some_iff.mp ha).1
      rw [List.length_append, List.length_singleton] at hlt
      obtain rfl : i = j := by omega
      rw [List.getElem?_append_right (by omega), hlen, Nat.sub_self] at ha
      obtain rfl : x = a := by simpa using ha
      obtain rfl := Option.some.inj (hp.symm.trans hq)
      exact hx
  fresh b hb := by
    rcases List.mem_append.mp hb with hb | hb
    · exact h.fresh b hb
    · rw [List.mem_singleton.mp hb]
      exact hfresh
  long := by
    have hlt := (List.getElem?_eq_some_iff.mp hp).1
    rw [List.length_append, List.length_singleton, length]
    omega

theorem Along.mem_via (h : line.Along as) (hi : i < line.via.length) (ha : as[i]? = some a) :
    a ∈ line.via := by
  have hchain : line.chain[i]? = some a := by
    obtain ⟨rest, rfl⟩ := h.start
    rwa [List.getElem?_append_left (by rw [length_chain]; omega)] at ha
  rw [chain, List.getElem?_append_left hi] at hchain
  exact List.mem_of_getElem? hchain

/-- An entry of another station is no entry of a node. -/
theorem Along.other (h : line.Along as) (ha : as[i]? = some a) {l : ℕ}
    (hp : line.places[l]? = some p)
    (hi : i ≠ line.via.length + l) : a.toAxCall.same p.call = false := by
  by_cases hvia : i < line.via.length
  · exact (line.others p (List.mem_of_getElem? hp)).2.2 a (h.mem_via hvia ha)
  obtain ⟨i', rfl⟩ := Nat.exists_eq_add_of_le (Nat.le_of_not_lt hvia)
  have hlt := (List.getElem?_eq_some_iff.mp ha).1
  have hlong := h.long
  obtain ⟨q, hq⟩ : ∃ q, line.places[i']? = some q :=
    ⟨_, List.getElem?_eq_getElem (by rw [length] at hlong; omega)⟩
  rw [← Bool.not_eq_true]
  intro hsame
  have hdistinct := line.not_same hq hp (show i' ≠ l by omega)
  rw [L2Table.same_trans (h.place i' a q hq ha) hsame] at hdistinct
  cases hdistinct

theorem Along.placeOf_via (h : line.Along as) (hi : i < line.via.length) (ha : as[i]? = some a) :
    line.placeOf a = none := by
  rw [placeOf, List.find?_eq_none]
  intro j _
  have hother := h.other ha (List.getElem?_eq_getElem j.isLt) (by omega)
  exact Bool.eq_false_iff.mp hother

theorem Along.placeOf_place (h : line.Along as) (j : Fin line.places.length)
    (ha : as[line.via.length + j]? = some a) : line.placeOf a = some j := by
  rw [placeOf, L2Table.find_finRange]
  refine ⟨h.place j a _ (List.getElem?_eq_getElem j.isLt) ha, fun l hl => ?_⟩
  have hlt : l.val < j.val := hl
  have hother := h.other ha (List.getElem?_eq_getElem l.isLt) (by omega)
  exact Bool.eq_false_iff.mp hother

/-! ## A frame on its way -/

/-- A forward frame that so many stations have handled: the nodes among them have put the next one
in. -/
structure Ahead (line : L2Line) (c : L2Carriage) (as : List L2Addr) : Prop where
  along : line.Along as
  len : as.length = line.via.length + 1 + min (c.hops - line.via.length) (line.places.length - 1)
  sent : c.sent.digis = line.chain
  toDest : c.sent.dest.toAxCall.same line.dest = true
  ofUser : c.sent.origin.toAxCall.same line.user = true
  control : c.sent.tail ≠ []
  size : c.sent.octets.length + 7 * (line.places.length - 1) ≤ l2MaxFrame
  frame : c.frame = some { c.sent with digis := marked c.hops as }
  hops : c.hops ≤ line.length

/-- The nodes that have taken themselves out of a reply. -/
def cut (line : L2Line) (c : L2Carriage) : ℕ := min (c.hops - 1) (line.places.length - 1)

/-- A reply, over the chain the destination saw. -/
structure Back (line : L2Line) (c : L2Carriage) (as : List L2Addr) : Prop where
  along : line.Along as
  len : as.length = line.length
  sent : c.sent.digis = as.reverse
  toUser : c.sent.dest.toAxCall.same line.user = true
  ofDest : c.sent.origin.toAxCall.same line.dest = true
  control : c.sent.tail ≠ []
  frame : c.frame = some { c.sent with
    digis := marked (c.hops - line.cut c) (as.reverse.drop (line.cut c)) }
  hops : c.hops ≤ line.length

theorem nextDigi_marked (f : L2Frame) {h : ℕ} (hfresh : ∀ a ∈ as, a.repeated = false) :
    ({ f with digis := marked h as } : L2Frame).nextDigi =
      if h < as.length then some h else none := by
  rw [L2Frame.nextDigi]
  exact findIdx?_marked hfresh

theorem due_of_frame {f : L2Frame} (h : c.frame = some f) :
    c.due = f.nextDigi.map fun our => (f, our) := by
  rw [L2Carriage.due, h]
  rfl

theorem Ahead.due (h : line.Ahead c as) : c.due = if c.hops < line.length then
    some ({ c.sent with digis := marked c.hops as }, c.hops) else none := by
  have hlen := h.len
  have hhops := h.hops
  have hpos := line.places_ne
  rw [due_of_frame h.frame, nextDigi_marked c.sent h.along.fresh]
  unfold length at *
  by_cases hlt : c.hops < line.via.length + line.places.length
  · rw [if_pos hlt, if_pos (by omega)]
    rfl
  · rw [if_neg hlt, if_neg (by omega)]
    rfl

theorem Back.due (h : line.Back c as) : c.due = if c.hops < line.length then
    some ({ c.sent with digis := marked (c.hops - line.cut c) (as.reverse.drop (line.cut c)) },
      c.hops - line.cut c) else none := by
  have hlen := h.len
  have hhops := h.hops
  have hpos := line.places_ne
  have hfresh : ∀ a ∈ as.reverse.drop (line.cut c), a.repeated = false := fun a ha =>
    h.along.fresh a (List.mem_reverse.mp (List.mem_of_mem_drop ha))
  rw [due_of_frame h.frame, nextDigi_marked c.sent hfresh, List.length_drop, List.length_reverse,
    hlen]
  unfold cut length at *
  by_cases hlt : c.hops < line.via.length + line.places.length
  · rw [if_pos hlt, if_pos (by omega)]
    rfl
  · rw [if_neg hlt, if_neg (by omega)]
    rfl

/-! ### One station -/

theorem Able.digipeats {j : Fin line.places.length} {forward : Bool} {f : L2Frame} {our : ℕ}
    (h : line.Able n j forward f our) :
    n.Digipeats (line.arrive j forward) ∧ n.Digipeats (line.exit j forward) := by
  cases forward with
  | true => exact ⟨h.serves.digiBack, h.serves.digiAhead⟩
  | false => exact ⟨h.serves.digiAhead, h.serves.digiBack⟩

/-- A frame that the node relays is sent with the node's entry repeated. -/
theorem handle_relayed {j : Fin line.places.length} {forward : Bool} {f f' : L2Frame} {our our' : ℕ}
    (h : line.Able n j forward f our)
    (hrelayed : (line.relay j).Relayed (n.flexNetL2Transit (line.arrive j forward) f our)
      (line.arrive j forward) (line.exit j forward) f' our') :
    line.handle n j forward f our = ((n.flexNetL2Transit (line.arrive j forward) f our).1,
      some { f' with digis := f'.digis.modify our' setRepeated }) := by
  obtain ⟨out, hout, rfl, rfl, hleaves⟩ := hrelayed.out
  obtain ⟨harrive, hexit⟩ := h.digipeats
  unfold handle
  dsimp only
  rw [hout, Option.bind_some, L2Node.digipeat_sent harrive hexit hleaves, Option.bind_some,
    if_pos rfl]
  rfl

/-- A node of the line that a forward frame has come to. -/
theorem Ahead.forward (h : line.Ahead c as) {j : Fin line.places.length}
    (hj : c.hops = line.via.length + j)
    (hable : line.Able n j true { c.sent with digis := marked c.hops as } c.hops) :
    (line.relay j).Forward n { c.sent with digis := marked c.hops as } c.hops := by
  have hlen := h.len
  have hlong := h.along.long
  have hfits := line.fits
  have hlt := j.isLt
  refine { hable.serves with
    toDest := h.toDest, ofUser := h.ofUser, control := h.control, short := ?_, last := ?_
    straight := ?_, carried := hable.carried (.inl rfl), room := hable.room (.inl rfl) }
  · rw [length_marked]
    unfold length at hlong
    omega
  · rw [length_marked, hlen]
    omega
  · -- the node is no other entry of the chain
    intro us hus
    rw [getElem?_marked le_rfl, hj] at hus
    have hown := h.along.place j us _ (List.getElem?_eq_getElem j.isLt) hus
    rw [L2Node.flexL2SelfRepeated, List.any_eq_false]
    intro b hb hboth
    rw [Bool.and_eq_true] at hboth
    obtain ⟨i, hi, hbi⟩ := List.getElem_of_mem hb
    have hbefore : i < c.hops := hi.trans_le ((List.length_take ..).le.trans (min_le_left _ _))
    have hget : (marked c.hops as)[i]? = some b := by
      rw [← hbi, List.getElem_take]
      exact List.getElem?_eq_getElem (by rw [length_marked, hlen]; omega)
    obtain ⟨a, ha, hsame⟩ := same_marked hget
    have hother := h.along.other ha (List.getElem?_eq_getElem j.isLt) (by omega)
    rw [← hsame, L2Table.same_trans (L2Table.same_comm hboth.2) hown] at hother
    cases hother

/-- The next node is not in the chain yet. -/
theorem Ahead.callInChain (h : line.Ahead c as) {l : ℕ} (hp : line.places[l]? = some p)
    (hlt : as.length ≤ line.via.length + l) :
    ({ c.sent with digis := marked c.hops as } : L2Frame).callInChain p.call = false := by
  obtain ⟨huser, hdest, -⟩ := line.others p (List.mem_of_getElem? hp)
  rw [L2Frame.callInChain, List.any_eq_false]
  intro b hb hsame
  simp only [L2Frame.addrs, List.mem_cons] at hb
  rcases hb with rfl | rfl | hb
  · rw [L2Table.same_trans hsame h.toDest] at hdest
    cases hdest
  · rw [L2Table.same_trans hsame h.ofUser] at huser
    cases huser
  · obtain ⟨i, hi, hbi⟩ := List.getElem_of_mem hb
    have hget : (marked c.hops as)[i]? = some b := by
      rw [← hbi]
      exact List.getElem?_eq_getElem hi
    rw [length_marked] at hi
    obtain ⟨a, ha, heq⟩ := same_marked hget
    have hother := h.along.other ha hp (by omega)
    rw [← heq, hsame] at hother
    cases hother

/-- A node that keeps a circuit for the connection: it takes a hop out of replies, or sends them to
another port. -/
def Needs (line : L2Line) (j : Fin line.places.length) : Prop :=
  (line.relay j).next ≠ none ∨ (line.relay j).ahead ≠ (line.relay j).back

/-- A forward frame at a node of the line. -/
theorem Ahead.handled (h : line.Ahead c as) {j : Fin line.places.length}
    (hj : c.hops = line.via.length + j) (horder : (line.relay j).InOrder n.circuits)
    (hable : line.Able n j true { c.sent with digis := marked c.hops as } c.hops) :
    ∃ m sent as', line.handle n j true { c.sent with digis := marked c.hops as } c.hops =
        (m, some sent) ∧ line.Ahead { c with frame := some sent, hops := c.hops + 1 } as' ∧
      (line.relay j).InOrder m.circuits ∧ (line.Needs j → (line.relay j).Holds m.circuits) := by
  have hforward := h.forward hj hable
  have hlen := h.len
  have hlong := h.along.long
  have hlt := j.isLt
  have haslen : as.length = c.hops + 1 := by omega
  cases hnext : line.places[j.val + 1]? with
  | some q =>
      have hq : (line.relay j).next = some q.call := by
        change line.places[j.val + 1]?.map L2Place.call = some q.call
        rw [hnext, Option.map_some]
      have hinner := (List.getElem?_eq_some_iff.mp hnext).1
      have hcap := hable.cap rfl
      have hroom : ({ c.sent with digis := marked c.hops as } : L2Frame).Room := by
        have hsize := h.size
        rw [L2Frame.length_octets, h.sent, length_chain] at hsize
        rw [L2Frame.Room, L2Frame.length_octets, length_marked]
        dsimp only
        omega
      obtain ⟨call, hcall, hrelayed, hholds⟩ := L2Relay.forward_next hforward horder hq
        (hable.routes rfl q.call hq) (h.callInChain hnext (by omega))
        (by rw [length_marked]; unfold length at hcap; omega) hroom
      have halong :=
        h.along.append (ofCall call) (show as.length = line.via.length + (j + 1) by omega) hnext
        (by rw [same_ofCall]; exact hcall) (repeated_ofCall call)
      refine ⟨_, _, as ++ [ofCall call], handle_relayed hable hrelayed, ?_, hrelayed.order,
        fun _ => hholds⟩
      refine { h with along := halong, len := ?_, frame := ?_, hops := ?_ }
      · rw [List.length_append, List.length_singleton]
        dsimp only
        omega
      · dsimp only
        rw [marked_append (by omega), modify_marked (by rw [List.length_append]; omega)]
      · unfold length at *
        dsimp only
        omega
  | none =>
      have hq : (line.relay j).next = none := by
        change line.places[j.val + 1]?.map L2Place.call = none
        rw [hnext, Option.map_none]
      have houter := List.getElem?_eq_none_iff.mp hnext
      obtain ⟨hrelayed, hholds⟩ := L2Relay.forward_last hforward horder hq (hable.adjacent rfl hq)
        fun hport => by
          have hknown := hable.known hq hport
          rwa [hport] at hknown
      refine ⟨_, _, as, handle_relayed hable hrelayed, ?_, hrelayed.order, fun hneeds => ?_⟩
      · refine { h with len := ?_, frame := ?_, hops := ?_ }
        · dsimp only
          omega
        · dsimp only
          rw [modify_marked (by omega)]
        · unfold length
          dsimp only
          omega
      · rcases hneeds with hsome | hport
        · exact absurd hq hsome
        · exact hholds hport

/-- An entry of a chain that is turned round. -/
theorem getElem?_turned (hlen : as.length = line.length) (hi : i < line.length) :
    as.reverse[i]? = as[line.length - 1 - i]? := by
  rw [List.getElem?_reverse (by omega), hlen]

/-- The reply as the node gets it. -/
theorem Back.reply (h : line.Back c as) {j : Fin line.places.length}
    (hj : c.hops + j + 1 = line.places.length)
    (hable : line.Able n j false
      { c.sent with digis := marked (c.hops - line.cut c) (as.reverse.drop (line.cut c)) }
      (c.hops - line.cut c)) :
    (line.relay j).Reply n
      { c.sent with digis := marked (c.hops - line.cut c) (as.reverse.drop (line.cut c)) }
      (c.hops - line.cut c) := by
  have hfits := line.fits
  have hlength : line.length = line.via.length + line.places.length := rfl
  have hrev : as.reverse.length = line.length := by rw [List.length_reverse, h.len]
  refine { hable.serves with
    toUser := h.toUser, ofDest := h.ofDest, control := h.control, short := ?_, ours := ?_
    live := hable.live rfl }
  · rw [length_marked, List.length_drop, hrev]
    omega
  · rw [length_marked, List.length_drop, hrev, cut]
    omega

/-- Behind the first of the nodes it comes to, a reply has the node before in front. -/
theorem Back.front (h : line.Back c as) {j h' : ℕ} (hhops : c.hops = h' + 1)
    (hj : c.hops + j + 1 = line.places.length) :
    ∃ x p, as.reverse.drop h' = x :: as.reverse.drop (h' + 1) ∧
      line.places[j + 1]? = some p ∧ x.toAxCall.same p.call = true := by
  have hlength : line.length = line.via.length + line.places.length := rfl
  have hrev : as.reverse.length = line.length := by rw [List.length_reverse, h.len]
  obtain ⟨x, hx⟩ : ∃ x, as.reverse[h']? = some x := ⟨_, List.getElem?_eq_getElem (by omega)⟩
  obtain ⟨p, hp⟩ : ∃ p, line.places[j + 1]? = some p := ⟨_, List.getElem?_eq_getElem (by omega)⟩
  refine ⟨x, p, ?_, hp, ?_⟩
  · obtain ⟨hlt, rfl⟩ := List.getElem?_eq_some_iff.mp hx
    exact List.drop_eq_getElem_cons hlt
  · refine h.along.place (j + 1) x p hp ?_
    rw [← hx, getElem?_turned h.len (by omega)]
    congr 1
    omega

/-- A reply at a node of the line. -/
theorem Back.handled (h : line.Back c as) {j : Fin line.places.length}
    (hj : c.hops + j + 1 = line.places.length) (horder : (line.relay j).InOrder n.circuits)
    (hholds : line.Needs j → (line.relay j).Holds n.circuits)
    (hable : line.Able n j false
      { c.sent with digis := marked (c.hops - line.cut c) (as.reverse.drop (line.cut c)) }
      (c.hops - line.cut c)) :
    ∃ m sent, line.handle n j false
        { c.sent with digis := marked (c.hops - line.cut c) (as.reverse.drop (line.cut c)) }
        (c.hops - line.cut c) = (m, some sent) ∧
      line.Back { c with frame := some sent, hops := c.hops + 1 } as ∧
      (line.relay j).InOrder m.circuits ∧ (line.Needs j → (line.relay j).Holds m.circuits) := by
  have hlength : line.length = line.via.length + line.places.length := rfl
  have hrev : as.reverse.length = line.length := by rw [List.length_reverse, h.len]
  have hreply := h.reply hj hable
  cases hhops : c.hops with
  | zero =>
      -- the node whose neighbour has sent the reply
      have hcut : line.cut c = 0 := by rw [cut, hhops]; rfl
      have hq : (line.relay j).next = none := by
        change line.places[j.val + 1]?.map L2Place.call = none
        rw [List.getElem?_eq_none (by omega), Option.map_none]
      rw [hcut, hhops] at hreply hable
      rw [hcut]
      obtain ⟨hrelayed, hkept⟩ := L2Relay.back_last hreply horder (fun hport => hholds (.inr hport))
        (hable.known hq) (fun hport => hable.carried (.inr hport)) (hable.home rfl)
        fun hone => hable.room (.inr hone)
      refine ⟨_, _, handle_relayed hable hrelayed, ?_, hrelayed.order,
        fun hneeds => hkept (hholds hneeds)⟩
      refine { h with frame := ?_, hops := ?_ }
      · rw [show line.cut { c with
          frame := some { c.sent with
            digis := (marked (0 - 0) (as.reverse.drop 0)).modify 0 setRepeated },
          hops := 0 + 1 } = 0 by simp [cut]]
        dsimp only
        rw [List.drop_zero, modify_marked (by omega)]
      · dsimp only
        omega
  | succ h' =>
      have hcut : line.cut c = h' := by
        rw [cut, hhops]
        omega
      obtain ⟨x, p, hdrop, hp, hxp⟩ := h.front hhops hj
      have hq : (line.relay j).next = some p.call := by
        change line.places[j.val + 1]?.map L2Place.call = some p.call
        rw [hp, Option.map_some]
      have hour : h' + 1 - h' = 1 := by omega
      rw [hcut, hhops, hour] at hreply hable
      rw [hcut, hour]
      have hdigis : marked 1 (as.reverse.drop h') = x.setRepeated :: as.reverse.drop (h' + 1) := by
        rw [hdrop, marked_cons, marked_zero]
      obtain ⟨hrelayed, hkept⟩ := L2Relay.back_next hreply horder
        (hholds (.inl (by rw [hq]; exact Option.some_ne_none _))) hq le_rfl
        (by dsimp only; rw [hdigis]; rfl) (repeated_setRepeated x)
        (by rw [same_setRepeated]; exact hxp)
      refine ⟨_, _, handle_relayed hable hrelayed, ?_, hrelayed.order, fun _ => hkept⟩
      refine { h with frame := ?_, hops := ?_ }
      · have hcut' : min (h' + 1 + 1 - 1) (line.places.length - 1) = h' + 1 := by omega
        unfold cut
        dsimp only
        rw [hcut', L2Frame.removeDigi]
        dsimp only
        rw [hdigis, show h' + 1 + 1 - (h' + 1) = 0 + 1 by omega,
          ← modify_marked (by rw [List.length_drop, hrev]; omega)]
        rfl
      · dsimp only
        omega

/-! ### Whose turn it is -/

/-- A forward frame is first the originator's digipeaters' and then the nodes'. -/
theorem Ahead.stationOf (h : line.Ahead c as) (hlt : c.hops < line.length) :
    (c.hops < line.via.length ∧
        line.stationOf { c.sent with digis := marked c.hops as } c.hops = none) ∨
      ∃ j : Fin line.places.length, c.hops = line.via.length + j ∧
        line.stationOf { c.sent with digis := marked c.hops as } c.hops = some j := by
  have hlen := h.len
  have hpos := line.places_ne
  have hlength : line.length = line.via.length + line.places.length := rfl
  obtain ⟨a, ha⟩ : ∃ a, as[c.hops]? = some a := ⟨_, List.getElem?_eq_getElem (by omega)⟩
  have hstation : line.stationOf { c.sent with digis := marked c.hops as } c.hops =
      line.placeOf a := by
    rw [L2Line.stationOf]
    dsimp only
    rw [getElem?_marked le_rfl, ha, Option.bind_some]
  rw [hstation]
  by_cases hvia : c.hops < line.via.length
  · exact .inl ⟨hvia, h.along.placeOf_via hvia ha⟩
  · obtain ⟨l, hl⟩ := Nat.exists_eq_add_of_le (Nat.le_of_not_lt hvia)
    refine .inr ⟨⟨l, by omega⟩, hl, h.along.placeOf_place ⟨l, by omega⟩ ?_⟩
    rw [← ha, hl]

/-- A reply is first the nodes' and then the originator's digipeaters'. -/
theorem Back.stationOf (h : line.Back c as) (hlt : c.hops < line.length) :
    (line.places.length ≤ c.hops ∧
        line.stationOf { c.sent with
          digis := marked (c.hops - line.cut c) (as.reverse.drop (line.cut c)) }
          (c.hops - line.cut c) = none) ∨
      ∃ j : Fin line.places.length, c.hops + j + 1 = line.places.length ∧
        line.stationOf { c.sent with
          digis := marked (c.hops - line.cut c) (as.reverse.drop (line.cut c)) }
          (c.hops - line.cut c) = some j := by
  have hlen := h.len
  have hlength : line.length = line.via.length + line.places.length := rfl
  have hcut : line.cut c ≤ c.hops := (min_le_left _ _).trans (Nat.sub_le _ _)
  obtain ⟨a, ha⟩ : ∃ a, as[line.length - 1 - c.hops]? = some a :=
    ⟨_, List.getElem?_eq_getElem (by omega)⟩
  have hstation : line.stationOf { c.sent with
      digis := marked (c.hops - line.cut c) (as.reverse.drop (line.cut c)) }
      (c.hops - line.cut c) = line.placeOf a := by
    rw [L2Line.stationOf]
    dsimp only
    rw [getElem?_marked le_rfl, List.getElem?_drop, Nat.add_sub_cancel' hcut,
      getElem?_turned hlen hlt, ha, Option.bind_some]
  rw [hstation]
  by_cases hnode : c.hops < line.places.length
  · refine .inr ⟨⟨line.places.length - 1 - c.hops, by omega⟩, ?_, h.along.placeOf_place
      ⟨line.places.length - 1 - c.hops, by omega⟩ ?_⟩
    · dsimp only
      omega
    · rw [← ha]
      congr 1
      dsimp only
      omega
  · exact .inl ⟨Nat.le_of_not_lt hnode, h.along.placeOf_via (by omega) ha⟩

/-! ### A digipeater that is no node -/

theorem Ahead.repeated (h : line.Ahead c as) (hvia : c.hops < line.via.length) :
    line.Ahead { c with
      frame := some (⟨{ c.sent with digis := marked c.hops as }, c.hops, 0⟩ : L2Out).sent
      hops := c.hops + 1 } as := by
  have hlen := h.len
  refine { h with len := ?_, frame := ?_, hops := ?_ }
  · dsimp only
    omega
  · rw [L2Out.sent]
    dsimp only
    rw [modify_marked (by omega)]
  · unfold length
    dsimp only
    omega

theorem Back.repeated (h : line.Back c as) (hnode : line.places.length ≤ c.hops)
    (hlt : c.hops < line.length) :
    line.Back { c with
      frame := some (⟨{ c.sent with
        digis := marked (c.hops - line.cut c) (as.reverse.drop (line.cut c)) },
        c.hops - line.cut c, 0⟩ : L2Out).sent
      hops := c.hops + 1 } as := by
  have hlen := h.len
  have hpos := line.places_ne
  have hcut : line.cut c = line.places.length - 1 := by
    rw [cut]
    omega
  refine { h with frame := ?_, hops := ?_ }
  · rw [L2Out.sent]
    unfold cut at *
    dsimp only
    rw [hcut, show min (c.hops + 1 - 1) (line.places.length - 1) = line.places.length - 1 by omega,
      modify_marked (by rw [List.length_drop, List.length_reverse]; omega)]
    congr 3
    omega
  · dsimp only
    omega

/-! ## Runs -/

/-- Where a frame of the connection has got to, and the circuits it has left behind. -/
def Placed (line : L2Line) (t : Fin line.places.length → L2Table) (c : L2Carriage) : Prop :=
  (c.forward = true ∧ ∃ as, line.Ahead c as ∧ ∀ j : Fin line.places.length,
      line.via.length + j < c.hops → line.Needs j → (line.relay j).Holds (t j)) ∨
    (c.forward = false ∧ ∃ as, line.Back c as ∧ ∀ j, line.Needs j → (line.relay j).Holds (t j))

/-- Every table is in order, and every frame on its way. -/
structure Running (s : L2Traffic line) : Prop where
  order : ∀ j, (line.relay j).InOrder (s.tables j)
  placed : ∀ c ∈ s.frames, line.Placed s.tables c

variable {t t' : Fin line.places.length → L2Table}

theorem Placed.mono (h : line.Placed t c)
    (hkept : ∀ j, line.Needs j → (line.relay j).Holds (t j) → (line.relay j).Holds (t' j)) :
    line.Placed t' c := by
  rcases h with ⟨hforward, as, hc, hholds⟩ | ⟨hback, as, hc, hholds⟩
  · exact .inl ⟨hforward, as, hc, fun j hj hneeds => hkept j hneeds (hholds j hj hneeds)⟩
  · exact .inr ⟨hback, as, hc, fun j hneeds => hkept j hneeds (hholds j hneeds)⟩

theorem Running.push (h : Running s) (hc : line.Placed s.tables c) :
    Running { s with frames := s.frames ++ [c] } where
  order := h.order
  placed d hd := by
    rcases List.mem_append.mp hd with hd | hd
    · exact h.placed d hd
    · rw [List.mem_singleton.mp hd]
      exact hc

/-- A forward frame that the originator sends. -/
theorem placed_send {dest origin : L2Addr} {tail : CStr}
    (h : line.Ok s (.send dest origin tail)) :
    line.Placed t ⟨true, ⟨dest, origin, line.chain, tail⟩,
      some ⟨dest, origin, line.chain, tail⟩, 0⟩ := by
  obtain ⟨hdest, horigin, hcontrol, hsize⟩ := h
  refine .inl ⟨rfl, line.chain, ⟨line.along_chain, ?_, rfl, hdest, horigin, hcontrol, hsize, rfl,
    Nat.zero_le _⟩, fun j hj => absurd hj (Nat.not_lt_zero _)⟩
  rw [length_chain]
  dsimp only
  omega

/-- A reply over the chain that the destination saw. -/
theorem placed_reply {g : L2Frame} {i : ℕ} {dest origin : L2Addr} {tail : CStr}
    (h : line.Ok s (.reply i dest origin tail)) (hc : line.Placed t c) (hforward : c.forward = true)
    (hdue : c.due = none) (hg : c.frame = some g) :
    line.Placed t ⟨false, ⟨dest, origin, (g.digis.map clearRepeated).reverse, tail⟩,
      some ⟨dest, origin, (g.digis.map clearRepeated).reverse, tail⟩, 0⟩ := by
  obtain ⟨hdest, horigin, hcontrol⟩ := h
  rcases hc with ⟨-, as, hc, hholds⟩ | ⟨hback, -⟩
  swap
  · rw [hforward] at hback
    cases hback
  have hhops : c.hops = line.length := by
    rw [hc.due] at hdue
    split at hdue
    · cases hdue
    · exact le_antisymm hc.hops (by omega)
  have hlen : as.length = line.length := by
    have hlen := hc.len
    have hpos := line.places_ne
    rw [hlen, hhops]
    unfold length
    omega
  have hdigis : g.digis.map clearRepeated = as := by
    have hframe := hc.frame
    rw [hg] at hframe
    obtain rfl := Option.some.inj hframe
    dsimp only
    rw [marked_full (by omega), List.map_map]
    conv_rhs => rw [← List.map_id as]
    exact List.map_congr_left fun a ha => clearRepeated_setRepeated (hc.along.fresh a ha)
  rw [hdigis]
  refine .inr ⟨rfl, as, ⟨hc.along, hlen, rfl, hdest, horigin, hcontrol, rfl, Nat.zero_le _⟩,
    fun j => hholds j ?_⟩
  rw [hhops, length]
  have hlt := j.isLt
  omega

/-- A frame that a station has handled, and a table that it has left in order. -/
theorem Running.set (h : Running s) {j : Fin line.places.length} {m : L2Node} {i : ℕ}
    (horder : (line.relay j).InOrder m.circuits)
    (hkept : line.Needs j → (line.relay j).Holds (s.tables j) → (line.relay j).Holds m.circuits)
    (hc : line.Placed (Function.update s.tables j m.circuits) c) :
    Running ({ tables := Function.update s.tables j m.circuits, frames := s.frames.set i c } :
      L2Traffic line) where
  order l := by
    dsimp only
    by_cases hl : l = j
    · subst hl
      rw [Function.update_self]
      exact horder
    · rw [Function.update_of_ne hl]
      exact h.order l
  placed d hd := by
    rcases List.mem_or_eq_of_mem_set hd with hd | rfl
    · refine (h.placed d hd).mono fun l hneeds hholds => ?_
      dsimp only
      by_cases hl : l = j
      · subst hl
        rw [Function.update_self]
        exact hkept hneeds hholds
      · rw [Function.update_of_ne hl]
        exact hholds
    · exact hc

/-- A frame that a plain digipeater has handled. -/
theorem Running.replace (h : Running s) {i : ℕ} (hc : line.Placed s.tables c) :
    Running { s with frames := s.frames.set i c } where
  order := h.order
  placed d hd := by
    rcases List.mem_or_eq_of_mem_set hd with hd | rfl
    · exact h.placed d hd
    · exact hc

/-- One station handles a frame. -/
theorem running_hop (h : Running s) {i : ℕ} {n : L2Node} (hok : line.Ok s (.hop i n)) :
    Running (line.step s (.hop i n)) := by
  unfold step
  dsimp only
  cases hi : s.frames[i]? with
  | none => exact h
  | some c =>
  dsimp only
  cases hdue : c.due with
  | none => exact h
  | some at_ =>
  obtain ⟨f, our⟩ := at_
  have hable := fun j => hok c f our j hi hdue
  dsimp only
  rcases h.placed c (List.mem_of_getElem? hi) with ⟨hforward, as, hc, hholds⟩ |
    ⟨hback, as, hc, hholds⟩
  · rw [hc.due] at hdue
    split at hdue
    swap
    · cases hdue
    rename_i hlt
    obtain ⟨rfl, rfl⟩ := Prod.mk.inj (Option.some.inj hdue)
    rcases hc.stationOf hlt with ⟨hvia, hnone⟩ | ⟨j, hj, hsome⟩
    · rw [hnone]
      exact h.replace (.inl ⟨hforward, as, hc.repeated hvia, fun l hl => by
        dsimp only at hl
        omega⟩)
    · rw [hsome]
      dsimp only
      have hj' := hable j hsome
      rw [hforward] at hj' ⊢
      obtain ⟨m, sent, as', hhandle, hahead, horder, hleft⟩ :=
        @Ahead.handled _ _ _ { n with circuits := s.tables j } hc j hj (h.order j) hj'
      rw [hhandle]
      refine h.set horder (fun hneeds _ => hleft hneeds)
        (.inl ⟨rfl, as', ?_, fun l hl hneeds => ?_⟩)
      · rw [← hforward]
        exact hahead
      · dsimp only at hl
        by_cases hlj : l = j
        · subst hlj
          rw [Function.update_self]
          exact hleft hneeds
        · rw [Function.update_of_ne hlj]
          have hne : l.val ≠ j.val := fun heq => hlj (Fin.ext heq)
          exact hholds l (by omega) hneeds
  · rw [hc.due] at hdue
    split at hdue
    swap
    · cases hdue
    rename_i hlt
    obtain ⟨rfl, rfl⟩ := Prod.mk.inj (Option.some.inj hdue)
    rcases hc.stationOf hlt with ⟨hnode, hnone⟩ | ⟨j, hj, hsome⟩
    · rw [hnone]
      exact h.replace (.inr ⟨hback, as, hc.repeated hnode hlt, hholds⟩)
    · rw [hsome]
      dsimp only
      have hj' := hable j hsome
      rw [hback] at hj' ⊢
      obtain ⟨m, sent, hhandle, hturned, horder, hleft⟩ :=
        @Back.handled _ _ _ { n with circuits := s.tables j } hc j hj (h.order j) (hholds j) hj'
      rw [hhandle]
      refine h.set horder (fun hneeds _ => hleft hneeds) (.inr ⟨rfl, as, ?_, fun l hneeds => ?_⟩)
      · rw [← hback]
        exact hturned
      · by_cases hlj : l = j
        · subst hlj
          rw [Function.update_self]
          exact hleft hneeds
        · rw [Function.update_of_ne hlj]
          exact hholds l hneeds

theorem running_step (h : Running s) {e : L2LineEvent} (hok : line.Ok s e) :
    Running (line.step s e) := by
  cases e with
  | send dest origin tail => exact h.push (placed_send hok)
  | hop i n => exact running_hop h hok
  | reply i dest origin tail =>
      unfold step
      dsimp only
      cases hfound : (s.frames[i]?.filter fun c => c.forward && c.due.isNone).bind (·.frame) with
      | none => exact h
      | some g =>
          rw [Option.bind_eq_some_iff] at hfound
          obtain ⟨c, hc, hg⟩ := hfound
          rw [Option.filter_eq_some_iff, Bool.and_eq_true, Option.isNone_iff_eq_none] at hc
          exact h.push (placed_reply hok (h.placed c (List.mem_of_getElem? hc.1)) hc.2.1 hc.2.2 hg)

/-- What has become of a frame of the connection: it is still there, as it was sent but for its
digipeaters; it has arrived exactly when every station has handled it; and it arrives with the nodes
behind the originator's digipeaters, or with the originator's chain turned round. -/
structure Carried (line : L2Line) (c : L2Carriage) (f : L2Frame) : Prop where
  frame : c.frame = some f
  dest : f.dest = c.sent.dest
  origin : f.origin = c.sent.origin
  tail : f.tail = c.sent.tail
  hops : c.hops ≤ line.length
  arrived : f.nextDigi = none ↔ c.hops = line.length
  forward : c.forward = true → c.hops = line.length → ∃ added,
    List.Forall₂ (fun (a : L2Addr) (p : L2Place) => a.toAxCall.same p.call = true) added
        line.places.tail ∧ f.digis = (line.chain ++ added).map setRepeated
  back : c.forward = false → c.hops = line.length → f.digis = line.chain.reverse.map setRepeated

/-- The nodes behind the first. -/
theorem Along.added (h : line.Along as) (hlen : as.length = line.length) :
    ∃ added, as = line.chain ++ added ∧ List.Forall₂
      (fun (a : L2Addr) (p : L2Place) => a.toAxCall.same p.call = true) added line.places.tail := by
  obtain ⟨added, rfl⟩ := h.start
  have hpos := line.places_ne
  rw [List.length_append, length_chain, length] at hlen
  refine ⟨added, rfl, List.forall₂_iff_get.mpr ⟨?_, fun i hi hi' => ?_⟩⟩
  · rw [List.length_tail]
    omega
  · rw [List.length_tail] at hi'
    refine h.place (i + 1) _ _ ?_ ?_
    · rw [List.get_eq_getElem, List.getElem_tail]
      exact List.getElem?_eq_getElem (by omega)
    · rw [List.getElem?_append_right (by rw [length_chain]; omega), length_chain,
        show line.via.length + (i + 1) - (line.via.length + 1) = i by omega]
      exact List.getElem?_eq_getElem hi

theorem Placed.carried (h : line.Placed t c) : ∃ f, line.Carried c f := by
  have hlength : line.length = line.via.length + line.places.length := rfl
  have hpos := line.places_ne
  rcases h with ⟨hforward, as, hc, -⟩ | ⟨hback, as, hc, -⟩
  · have hdue := hc.due
    rw [due_of_frame hc.frame] at hdue
    have hlen := hc.len
    refine ⟨_, hc.frame, rfl, rfl, rfl, hc.hops, ?_, fun _ hhops => ?_, fun h => ?_⟩
    · rw [← Option.map_eq_none_iff, hdue]
      have hle := hc.hops
      split_ifs <;> simp <;> omega
    · obtain ⟨added, rfl, hadded⟩ := hc.along.added (by omega)
      exact ⟨added, hadded, marked_full (by omega)⟩
    · rw [hforward] at h
      cases h
  · have hdue := hc.due
    rw [due_of_frame hc.frame] at hdue
    have hlen := hc.len
    refine ⟨_, hc.frame, rfl, rfl, rfl, hc.hops, ?_, fun h => ?_, fun _ hhops => ?_⟩
    · rw [← Option.map_eq_none_iff, hdue]
      have hle := hc.hops
      split_ifs <;> simp <;> omega
    · rw [hback] at h
      cases h
    · obtain ⟨added, rfl, hadded⟩ := hc.along.added hlen
      have hcut : line.cut c = line.places.length - 1 := by
        rw [cut]
        omega
      have hadd : added.length = line.places.length - 1 := by
        rw [hadded.length_eq, List.length_tail]
      dsimp only
      rw [hcut, List.reverse_append, List.drop_left' (by rw [List.length_reverse, hadd]),
        marked_full (by rw [List.length_reverse, length_chain]; omega)]

/-- Over any line of nodes, in every run of the connection: a frame that was sent is never lost, its
addresses and what follows them stay as they were, it arrives when each station has handled it once,
and its chain is then the originator's with the nodes behind it, or the originator's turned
round. -/
theorem carried_along (line : L2Line) (t : Fin line.places.length → L2Table)
    (hstart : ∀ j, (line.relay j).InOrder (t j)) {es : List L2LineEvent} {s : L2Traffic line}
    (hrun : GuardedRun line.step line.Ok { tables := t } es s) (c : L2Carriage)
    (hc : c ∈ s.frames) : ∃ f, line.Carried c f := by
  have hrunning : Running s := hrun.invariant (I := Running)
    (fun _ _ h hok => running_step h hok) ⟨hstart, fun c hc => by cases hc⟩
  exact (hrunning.placed c hc).carried

theorem ok_hop {i our : ℕ} {j : Fin line.places.length} (c : L2Carriage) (f : L2Frame)
    (hc : s.frames[i]? = some c) (hdue : c.due = some (f, our)) (hj : line.stationOf f our = some j)
    (h : line.Able { n with circuits := s.tables j } j c.forward f our) : line.Ok s (.hop i n) := by
  intro c' f' our' j' hc' hdue' hj'
  obtain rfl := Option.some.inj (hc.symm.trans hc')
  obtain ⟨rfl, rfl⟩ := Prod.mk.inj (Option.some.inj (hdue.symm.trans hdue'))
  obtain rfl := Option.some.inj (hj.symm.trans hj')
  exact h

theorem ok_plain {i our : ℕ} (c : L2Carriage) (f : L2Frame) (hc : s.frames[i]? = some c)
    (hdue : c.due = some (f, our)) (hj : line.stationOf f our = none) : line.Ok s (.hop i n) := by
  intro c' f' our' j' hc' hdue' hj'
  obtain rfl := Option.some.inj (hc.symm.trans hc')
  obtain ⟨rfl, rfl⟩ := Prod.mk.inj (Option.some.inj (hdue.symm.trans hdue'))
  rw [hj] at hj'
  cases hj'

end L2Line

/-! ### Two nodes -/

namespace Bench

/-- `U` connects to `K` over `X`, `N` and `A`. -/
def twoNodes : L2Line where
  user := addr 0x55
  dest := addr 0x4B
  via := [hopAddr 0x58]
  first := hopAddr 0x4E
  places := [⟨addr 0x4E, 1, 1, by decide, by decide⟩, ⟨addr 0x41, 1, 1, by decide, by decide⟩]
  starts := ⟨_, rfl, by decide⟩
  fresh := by decide
  apart := by decide
  distinct := by decide
  others := by decide
  fits := by decide

/-- The connection comes up: `K` answers the first frame, and each station handles both frames. -/
def comesUp : List L2LineEvent :=
  [.send (hopAddr 0x4B) (hopAddr 0x55) [0x3F], .hop 0 digipeater, .hop 0 digipeater, .hop 0 besideK,
    .reply 0 (hopAddr 0x55) (hopAddr 0x4B) [0x73], .hop 1 besideK, .hop 1 digipeater,
    .hop 1 digipeater]

/-- The traffic after so many events. -/
def cameUp (k : ℕ) : L2Traffic twoNodes :=
  (comesUp.take k).foldl twoNodes.step { tables := fun _ => L2Table.empty }

/-- A frame of the connection after so many events. -/
def carriedAt (i k : ℕ) : L2Carriage :=
  (cameUp k).frames[i]?.getD ⟨true, opening.frame, none, 0⟩

/-- `U` to `K`, and `K` to `U`. -/
def toK (digis : List L2Addr) : L2Frame := ⟨hopAddr 0x4B, hopAddr 0x55, digis, [0x3F]⟩
def toU (digis : List L2Addr) : L2Frame := ⟨hopAddr 0x55, hopAddr 0x4B, digis, [0x73]⟩

theorem serves_digipeater (t : L2Table) (j : Fin twoNodes.places.length) :
    (twoNodes.relay j).Serves { digipeater with circuits := t } where
  transit := rfl
  l2Transit := rfl
  crossport := .inl (by revert j; decide)
  digiBack := ⟨1, rfl, by decide, by decide⟩
  digiAhead := ⟨1, rfl, by decide, by decide⟩

theorem serves_besideK (t : L2Table) (j : Fin twoNodes.places.length) :
    (twoNodes.relay j).Serves { besideK with circuits := t } where
  transit := rfl
  l2Transit := rfl
  crossport := .inl (by revert j; decide)
  digiBack := ⟨1, rfl, by decide, by decide⟩
  digiAhead := ⟨1, rfl, by decide, by decide⟩

set_option maxRecDepth 10000 in
theorem ok_forward : twoNodes.Ok (cameUp 2) (.hop 0 digipeater) :=
  L2Line.ok_hop (carriedAt 0 2) (toK [(hopAddr 0x58).setRepeated, hopAddr 0x4E])
    (by decide +kernel)
    (show (carriedAt 0 2).due = some (toK [(hopAddr 0x58).setRepeated, hopAddr 0x4E], 1) by
      decide +kernel)
    (show twoNodes.stationOf _ _ = some ⟨0, by decide⟩ by decide +kernel)
    { serves := serves_digipeater _ _
      carried := fun _ => by decide +kernel
      cap := fun _ => by decide +kernel
      room := fun _ => ⟨0, by decide +kernel⟩
      routes := fun _ q hq => ⟨addr 0x41, by
        obtain rfl : addr 0x41 = q := Option.some.inj hq
        decide, by decide +kernel⟩
      adjacent := fun _ h => by cases h
      known := fun h => by cases h
      live := fun h => by cases h
      home := fun h => by cases h }

set_option maxRecDepth 10000 in
theorem ok_forward_last : twoNodes.Ok (cameUp 3) (.hop 0 besideK) :=
  L2Line.ok_hop (carriedAt 0 3)
    (toK [(hopAddr 0x58).setRepeated, (hopAddr 0x4E).setRepeated, hopAddr 0x41])
    (by decide +kernel)
    (show (carriedAt 0 3).due =
        some (toK [(hopAddr 0x58).setRepeated, (hopAddr 0x4E).setRepeated, hopAddr 0x41], 2) by
      decide +kernel)
    (show twoNodes.stationOf _ _ = some ⟨1, by decide⟩ by decide +kernel)
    { serves := serves_besideK _ _
      carried := fun _ => by decide +kernel
      cap := fun _ => by decide +kernel
      room := fun _ => ⟨0, by decide +kernel⟩
      routes := fun _ q hq => by cases hq
      adjacent := fun _ _ => by decide +kernel
      known := fun _ _ => by unfold L2Relay.KnownOn; decide +kernel
      live := fun h => by cases h
      home := fun h => by cases h }

set_option maxRecDepth 10000 in
theorem ok_back_last : twoNodes.Ok (cameUp 5) (.hop 1 besideK) :=
  L2Line.ok_hop (carriedAt 1 5) (toU [hopAddr 0x41, hopAddr 0x4E, hopAddr 0x58])
    (by decide +kernel)
    (show (carriedAt 1 5).due = some (toU [hopAddr 0x41, hopAddr 0x4E, hopAddr 0x58], 0) by
      decide +kernel)
    (show twoNodes.stationOf _ _ = some ⟨1, by decide⟩ by decide +kernel)
    { serves := serves_besideK _ _
      carried := fun _ => by decide +kernel
      cap := fun _ => by decide +kernel
      room := fun _ => ⟨0, by decide +kernel⟩
      routes := fun h => by cases h
      adjacent := fun h => by cases h
      known := fun _ _ => by unfold L2Relay.KnownOn; decide +kernel
      live := fun _ => by decide +kernel
      home := fun _ h => by cases h }

set_option maxRecDepth 10000 in
theorem ok_back : twoNodes.Ok (cameUp 6) (.hop 1 digipeater) :=
  L2Line.ok_hop (carriedAt 1 6) (toU [(hopAddr 0x41).setRepeated, hopAddr 0x4E, hopAddr 0x58])
    (by decide +kernel)
    (show (carriedAt 1 6).due =
        some (toU [(hopAddr 0x41).setRepeated, hopAddr 0x4E, hopAddr 0x58], 1) by decide +kernel)
    (show twoNodes.stationOf _ _ = some ⟨0, by decide⟩ by decide +kernel)
    { serves := serves_digipeater _ _
      carried := fun _ => by decide +kernel
      cap := fun _ => by decide +kernel
      room := fun _ => ⟨1, by decide +kernel⟩
      routes := fun h => by cases h
      adjacent := fun h => by cases h
      known := fun h => by cases h
      live := fun _ => by decide +kernel
      home := fun _ h => by cases h }

set_option maxRecDepth 10000 in
theorem chain_comesUp : Chain twoNodes.step twoNodes.Ok (cameUp 0) comesUp :=
  ⟨by refine ⟨by decide, by decide, by decide, ?_⟩; decide +kernel,
    L2Line.ok_plain (carriedAt 0 1) (toK [hopAddr 0x58, hopAddr 0x4E]) (by decide +kernel)
      (show (carriedAt 0 1).due = some (toK [hopAddr 0x58, hopAddr 0x4E], 0) by decide +kernel)
      (by decide +kernel),
    ok_forward, ok_forward_last, ⟨by decide, by decide, by decide⟩, ok_back_last, ok_back,
    L2Line.ok_plain (carriedAt 1 7) (toU [(hopAddr 0x4E).setRepeated, hopAddr 0x58])
      (by decide +kernel)
      (show (carriedAt 1 7).due = some (toU [(hopAddr 0x4E).setRepeated, hopAddr 0x58], 1) by
        decide +kernel) (by decide +kernel),
    trivial⟩

set_option maxRecDepth 10000 in
/-- The answer of `K` gets to `U`. -/
theorem carried_along_twoNodes : ∃ f, twoNodes.Carried (carriedAt 1 8) f :=
  twoNodes.carried_along (fun _ => L2Table.empty)
    (fun _ => ⟨fun _ h => (by cases h), fun _ h => (by cases h)⟩) (.of_chain chain_comesUp) _
    (List.mem_of_getElem? (show (cameUp 8).frames[1]? = some (carriedAt 1 8) by decide +kernel))

end Bench

end FlexNet
