import FlexNet.L2.Circuits

/-!
# No frame goes round for ever

Every node that handles a frame repeats its own entry, and the frame goes on to the next entry that
is not repeated, or to its destination.  Only the last digipeater of a frame can make it longer, and
the chain is capped; a node that takes a hop out hands the frame on as it is.  `L2Frame.hopsLeft`
goes down with every handling, whatever the nodes' tables say: `L2Frame.handlings_le`.
-/

namespace FlexNet

namespace L2Addr

@[simp] theorem repeated_setRepeated (a : L2Addr) : a.setRepeated.repeated = true := by
  have h := (or_h a.ssid).2.2.1
  rw [repeated, setRepeated]
  dsimp only
  rw [h]
  rfl

@[simp] theorem repeated_ofCall (call : AxCall) : (ofCall call).repeated = false := by
  have h := (and_copy call.ssid).2.2.1
  rw [repeated, ofCall]
  dsimp only
  rw [h]
  rfl

end L2Addr

/-! ## Handlings -/

namespace L2Frame

variable (f : L2Frame)

/-- The digipeater whose turn it is: the first that has not repeated the frame. -/
def nextDigi : Option ℕ := f.digis.findIdx? fun d => !d.repeated

/-- The entries that are not repeated. -/
def unrepeated : ℕ := f.digis.countP fun d => !d.repeated

end L2Frame

/-- The frame as `Digipeat` sends it: the node's entry has its H bit set. -/
def L2Out.sent (out : L2Out) : L2Frame :=
  { out.frame with digis := out.frame.digis.modify out.our L2Addr.setRepeated }

namespace L2Frame

/-- How many nodes handle a frame, when the nodes it comes to are these, each on its arrival port.
The frame ends at its destination, or where a node drops it. -/
def handlings : L2Frame → List (L2Node × ℕ) → ℕ
  | _, [] => 0
  | f, (n, port) :: nodes =>
    match f.nextDigi with
    | none => 0
    | some our =>
      match (n.flexNetL2Transit port f our).2 with
      | none => 1
      | some out => out.sent.handlings nodes + 1

/-! ## The measure -/

/-- The handlings a frame has left at most: a frame before its last digipeater may still be cut down
to one entry, and from then on every extension takes room. -/
def hopsLeft (f : L2Frame) : ℕ :=
  if f.unrepeated = 0 then 0
  else if f.unrepeated = 1 then 1 + (l2MaxDigis - f.digis.length)
  else f.unrepeated - 1 + l2MaxDigis

variable {f : L2Frame} {our : ℕ}

theorem unrepeated_le : f.unrepeated ≤ f.digis.length := List.countP_le_length ..

/-- The entries up to the node's own: those before it are repeated. -/
theorem digis_of_nextDigi (h : f.nextDigi = some our) :
    ∃ before d after, f.digis = before ++ d :: after ∧ before.length = our ∧
      d.repeated = false ∧ ∀ b ∈ before, b.repeated = true := by
  obtain ⟨hlt, hd, hbefore⟩ := List.findIdx?_eq_some_iff_getElem.mp h
  refine ⟨f.digis.take our, f.digis[our], f.digis.drop (our + 1), ?_,
    List.length_take_of_le hlt.le, by simpa using hd, fun b hb => ?_⟩
  · rw [List.getElem_cons_drop, List.take_append_drop]
  · obtain ⟨i, hi, rfl⟩ := List.getElem_of_mem hb
    rw [List.length_take] at hi
    have hrep := hbefore i (by omega)
    simpa using hrep

/-- Counted from the node on: the entries before it are repeated. -/
theorem countP_unrepeated {before after : List L2Addr} {d : L2Addr}
    (hbefore : ∀ b ∈ before, b.repeated = true) :
    (before ++ d :: after).countP (fun a => !a.repeated) =
      (if d.repeated then 0 else 1) + after.countP fun a => !a.repeated := by
  have hzero : before.countP (fun a => !a.repeated) = 0 :=
    List.countP_eq_zero.mpr fun b hb => by simp [hbefore b hb]
  rw [List.countP_append, hzero, List.countP_cons]
  cases d.repeated <;> simp [Nat.add_comm]

/-- Setting the H bit of an entry behind `before`. -/
theorem modify_append {before after : List L2Addr} {d : L2Addr} :
    (before ++ d :: after).modify before.length L2Addr.setRepeated =
      before ++ d.setRepeated :: after := by
  induction before with
  | nil => rfl
  | cons b before ih => simp [ih]

/-- What a frame counts, split at an entry with repeated ones before it. -/
theorem counts_of_split {before after : List L2Addr} {d : L2Addr}
    (hsplit : f.digis = before ++ d :: after) (hbefore : ∀ b ∈ before, b.repeated = true) :
    f.unrepeated = (if d.repeated then 0 else 1) + after.countP (fun a => !a.repeated) ∧
      f.digis.length = before.length + 1 + after.length := by
  constructor
  · rw [unrepeated, hsplit, countP_unrepeated hbefore]
  · rw [hsplit, List.length_append, List.length_cons]
    omega

/-- The node's entry was repeated and those behind it stayed; of those before it any may be gone. -/
theorem hopsLeft_repeated {g : L2Frame} {front before after : List L2Addr} {d : L2Addr}
    (hsplit : f.digis = before ++ d :: after) (hd : d.repeated = false)
    (hbefore : ∀ b ∈ before, b.repeated = true)
    (hsent : g.digis = front ++ d.setRepeated :: after)
    (hfront : ∀ b ∈ front, b.repeated = true) : g.hopsLeft < f.hopsLeft := by
  obtain ⟨hcount, hlen⟩ := counts_of_split hsplit hbefore
  obtain ⟨hcount', hlen'⟩ := counts_of_split hsent hfront
  have hafter : after.countP (fun a => !a.repeated) ≤ after.length := List.countP_le_length ..
  have hmax : l2MaxDigis = 8 := rfl
  rw [hd, if_neg Bool.false_ne_true] at hcount
  rw [d.repeated_setRepeated, if_pos rfl] at hcount'
  unfold hopsLeft
  rw [hcount', hlen', hcount, hlen]
  split_ifs <;> omega

/-- The node was the last digipeater, and a hop stands behind it now. -/
theorem hopsLeft_extended {g : L2Frame} {before : List L2Addr} {d hop : L2Addr}
    (hsplit : f.digis = before ++ [d]) (hd : d.repeated = false)
    (hbefore : ∀ b ∈ before, b.repeated = true) (hroom : f.digis.length < l2MaxDigis)
    (hsent : g.digis = before ++ d.setRepeated :: [hop]) (hhop : hop.repeated = false) :
    g.hopsLeft < f.hopsLeft := by
  obtain ⟨hcount, hlen⟩ := counts_of_split hsplit hbefore
  obtain ⟨hcount', hlen'⟩ := counts_of_split hsent hbefore
  have hone : f.unrepeated = 1 := by rw [hcount, hd]; rfl
  have hone' : g.unrepeated = 1 := by
    rw [hcount', d.repeated_setRepeated, List.countP_singleton, hhop]
    rfl
  rw [hlen] at hroom
  unfold hopsLeft
  rw [hone, hone', hlen, hlen', if_neg one_ne_zero, if_pos rfl, if_neg one_ne_zero, if_pos rfl]
  simp only [List.length_nil, List.length_singleton] at *
  omega

/-- A contracted frame: the entry before the node is gone. -/
theorem removeDigi_split {front after : List L2Addr} {p d : L2Addr}
    (hsplit : f.digis = front ++ [p] ++ d :: after) :
    (f.removeDigi front.length).digis = front ++ d :: after := by
  rw [removeDigi]
  dsimp only
  rw [hsplit, List.append_assoc, List.eraseIdx_append_of_length_le le_rfl]
  simp

/-- The frame as it goes out, split at the node's entry. -/
theorem sent_split {before after : List L2Addr} {d : L2Addr} {toPort : ℕ}
    (hsplit : f.digis = before ++ d :: after) :
    (L2Out.sent ⟨f, before.length, toPort⟩).digis = before ++ d.setRepeated :: after := by
  rw [L2Out.sent]
  dsimp only
  rw [hsplit, modify_append]

/-- One handling takes something off what is left. -/
theorem hopsLeft_sent {n : L2Node} {port : ℕ} {out : L2Out} (h : f.nextDigi = some our)
    (hout : (n.flexNetL2Transit port f our).2 = some out) :
    out.sent.hopsLeft < f.hopsLeft := by
  obtain ⟨before, d, after, hdigis, rfl, hd, hbefore⟩ := digis_of_nextDigi h
  have hfate := n.flexNetL2Transit_fate port f before.length
  rw [hout] at hfate
  cases hfate with
  | passed toPort => exact hopsLeft_repeated hdigis hd hbefore (sent_split hdigis) hbefore
  | contracted toPort i prev hone hprev found hop =>
      -- the entry before the node goes, and the node takes its place
      obtain ⟨front, p, rfl⟩ : ∃ front p, before = front ++ [p] := by
        rcases before.eq_nil_or_concat with rfl | ⟨front, p, rfl⟩
        · simp at hone
        · exact ⟨front, p, List.concat_eq_append⟩
      rw [List.length_append, List.length_singleton, Nat.add_sub_cancel]
      exact hopsLeft_repeated hdigis hd hbefore (sent_split (removeDigi_split hdigis))
        fun b hb => hbefore b (List.mem_append_left [p] hb)
  | extended toPort i hop f' hlast hroom happend =>
      -- the node was the last one: only the new entry is left
      have hnil : after = [] := by
        have hlen := (counts_of_split hdigis hbefore).2
        rw [hlen] at hlast
        exact List.eq_nil_of_length_eq_zero (by omega)
      subst hnil
      have hnew : f'.digis = before ++ d :: [L2Addr.ofCall hop] := by
        rw [appendDigi_some happend, hdigis, List.append_assoc]
        rfl
      exact hopsLeft_extended hdigis hd hbefore hroom (sent_split hnew)
        (L2Addr.repeated_ofCall hop)

theorem hopsLeft_pos (h : f.nextDigi = some our) : 0 < f.hopsLeft := by
  obtain ⟨before, d, after, hdigis, -, hd, hbefore⟩ := digis_of_nextDigi h
  have hcount : f.unrepeated = 1 + after.countP fun a => !a.repeated := by
    rw [unrepeated, hdigis, countP_unrepeated hbefore, hd]
    rfl
  have hmax : l2MaxDigis = 8 := rfl
  unfold hopsLeft
  split_ifs <;> omega

theorem handlings_le_hopsLeft (f : L2Frame) (nodes : List (L2Node × ℕ)) :
    f.handlings nodes ≤ f.hopsLeft := by
  induction nodes generalizing f with
  | nil => exact Nat.zero_le _
  | cons node nodes ih =>
      obtain ⟨n, port⟩ := node
      unfold handlings
      cases hnext : f.nextDigi with
      | none => exact Nat.zero_le _
      | some our =>
          dsimp only
          cases hout : (n.flexNetL2Transit port f our).2 with
          | none => exact hopsLeft_pos hnext
          | some out =>
              have hrest := ih out.sent
              have hless := hopsLeft_sent hnext hout
              dsimp only
              omega

/-- No frame circulates for ever: whatever nodes a frame comes to, on whatever ports, with whatever
tables, it is handled by one node for each of its digipeaters at most, and by as many more as the
cap allows digipeaters. -/
theorem handlings_le (f : L2Frame) (nodes : List (L2Node × ℕ)) :
    f.handlings nodes ≤ f.digis.length + l2MaxDigis := by
  have hleft := handlings_le_hopsLeft f nodes
  have hcount := f.unrepeated_le
  have hmax : l2MaxDigis = 8 := rfl
  refine hleft.trans ?_
  unfold hopsLeft
  split_ifs <;> omega

end L2Frame

end FlexNet
