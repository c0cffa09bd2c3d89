import FlexNet.Links.Keeper
import FlexNet.Setup.PortBlocks

/-!
# Declared neighbours

`flex_port_links_resolve` checks what the PORT blocks declare against the ports BPQ built, once, and
every FlexNet gate asks `FlexNet_PeerLinkOpts` afterwards.  `peerLinkOpts_after` is the answer of
that function in every run of the node, in terms of the text: the MAP entry there is now, else what
the text declares for the port, as far as the port could take it when the node started.
-/

namespace FlexNet

/-! ## Resolving -/

/-- `FLEX_HW_ASYNC` and `FLEX_HW_I2C`. -/
def hwAsync : ℕ := 0
def hwI2c : ℕ := 22

/-- `FLEXNET_PORTLINK_FIRST`. -/
def portLinkFirst : ℤ := 5

/-- `FlexNet_AXIPMapState`: -1, 0 and 1 are none, false and true. -/
def flexNetAxipMapState (axipPorts : List AxipPort) (call : AxCall) (port : ℕ) : Option Bool :=
  (axipPorts.find? (·.port == port)).map fun ap =>
    ap.arpTable.any fun a => a.flexNetFlag && a.callsign.same call

/-- The hash that spreads the first attempts. -/
def linkHash (call : CStr) : UInt32 :=
  call.foldl (fun h c => h * 31 + c.toUInt32) 0

/-- A turn of `flex_port_links_resolve`; `ports` is the `PORTTYPE` of a port that exists. -/
def DeclaredLink.resolve (ports : ℕ → Option ℕ) (axipPorts : List AxipPort) (flexPorts : List ℕ)
    (now : ℤ) (l : DeclaredLink) : PortLink :=
  let pl : PortLink := {
    port := l.port, axcall := l.axcall, opts := l.opts, usable := false, nextTry := 0 }
  let usable : PortLink := { pl with
    usable := true, nextTry := now + portLinkFirst + (linkHash l.call).toNat % 10 }
  match ports l.port with
  | none => pl
  | some hw =>
    match flexNetAxipMapState axipPorts l.axcall l.port with
    | some false => pl
    | some true => { usable with opts := {} }
    | none =>
      if hw ≠ hwAsync ∧ hw ≠ hwI2c then pl
      else if l.port ∉ flexPorts then pl
      else usable

/-- `flex_load_config` and `flex_port_links_resolve`. -/
def flexPortLinksResolve (conv : CStr → Option AxCall) (ports : ℕ → Option ℕ)
    (axipPorts : List AxipPort) (text : Option CStr) (now : ℤ) : List PortLink :=
  let s := PortScan.read conv text
  s.links.map (DeclaredLink.resolve ports axipPorts s.flexPorts now)

/-! ## What a port takes -/

/-- A port takes a declaration of a neighbour: an AXIP port when its MAP has an F entry for it, and
a KISS port when FlexNet is on. -/
def takesDeclared (ports : ℕ → Option ℕ) (axipPorts : List AxipPort) (flexPorts : List ℕ)
    (call : AxCall) (port : ℕ) : Bool :=
  (ports port).any fun hw => (flexNetAxipMapState axipPorts call port).getD
    ((hw == hwAsync || hw == hwI2c) && decide (port ∈ flexPorts))

/-- The options the text declares for a neighbour on a port.  On an AXIP port they are on the MAP
entry. -/
def declaredOpts (conv : CStr → Option AxCall) (ports : ℕ → Option ℕ) (axipPorts : List AxipPort)
    (text : Option CStr) (call : AxCall) (port : ℕ) : Option LinkOpts :=
  let blocks := portBlocks conv text
  let flexPorts :=
    ((blocks.filter PortBlock.flexnet).map PortBlock.number).eraseDups.take maxFlexPorts
  let links := (blocks.flatMap PortBlock.links).take maxPortLinks
  if takesDeclared ports axipPorts flexPorts call port then
    (links.find? fun l => l.port == port && l.axcall.same call).map fun l =>
      if (flexNetAxipMapState axipPorts call port).isSome then {} else l.opts
  else none

variable {ports : ℕ → Option ℕ} {axipPorts : List AxipPort} {flexPorts : List ℕ} {now : ℤ}

/-- Two spellings of one station. -/
theorem AxCall.same_congr {a b : AxCall} (h : a.same b = true) (c : AxCall) :
    c.same a = c.same b := by
  unfold AxCall.same at h ⊢
  simp only [Bool.and_eq_true, beq_iff_eq] at h
  rw [h.1, h.2]

theorem flexNetAxipMapState_congr {a b : AxCall} (h : a.same b = true) (port : ℕ) :
    flexNetAxipMapState axipPorts a port = flexNetAxipMapState axipPorts b port := by
  simp only [flexNetAxipMapState, AxCall.same_congr h]

theorem takesDeclared_congr {a b : AxCall} (h : a.same b = true) (port : ℕ) :
    takesDeclared ports axipPorts flexPorts a port =
      takesDeclared ports axipPorts flexPorts b port := by
  simp only [takesDeclared, flexNetAxipMapState_congr h]

theorem resolve_usable (l : DeclaredLink) :
    (l.resolve ports axipPorts flexPorts now).usable =
      takesDeclared ports axipPorts flexPorts l.axcall l.port := by
  unfold DeclaredLink.resolve takesDeclared
  cases ports l.port with
  | none => rfl
  | some hw =>
      rcases flexNetAxipMapState axipPorts l.axcall l.port with _ | _ | _
      · dsimp only [Option.any_some, Option.getD_none]
        by_cases hhw : hw = hwAsync ∨ hw = hwI2c
        · have hkiss : (hw == hwAsync || hw == hwI2c) = true := by simpa using hhw
          rw [if_neg (by tauto), hkiss, Bool.true_and]
          by_cases hon : l.port ∈ flexPorts
          · rw [if_neg (not_not.mpr hon), decide_eq_true hon]
          · rw [if_pos hon, decide_eq_false hon]
        · have hkiss : (hw == hwAsync || hw == hwI2c) = false := by simpa using hhw
          rw [if_pos (by tauto), hkiss, Bool.false_and]
      · rfl
      · rfl

theorem resolve_opts {l : DeclaredLink}
    (h : takesDeclared ports axipPorts flexPorts l.axcall l.port = true) :
    (l.resolve ports axipPorts flexPorts now).opts =
      if (flexNetAxipMapState axipPorts l.axcall l.port).isSome then {} else l.opts := by
  unfold takesDeclared at h
  unfold DeclaredLink.resolve
  cases hport : ports l.port with
  | none => simp [hport] at h
  | some hw =>
      rcases hstate : flexNetAxipMapState axipPorts l.axcall l.port with _ | _ | _
      · rw [if_neg (by simp)]
        dsimp only
        split_ifs <;> rfl
      · simp [hport, hstate] at h
      · rfl

theorem resolve_named (l : DeclaredLink) : (l.resolve ports axipPorts flexPorts now).port = l.port ∧
    (l.resolve ports axipPorts flexPorts now).axcall = l.axcall := by
  unfold DeclaredLink.resolve
  repeat' split
  all_goals exact ⟨rfl, rfl⟩

/-- The first declaration of a neighbour is the one in force, if its port takes it. -/
theorem flexPortLinkFind_resolve (ls : List DeclaredLink) (call : AxCall) (port : ℕ) :
    (flexPortLinkFind (ls.map (DeclaredLink.resolve ports axipPorts flexPorts now)) call
        port).map PortLink.opts =
      if takesDeclared ports axipPorts flexPorts call port then
        (ls.find? fun l => l.port == port && l.axcall.same call).map fun l =>
          if (flexNetAxipMapState axipPorts call port).isSome then {} else l.opts
      else none := by
  have hpred : ∀ l : DeclaredLink,
      ((l.resolve ports axipPorts flexPorts now).usable &&
        (l.resolve ports axipPorts flexPorts now).port == port &&
        (l.resolve ports axipPorts flexPorts now).axcall.same call) =
      (takesDeclared ports axipPorts flexPorts call port &&
        (l.port == port && l.axcall.same call)) := by
    intro l
    rw [resolve_usable, (resolve_named l).1, (resolve_named l).2]
    by_cases hport : l.port = port
    · subst hport
      cases hsame : l.axcall.same call with
      | true => simp [takesDeclared_congr hsame]
      | false => simp
    · have hne : (l.port == port) = false := beq_false_of_ne hport
      simp [hne]
  unfold flexPortLinkFind
  rw [List.find?_map, Option.map_map]
  simp only [Function.comp_def, hpred]
  cases htakes : takesDeclared ports axipPorts flexPorts call port with
  | false => simp
  | true =>
      simp only [Bool.true_and, if_true]
      refine Option.map_congr fun l hl => ?_
      have hfound : (l.port == port && l.axcall.same call) = true := by
        simpa using List.find?_some hl
      obtain ⟨hport, hsame⟩ := Bool.and_eq_true_iff.mp hfound
      obtain rfl := beq_iff_eq.mp hport
      rw [resolve_opts ((takesDeclared_congr hsame l.port).trans htakes),
        flexNetAxipMapState_congr hsame]

/-! ## Runs -/

namespace PortLink

/-- What a link was declared as, without what the keeper remembers of it. -/
def declaration (pl : PortLink) : PortLink :=
  { pl with wasUp := false, backoff := 0, nextTry := 0 }

end PortLink

theorem flexPortLinkFind_declaration (pls : List PortLink) (call : AxCall) (port : ℕ) :
    (flexPortLinkFind (pls.map PortLink.declaration) call port).map PortLink.opts =
      (flexPortLinkFind pls call port).map PortLink.opts := by
  unfold flexPortLinkFind
  rw [List.find?_map, Option.map_map]
  rfl

namespace Node

theorem keepPortLink_declaration (n : Node) (i : ℕ) :
    (n.keepPortLink i).portLinks.map PortLink.declaration =
      n.portLinks.map PortLink.declaration := by
  have hset : ∀ {m : Node} {pl pl' : PortLink}, m.portLinks[i]? = some pl →
      pl'.declaration = pl.declaration →
      (m.setPortLink i pl').portLinks.map PortLink.declaration =
        m.portLinks.map PortLink.declaration := by
    intro m pl pl' hpl hsame
    unfold setPortLink
    rw [List.map_set, hsame, ← List.map_set]
    obtain ⟨hlt, hget⟩ := List.getElem?_eq_some_iff.mp hpl
    rw [← hget, List.set_getElem_self]
  unfold keepPortLink
  split
  · rfl
  rename_i pl hpl
  split
  · rfl
  split
  · split
    · rfl
    · dsimp only
      split
      · rw [(untouched_flexNetInitSession _ _ _).portLinks]
        exact hset hpl rfl
      · exact hset hpl rfl
  · split
    · exact hset hpl rfl
    split
    · rfl
    split
    · exact hset hpl rfl
    · exact hset hpl rfl

theorem flexPortLinksKeep_declaration (n : Node) :
    n.flexPortLinksKeep.portLinks.map PortLink.declaration =
      n.portLinks.map PortLink.declaration := by
  have hturns : ∀ (is : List ℕ) (m : Node), (is.foldl keepPortLink m).portLinks.map
      PortLink.declaration = m.portLinks.map PortLink.declaration := by
    intro is
    induction is with
    | nil => exact fun _ => rfl
    | cons i is ih => exact fun m => (ih _).trans (m.keepPortLink_declaration i)
  unfold flexPortLinksKeep
  split_ifs
  · rfl
  · rfl
  · exact hturns _ _

/-- The keeper, and everything else, leaves the declarations as they are. -/
theorem event_declaration (n : Node) (e : Event) :
    (n.event e).portLinks.map PortLink.declaration = n.portLinks.map PortLink.declaration := by
  by_cases htimer : e = .timer
  · subst htimer
    exact (congrArg _ n.flexNetTimer_portLinks).trans n.flexPortLinksKeep_declaration
  by_cases hclock : ∃ t k, e = .clock t k
  · obtain ⟨t, k, rfl⟩ := hclock
    rfl
  · rw [(n.event_untouched e (fun t k h => hclock ⟨t, k, h⟩) htimer).portLinks]

theorem after_declaration (n : Node) (events : List Event) :
    (n.after events).portLinks.map PortLink.declaration =
      n.portLinks.map PortLink.declaration := by
  induction events generalizing n with
  | nil => rfl
  | cons e events ih => exact (ih _).trans (n.event_declaration e)

end Node

/-- In every run of a node that read a text: a station is a FlexNet neighbour on a port, under some
options, when the MAP has an F entry for it now, and otherwise when the text declares it there and
the port took that at the start. -/
theorem peerLinkOpts_after (conv : CStr → Option AxCall) (ports : ℕ → Option ℕ) (cfg : Config)
    (axipPorts : List AxipPort) (text : Option CStr) (links : LinkId → Link) (now : ℤ)
    (events : List Event) (call : AxCall) (port : ℕ) :
    let n := (Node.boot cfg axipPorts (flexPortLinksResolve conv ports axipPorts text now) links
      now).after events
    n.flexNetPeerLinkOpts call port =
      ((flexMapFind n.axipPorts call port).map ArpEntry.flexNetOpts).or
        (declaredOpts conv ports axipPorts text call port) := by
  intro n
  have hdeclared : (flexPortLinkFind n.portLinks call port).map PortLink.opts =
      declaredOpts conv ports axipPorts text call port := by
    rw [← flexPortLinkFind_declaration, Node.after_declaration, flexPortLinkFind_declaration]
    change (flexPortLinkFind (flexPortLinksResolve conv ports axipPorts text now) call
      port).map PortLink.opts = _
    have hread := PortScan.read_holds conv text
    unfold flexPortLinksResolve declaredOpts
    dsimp only
    rw [flexPortLinkFind_resolve, hread.links, hread.flexPorts]
  unfold Node.flexNetPeerLinkOpts
  cases flexMapFind n.axipPorts call port with
  | none => exact hdeclared
  | some a => rfl

namespace Bench

/-- A KISS port with a neighbour `A` on a penalised link, whose number comes late. -/
def kissBlock : CStr :=
  wordPort ++ [0x0A] ++ keyFlexnetlink ++ [0x3D, 0x41, 0x20, 0x46, 0x2B, 0x0A] ++
    keyPortnum ++ [0x3D, 0x35, 0x0A] ++ keyFlexnet ++ [0x3D, 0x31, 0x0A] ++
    wordConfig ++ [0x0A] ++ keyPortnum ++ [0x3D, 0x36, 0x0A] ++ wordEndport ++ [0x0A]

/-- Calls of one letter. -/
def oneLetter (call : CStr) : Option AxCall :=
  call.head?.map fun letter => addr letter

example : (Node.boot (config true) [] (flexPortLinksResolve oneLetter (fun _ => some hwAsync) []
    (some kissBlock) 0) links 0).flexNetPeerLinkOpts (addr 0x41) 5 = some { penalty := true } := by
  decide +kernel

end Bench

end FlexNet
