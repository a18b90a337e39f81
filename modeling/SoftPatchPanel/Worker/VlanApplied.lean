import SoftPatchPanel.Worker.CmdResFormatter
import SoftPatchPanel.Worker.TwoSides
import SoftPatchPanel.Worker.VlanAttrs
import SoftPatchPanel.Worker.VlanBurst

/-!
# What `vlan_operation` makes of a list of attributes

A port has up to four attributes for a direction, and `vlan_operation` goes through them up
to the first that is none.  Each is an operation of its own, with its own VLAN id and
priority; but the argument of the operation is taken from the array and not from the current
element, so that every tag is written with the tag control information of the first
attribute.

A tag that is written is replaced by the next addition and taken away by the next deletion.
So of all the tags only the last one is seen, and the packets come out as they should exactly
if the last attribute is a deletion or has the tag of the first (`applied_iff`).  Neither is
ensured by the program: stopping a component leaves the attributes of its ports behind, and
the next `port add` puts its own behind them.

What the status command shows is the first attribute.  In every state that can be reached the
attributes are packed to the front of the array (`Packed`), so it is one that is applied.
-/

namespace SoftPatchPanel.Worker

open Transition

/-! ## The operations of a list -/

/-- The tag control information of an attribute's VLAN id and priority. -/
def PortAttrs.ownTci (a : PortAttrs) : ℤ := cpuToBe16 (calcTci a.vlantag.vid a.vlantag.pcp)

/-- The operation of an attribute, with the given tag control information. -/
def PortAttrs.opWith (tci : ℤ) (a : PortAttrs) : VlanOp :=
  match a.ops with
  | .none => .none
  | .addVlan => .add tci
  | .delVlan => .del

/-- The operation of an attribute, with its own VLAN id and priority. -/
def PortAttrs.op (a : PortAttrs) : VlanOp := a.opWith a.ownTci

open PortAttrs (op opWith)

/-- The attributes up to the first that is none. -/
def listed (attrs : Fin portCapablMax → PortAttrs) : List PortAttrs :=
  ((List.finRange portCapablMax).map attrs).takeWhile (·.ops ≠ .none)

/-- Operations one after the other. -/
def VlanOp.applyAll (os : List VlanOp) (f : Frame) : Frame := os.foldl (fun f o => o.apply f) f

/-- The operations that `vlan_operation` performs. -/
def performed (attrs : Fin portCapablMax → PortAttrs) : List VlanOp :=
  (listed attrs).map (PortAttrs.opWith (attrs 0).vlantag.tci)

/-- **The list is applied** to a burst: no packet is dropped, and each has got every
attribute's operation, with the VLAN id and priority of that attribute. -/
def Applied (pc : PortCapability) (portId : ℕ) (dir : PortDir) (pkts : List ℕ) (w : DataPath) :
    Prop :=
  (vlanOperation pc portId dir pkts w).1 = pkts.length ∧
    ∀ x ∈ pkts, (vlanOperation pc portId dir pkts w).2.frame x =
      VlanOp.applyAll ((listed (pc.getPortAttrs portId dir)).map PortAttrs.op) (w.frame x)

/-- **What is shown is applied**: the operation in the status report is one that is
performed, and none is shown only if none is performed. -/
def ShownApplied (attrs : Fin portCapablMax → PortAttrs) : Prop :=
  if (shownAttrs attrs).ops = .none then performed attrs = []
  else (shownAttrs attrs).op ∈ performed attrs

/-- The last attribute is a deletion, or has the tag of the first. -/
def LastLikeFirst (attrs : Fin portCapablMax → PortAttrs) : Prop :=
  ∀ a ∈ (listed attrs).getLast?, a.ops = .addVlan →
    tciBytes (attrs 0).vlantag.tci = tciBytes a.ownTci

theorem editOps_eq (tci : ℤ) (attrs : List PortAttrs) (f : Frame) :
    editOps tci attrs f =
      VlanOp.applyAll ((attrs.takeWhile (·.ops ≠ .none)).map (opWith tci)) f := by
  induction attrs generalizing f with
  | nil => rfl
  | cons a rest ih =>
    rw [editOps]
    cases hops : a.ops with
    | none => simp [hops, VlanOp.applyAll]
    | addVlan | delVlan =>
      rw [List.takeWhile_cons_of_pos (by simp [hops]), List.map_cons, opWith, hops]
      exact ih _

/-- What `vlan_operation` makes of a packet, by the operations it performs. -/
theorem vlanEdit_eq (pc : PortCapability) (portId : ℕ) (dir : PortDir) (f : Frame) :
    vlanEdit pc portId dir f = VlanOp.applyAll (performed (pc.getPortAttrs portId dir)) f :=
  editOps_eq _ _ f

/-! ## Only the last tag is seen -/

/-- The packets differ at most in the tag that was added last. -/
def Agree (f g : Frame) : Prop := f = g ∨ ∃ k t u, f = Frame.addTag t k ∧ g = Frame.addTag u k

theorem addTag_eq_iff {t u : ℤ} (f : Frame) :
    f.addTag t = f.addTag u ↔ tciBytes t = tciBytes u := by
  refine ⟨fun h => ?_, fun h => by simp only [Frame.addTag, h]⟩
  have hpay : (f.addTag t).payload.take 2 = (f.addTag u).payload.take 2 := by rw [h]
  have htake (t : ℤ) : (f.addTag t).payload.take 2 = tciBytes t := by
    unfold Frame.addTag
    split <;> rfl
  rwa [htake, htake] at hpay

variable {f g : Frame} {port : PortInfo} {attrs : Fin portCapablMax → PortAttrs} {P : Platform}
  {pc : PortCapability} {d : PortDir} {E : Env} {s : State} {a : PortAttrs}

/-- Two additions to packets that agree are additions to one packet. -/
theorem Agree.exists_addTag (h : Agree f g) (t u : ℤ) :
    ∃ k : Frame, f.addTag t = k.addTag t ∧ g.addTag u = k.addTag u := by
  rcases h with rfl | ⟨k, t', u', rfl, rfl⟩
  · exact ⟨f, rfl, rfl⟩
  · exact ⟨k, k.addTag_addTag t t', k.addTag_addTag u u'⟩

theorem Agree.delTag (h : Agree f g) : f.delTag = g.delTag := by
  rcases h with rfl | ⟨k, t, u, rfl, rfl⟩
  · rfl
  · rw [Frame.delTag_addTag, Frame.delTag_addTag]

/-- One attribute, with its own tag and with another one. -/
theorem Agree.apply (h : Agree f g) (tci : ℤ) (a : PortAttrs) :
    Agree ((a.opWith tci).apply f) (a.op.apply g) := by
  unfold op opWith
  cases a.ops with
  | none => exact h
  | addVlan =>
    obtain ⟨k, hf, hg⟩ := h.exists_addTag tci a.ownTci
    exact .inr ⟨k, tci, a.ownTci, hf, hg⟩
  | delVlan => exact .inl h.delTag

theorem Agree.applyAll (h : Agree f g) (tci : ℤ) (l : List PortAttrs) :
    Agree (VlanOp.applyAll (l.map (opWith tci)) f)
      (VlanOp.applyAll (l.map op) g) := by
  induction l generalizing f g with
  | nil => exact h
  | cons a l ih => exact ih (h.apply tci a)

/-- **All tags but the last are lost.** -/
theorem applyAll_eq_iff (tci : ℤ) {l : List PortAttrs} (hl : ∀ a ∈ l, a.ops ≠ .none) (f : Frame) :
    VlanOp.applyAll (l.map (opWith tci)) f = VlanOp.applyAll (l.map op) f ↔
      ∀ a ∈ l.getLast?, a.ops = .addVlan → tciBytes tci = tciBytes a.ownTci := by
  induction l using List.reverseRecOn with
  | nil => exact iff_of_true rfl (fun a ha => by cases ha)
  | append_singleton l a _ =>
    have hagree := Agree.applyAll (.inl (rfl : f = f)) tci l
    rw [List.map_append, List.map_append, List.getLast?_concat]
    simp only [VlanOp.applyAll, List.foldl_append, List.map_cons, List.map_nil, List.foldl_cons,
      List.foldl_nil, Option.mem_def, Option.some.injEq, forall_eq']
    unfold op opWith
    cases hops : a.ops with
    | none => exact absurd hops (hl a (by simp))
    | addVlan =>
      obtain ⟨k, hf, hg⟩ := hagree.exists_addTag tci a.ownTci
      refine Iff.trans ?_ (forall_prop_of_true rfl).symm
      rw [← addTag_eq_iff k, ← hf, ← hg]
      rfl
    | delVlan => exact iff_of_true hagree.delTag (fun h => by cases h)

/-! ## Packed attributes -/

/-- An attribute as `update_port_attrs` stores it: an operation, with the tag of its own VLAN
id and priority if it is an addition. -/
structure PortAttrs.Stored (a : PortAttrs) : Prop where
  ops : a.ops ≠ .none
  tci : a.ops = .addVlan → a.vlantag.tci = a.ownTci

/-- The attributes are at the front of the array. -/
def Packed (attrs : Fin portCapablMax → PortAttrs) : Prop :=
  ∃ l : List PortAttrs, (∀ a ∈ l, a.Stored) ∧ attrs = fun i : Fin portCapablMax => l.getD i .zero

/-- An attribute slot that has no operation has no direction. -/
def PortInfo.SlotsOk (port : PortInfo) : Prop :=
  ∀ i, (port.portAttrs i).ops = .none → (port.portAttrs i).dir = .none

theorem packed_zero : Packed fun _ => .zero := ⟨[], nofun, by simp⟩

theorem packed_attrsOf (h : port.SlotsOk) {dir : PortDir} (hdir : dir ≠ .none) :
    Packed (port.attrsOf dir) := by
  refine ⟨_, fun a ha => ?_, rfl⟩
  obtain ⟨b, hb, rfl⟩ := List.mem_map.mp ha
  obtain ⟨hb, hbdir⟩ := List.mem_filter.mp hb
  obtain ⟨i, -, rfl⟩ := List.mem_map.mp hb
  have hops : (port.portAttrs i).ops ≠ .none := by
    intro hnone
    exact hdir ((of_decide_eq_true hbdir).symm.trans (h i hnone))
  unfold PortAttrs.withTci
  cases hb : (port.portAttrs i).ops with
  | none => exact absurd hb hops
  | addVlan => exact ⟨nofun, fun _ => rfl⟩
  | delVlan => exact ⟨hops, fun hadd => absurd (hb.symm.trans hadd) nofun⟩

/-- The first attribute of a packed array is shown, and it is the first that is applied. -/
theorem shownApplied_of_packed (h : Packed attrs) : ShownApplied attrs := by
  obtain ⟨l, hl, rfl⟩ := h
  cases l with
  | nil =>
    have hnone : (shownAttrs fun i : Fin portCapablMax => ([] : List PortAttrs).getD i .zero).ops =
        .none := rfl
    rw [ShownApplied, if_pos hnone]
    rfl
  | cons a l =>
    have ha := hl a List.mem_cons_self
    have hshown : shownAttrs (fun i : Fin portCapablMax => (a :: l).getD i .zero) = a := by
      unfold shownAttrs
      rw [List.finRange_succ, List.find?_cons_of_pos (by simpa using ha.ops)]
      rfl
    unfold ShownApplied
    rw [hshown, if_neg ha.ops, performed, listed, List.finRange_succ, List.map_cons,
      List.takeWhile_cons_of_pos (by simpa using ha.ops), List.map_cons]
    have hop : a.op = a.opWith a.vlantag.tci := by
      unfold op opWith
      cases hops : a.ops with
      | none => rfl
      | addVlan => rw [ha.tci hops]
      | delVlan => rfl
    rw [hop]
    exact List.mem_cons_self

/-! ## The tables of a run -/

/-- The arrays of both sides of every table are packed. -/
def PortCapability.Packed (pc : PortCapability) : Prop :=
  ∀ id dir, dir = .rx ∨ dir = .tx → ∀ side, Worker.Packed ((pc.mng id dir).portAttrs side)

theorem packed_swapRef (h : pc.Packed) : pc.swapRef.Packed := by
  intro id dir hdir side
  rw [swapRef_mng pc id dir hdir]
  split <;> exact h id dir hdir side

theorem packed_updatePortAttrs (h : pc.Packed) (hd : d = .rx ∨ d = .tx) (hport : port.SlotsOk) :
    (updatePortAttrs d pc port).Packed := by
  intro id dir hdir side
  have hself : Worker.Packed (((updatePortAttrs d pc port).mng id d).portAttrs side) := by
    rw [updatePortAttrs_mng]
    split
    · simp only [Function.update_apply]
      split
      · exact packed_attrsOf hport (by rcases hd with rfl | rfl <;> simp)
      · exact h id d hd side
    · exact h id d hd side
  rcases PortDir.eq_or_opposite hd hdir with rfl | hopp
  · exact hself
  · rw [updatePortAttrs_mng_opposite hopp]
    exact h id _ hdir side

theorem packed_foldl (hd : d = .rx ∨ d = .tx) {ports : List PortInfo}
    (hports : ∀ port ∈ ports, port.SlotsOk) (h : pc.Packed) :
    (ports.foldl (updatePortAttrs d) pc).Packed := by
  induction ports generalizing pc with
  | nil => exact h
  | cons port ports ih =>
    rw [List.forall_mem_cons] at hports
    exact ih hports.2 (packed_updatePortAttrs h hd hports.1)

/-- The tables are packed, and so are the slots they are made from. -/
structure SlotsPacked (s : State) : Prop where
  slots : ∀ r, (s.mng.iface r).SlotsOk
  cap : s.cap.Packed

theorem packed_sppwkUpdatePortDir {iface : PortRef → PortInfo} (hslots : ∀ r, (iface r).SlotsOk)
    {comp : CompInfo} {pc' : PortCapability} (h : pc.Packed)
    (hupd : sppwkUpdatePortDir P iface comp pc = .ok pc') : pc'.Packed := by
  have hports (d : PortDir) : ∀ port ∈ comp.portInfos iface d, port.SlotsOk := by
    intro port hport
    obtain ⟨r, -, rfl⟩ := List.mem_map.mp hport
    exact hslots r
  obtain ⟨-, rfl⟩ := sppwkUpdatePortDir_eq_ok.mp hupd
  exact packed_foldl (.inr rfl) (hports .tx) (packed_foldl (.inl rfl) (hports .rx) h)

theorem packed_refreshComp (h : s.cap.Packed) (comp : CompInfo) :
    (refreshComp P E s comp).2.cap.Packed := by
  have hswap := packed_swapRef h
  unfold refreshComp
  split
  · unfold refreshClassifier
    simp only
    split
    · split
      · exact packed_swapRef hswap
      · exact hswap
    · split
      · exact hswap
      · exact h
  · unfold refreshPath
    simp only
    split
    · exact hswap
    · exact h

/-- **A flush keeps the tables packed.** -/
theorem packed_flushCmd {r : Ret × State} (hs : SlotsPacked s)
    (h : flushCmd P E s = .ok r) : SlotsPacked r.2 := by
  refine flushCmd_induction ?_ ?_ hs h
  · intro s m hs hsame _
    refine ⟨fun r => ?_, hs.cap⟩
    show (m.iface r).SlotsOk
    rw [hsame r]
    exact hs.slots r
  intro s r cnt hs h₁
  have hm := updateOneComp_mng h₁
  rw [updateOneComp_eq] at h₁
  obtain ⟨cap, hcap, h₁⟩ := bind_eq_ok.mp h₁
  have hpacked := packed_sppwkUpdatePortDir hs.slots hs.cap hcap
  simp only at h₁
  split at h₁
  · cases h₁
  · cases h₁
    exact ⟨fun r => by rw [hm]; exact hs.slots r, packed_refreshComp hpacked _⟩

theorem slotsOk_setAttr (h : port.SlotsOk) (i : Fin portCapablMax)
    (ha : a.ops ≠ .none) : (port.setAttr i a).SlotsOk := by
  intro j hj
  rcases eq_or_ne j i with rfl | hne
  · simp only [PortInfo.setAttr, Function.update_self] at hj
    exact absurd hj ha
  · simp only [PortInfo.setAttr, Function.update_of_ne hne] at hj ⊢
    exact h j hj

theorem slotsOk_clearAttrs (h : port.SlotsOk) (dir : PortDir) : (port.clearAttrs dir).SlotsOk := by
  intro i
  simp only [PortInfo.clearAttrs]
  split
  · exact fun _ => rfl
  · exact h i

/-- The first step of a command stores attributes that are operations, and clears slots
altogether. -/
theorem slotsOk_change {m m' : MngData} {cmd : CmdAttrs} (h : ∀ r, (m.iface r).SlotsOk)
    (hc : Change P m cmd m') (r : PortRef) : (m'.iface r).SlotsOk := by
  have hedit {id : ℕ} {r' : PortRef} {port : PortInfo} {comp : CompInfo} (hport : port.SlotsOk) :
      ((m.editPort id r' port comp).iface r).SlotsOk := by
    simp only [MngData.editPort, Function.update_apply]
    split
    · exact hport
    · exact h r
  cases hc with
  | entry _ _ _ _ _ hflag =>
    obtain ⟨change, rfl⟩ := setComponentChangePort_eq_ok hflag
    simp only [MngData.setClsAttrs, Function.update_apply]
    split
    · rename_i hr
      exact hr ▸ h r
    · exact h r
  | start | stop | absent | listed => exact h r
  | retag _ _ _ _ _ hops _ => exact hedit (slotsOk_setAttr (h _) _ (by rw [hops]; nofun))
  | attach _ _ _ _ _ _ hattr =>
    rcases hattr with ⟨-, rfl⟩ | ⟨hops, i, -, rfl⟩
    · exact hedit (h _)
    · exact hedit (slotsOk_setAttr (h _) i hops)
  | detach => exact hedit (slotsOk_clearAttrs (h _) _)

theorem SlotsPacked.step {s' : State} {e : Request} (hs : SlotsPacked s)
    (h : handleRequest P s e = some s') : SlotsPacked s' := by
  rcases handleRequest_cases h with rfl | ⟨cmd, m₁, ret, -, -, hc, hflush⟩
  · exact hs
  · exact packed_flushCmd (s := { s with mng := m₁ }) ⟨slotsOk_change hs.slots hc, hs.cap⟩ hflush

theorem slotsPacked_startUp : SlotsPacked (startUp P) where
  slots r i _ := by rw [portAttrs_startUp]; rfl
  cap id dir hdir side := by
    rcases hdir with rfl | rfl <;> exact packed_zero

/-- **In every state that can be reached** the attributes are packed. -/
theorem slotsPacked_of_run {h : List (State × Request)}
    (hrun : Run (workerSystem P) h s) : SlotsPacked s := by
  refine hrun.invariant (G := fun _ _ => True) ?_ (fun _ _ _ hs _ hstep => hs.step hstep)
    fun _ _ => trivial
  rintro _ rfl
  exact slotsPacked_startUp

/-! ## The theorem -/

theorem ops_of_mem_listed (h : a ∈ listed attrs) : a.ops ≠ .none := by
  simpa using List.mem_takeWhile_imp h

/-- Without a failure the burst comes out whole, and every packet has got the operations that
are performed. -/
theorem vlanOperation_performed (pc : PortCapability) (portId : ℕ) (dir : PortDir)
    {pkts : List ℕ} (hnodup : pkts.Nodup) {w : DataPath} (hroom : true ∉ w.answers.null dir) :
    (vlanOperation pc portId dir pkts w).1 = pkts.length ∧
      ∀ x ∈ pkts, (vlanOperation pc portId dir pkts w).2.frame x =
        VlanOp.applyAll (performed (pc.getPortAttrs portId dir)) (w.frame x) := by
  obtain ⟨n, w₁, used, hop, -, hedits, hiff⟩ := vlanOperation_edits pc portId dir pkts w
  have hall : n = pkts.length := by
    rw [hedits.null, List.mem_append, not_or] at hroom
    exact hiff.mpr hroom.1
  have hn : (vlanOperation pc portId dir pkts w).1 = pkts.length := by rw [hop, hall]
  refine ⟨hn, fun x hx => ?_⟩
  rw [← vlanEdit_eq]
  refine (frame_vlanOperation pc portId dir hnodup w x).1 ?_
  rwa [hn, List.take_length]

/-- **The list of attributes**, for every port and direction of a state that can be reached
and every burst of packets on which no call for room fails: the packets come out as the list
says, and what the status report shows is applied, if and only if the last attribute of the
list is a deletion or has the tag of the first. -/
theorem applied_iff (P : Platform) {h : List (State × Request)} {s : State}
    (hrun : Run (workerSystem P) h s) (portId : ℕ) {dir : PortDir} (hdir : dir = .rx ∨ dir = .tx)
    {pkts : List ℕ} (hnodup : pkts.Nodup) {w : DataPath} (hroom : true ∉ w.answers.null dir) :
    (Applied s.cap portId dir pkts w ∧ ShownApplied (s.cap.getPortAttrs portId dir)) ↔
      pkts = [] ∨ LastLikeFirst (s.cap.getPortAttrs portId dir) := by
  have hpacked : Packed (s.cap.getPortAttrs portId dir) :=
    (slotsPacked_of_run hrun).cap portId dir hdir (s.cap.mng portId dir).refIndex
  obtain ⟨hlen, hframe⟩ := vlanOperation_performed s.cap portId dir hnodup hroom
  rw [and_iff_left (shownApplied_of_packed hpacked), Applied, and_iff_right hlen]
  have heach (x : ℕ) (hx : x ∈ pkts) : ((vlanOperation s.cap portId dir pkts w).2.frame x =
      VlanOp.applyAll ((listed (s.cap.getPortAttrs portId dir)).map PortAttrs.op) (w.frame x)) ↔
        LastLikeFirst (s.cap.getPortAttrs portId dir) := by
    rw [hframe x hx]
    exact applyAll_eq_iff _ (fun a ha => ops_of_mem_listed ha) _
  constructor
  · intro happlied
    cases pkts with
    | nil => exact .inl rfl
    | cons x xs => exact .inr ((heach x List.mem_cons_self).mp (happlied x List.mem_cons_self))
  · rintro (rfl | hlast) x hx
    · cases hx
    · exact (heach x hx).mpr hlast

/-- One packet without a tag, in every mbuf. -/
def untagged : DataPath := .init ⟨0, 0, 0x0800#16, []⟩ ⟨[], fun _ => [], []⟩

/-- A port on which a tag has been left behind is attached again with a deletion: the second
attribute undoes the first. -/
theorem applied_add_del : ∃ h s, Run (workerSystem (.sample .vf)) h s ∧
    h.map Prod.snd = [.plain "port add phy:0 rx b del_vlantag",
      .plain "component start b 2 forward", .plain "component stop a",
      .plain "port add phy:0 rx a add_vlantag 10 3", .plain "component start a 2 forward"] ∧
    (listed (s.cap.getPortAttrs 0 .rx)).map PortAttrs.ops = [.addVlan, .delVlan] ∧
    Applied s.cap 0 .rx [7, 8] untagged ∧
    (vlanOperation s.cap 0 .rx [7, 8] untagged).2.frame 8 = untagged.frame 8 := by
  obtain ⟨h, s, hrun, hmap, hops, hframe⟩ := exists_run_of_requests (.sample .vf)
    [.plain "component start a 2 forward", .plain "port add phy:0 rx a add_vlantag 10 3",
      .plain "component stop a", .plain "component start b 2 forward",
      .plain "port add phy:0 rx b del_vlantag"]
    (fun s => (listed (s.cap.getPortAttrs 0 .rx)).map PortAttrs.ops = [.addVlan, .delVlan] ∧
      (vlanOperation s.cap 0 .rx [7, 8] untagged).2.frame 8 = untagged.frame 8)
    (by decide +kernel)
  have hcond : LastLikeFirst (s.cap.getPortAttrs 0 .rx) := by
    intro a ha hadd
    have hlast := congrArg List.getLast? hops
    rw [List.getLast?_map, ha] at hlast
    exact absurd (hadd.symm.trans (Option.some.inj hlast)) (by decide)
  exact ⟨h, s, hrun, hmap, hops, ((applied_iff (.sample .vf) hrun 0 (.inl rfl)
    (by decide : [7, 8].Nodup) (w := untagged) nofun).mpr (.inr hcond)).1, hframe⟩

/-- **Attributes that are left behind.**  A component is stopped with a tag on its port, and
the port is attached again with another tag: packets get VLAN id 10 and not 20. -/
theorem not_applied_two : ∃ h s, Run (workerSystem (.sample .vf)) h s ∧
    h.map Prod.snd = [.plain "port add phy:0 rx b add_vlantag 20 3",
      .plain "component start b 2 forward", .plain "component stop a",
      .plain "port add phy:0 rx a add_vlantag 10 3", .plain "component start a 2 forward"] ∧
    ((vlanOperation s.cap 0 .rx [7] untagged).2.frame 7).payload = [0x60, 0x0a, 0x08, 0x00] ∧
    ¬ Applied s.cap 0 .rx [7] untagged := by
  obtain ⟨h, s, hrun, hmap, hpayload, hown⟩ := exists_run_of_requests (.sample .vf)
    [.plain "component start a 2 forward", .plain "port add phy:0 rx a add_vlantag 10 3",
      .plain "component stop a", .plain "component start b 2 forward",
      .plain "port add phy:0 rx b add_vlantag 20 3"]
    (fun s => ((vlanOperation s.cap 0 .rx [7] untagged).2.frame 7).payload =
        [0x60, 0x0a, 0x08, 0x00] ∧
      (VlanOp.applyAll ((listed (s.cap.getPortAttrs 0 .rx)).map PortAttrs.op)
        (untagged.frame 7)).payload = [0x60, 0x14, 0x08, 0x00])
    (by decide +kernel)
  refine ⟨h, s, hrun, hmap, hpayload, fun happlied => ?_⟩
  have hframe := happlied.2 7 List.mem_cons_self
  rw [hframe, hown] at hpayload
  exact absurd hpayload (by decide)

end SoftPatchPanel.Worker
