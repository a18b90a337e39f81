import SoftPatchPanel.Worker.CompPorts

/-!
# What a failed command leaves behind

A command that fails should leave the management data as they were.  Its first step
does that by itself, because it checks before it changes.  A command whose first
step succeeds can still fail in the flush, and there nothing is taken back: the
copies that `backup_mng_info` makes are never restored.  If the flush stops at a
device even the flags stay set, so that the next command finds the half-applied
change and tries again; if it stops at a table the flags are cleared and the change
stays for good.

So a failed command leaves no trace exactly when it was refused or had nothing to
change (`unchanged_iff_refused`).  The second case has a condition on the flags: a
flush that stops at a device keeps the one that the command has set, and a flush
that stops later clears those that were set before.
-/

namespace SoftPatchPanel.Worker

open Transition
open Function (update update_self update_of_ne update_eq_self_iff)

variable {P : Platform} {m m' m₁ : MngData} {id : ℕ} {r : PortRef} {dir : PortDir} {port : PortInfo}
  {req : CString} {cmd : CmdAttrs} {a : ClsCmdAttrs} {mac : BitVec 64}

/-- Two interface tables agree but for ethdev ids. -/
def SameIface (m m' : MngData) : Prop :=
  ∀ r, (m'.iface r).ifaceType = (m.iface r).ifaceType ∧
    (m'.iface r).clsAttrs = (m.iface r).clsAttrs ∧ (m'.iface r).portAttrs = (m.iface r).portAttrs

/-- The management data are as before: the component table, the id lists, the
interface table and the pending flags. -/
structure Unchanged (m m' : MngData) : Prop where
  comp : m'.comp = m.comp
  ids : ∀ l side, ((m'.core l).core side).ids = ((m.core l).core side).ids
  iface : SameIface m m'
  changeCore : m'.changeCore = m.changeCore
  changeComp : m'.changeComp = m.changeComp

/-- The entry is as the request wants it. -/
def EntryThere (a : ClsCmdAttrs) (mac : BitVec 64) (attrs : ClsAttrs) : Prop :=
  match a.wkAction with
  | .del => attrs.cleared = attrs
  | .add => attrs.entered a.vid mac a.mac = attrs
  | _ => True

/-- The port is as the request wants it: listed with the same tag, or neither listed
nor tagged. -/
def PortThere (c : CompInfo) (port : PortInfo) (r : PortRef) (p : CmdPort) : Prop :=
  match p.wkAction with
  | .add => r ∈ c.ports p.dir ∧ (p.portAttrs.ops = .addVlan →
      ∀ i, port.slotOf .addVlan = some i → port.portAttrs i = p.portAttrs)
  | _ => r ∉ c.ports p.dir ∧ ∀ i, (port.portAttrs i).ops ≠ .none → (port.portAttrs i).dir ≠ p.dir

/-- The tables are already as the command wants them. -/
def AsksNothing (P : Platform) (m : MngData) : CmdAttrs → Prop
  | .clsMac a | .clsVlan a => ∀ mac r, sppwkConvertMacStrToInt64 a.mac = .ok mac →
      getSppwkPort P a.port.ifaceType a.port.ifaceNo a.port.queueNo = .ok (some r) →
      EntryThere a mac (m.iface r).clsAttrs
  | .worker c => c.wkAction = .stop ∧ sppwkGetLcoreId P m c.name = none
  | .port p => ∀ id r, sppwkGetLcoreId P m p.name = some id →
      getSppwkPort P p.port.ifaceType p.port.ifaceNo p.port.queueNo = .ok (some r) →
      PortThere (m.comp id) (m.iface r) r p
  | _ => True

/-- The component that a command marks as changed even if it asks for nothing. -/
def Marks (P : Platform) (m : MngData) (id : ℕ) : CmdAttrs → Prop
  | .clsMac a | .clsVlan a => ∃ r,
      getSppwkPort P a.port.ifaceType a.port.ifaceNo a.port.queueNo = .ok (some r) ∧
      sppwkCheckUsedPort P m (m.iface r).ifaceType (m.iface r).ifaceNo (m.iface r).queueNo .tx =
        .ok (some id)
  | .port p => sppwkGetLcoreId P m p.name = some id ∧
      (p.wkAction = .add → p.portAttrs.ops = .addVlan)
  | _ => False

/-- A flush that fails leaves the flags as they are.  If devices that are still missing
can be created it clears them, and then there must have been none before; if not it
keeps them, and then what the command marks must have been marked before. -/
def FlagsFit (P : Platform) (E : PmdEnv) (m : MngData) (cmd : CmdAttrs) : Prop :=
  ((updatePortInfo P E m).1 = .ng → ∀ id, Marks P m id cmd → m.changeComp id = true) ∧
    ((updatePortInfo P E m).1 = .ok →
      m.changeCore = (fun _ => false) ∧ m.changeComp = fun _ => false)

theorem SameButEthdev.sameIface (h : SameButEthdev m.iface m'.iface) : SameIface m m' := by
  intro r
  rw [h r]
  exact ⟨rfl, rfl, rfl⟩

theorem SameIface.symm (h : SameIface m m') : SameIface m' m :=
  fun r => ⟨(h r).1.symm, (h r).2.1.symm, (h r).2.2.symm⟩

theorem SameIface.trans {m'' : MngData} (h : SameIface m m') (h' : SameIface m' m'') :
    SameIface m m'' :=
  fun r => ⟨(h' r).1.trans (h r).1, (h' r).2.1.trans (h r).2.1, (h' r).2.2.trans (h r).2.2⟩

/-- A start always shows in the component table. -/
theorem startComp_comp_ne {c : CmdComp} (hne : c.name ≠ [])
    (hname : sppwkGetLcoreId P m c.name = none) (hid : getFreeLcoreId P m = some id) :
    (m.startComp c id).comp ≠ m.comp := by
  intro hcomp
  have hlt := (getFreeLcoreId_eq_some P hid).1
  have hold : (m.comp id).name = c.name := by
    rw [← hcomp]
    simp [MngData.startComp, startedComp]
  rw [sppwkGetLcoreId, if_neg hne] at hname
  have hnot := List.find?_eq_none.mp hname id (List.mem_range.mpr hlt)
  exact hnot (by simpa using hold)

/-- So does a stop. -/
theorem stopComp_comp_ne {name : CString}
    (hid : sppwkGetLcoreId P m name = some id) : (m.stopComp id).comp ≠ m.comp := by
  intro hcomp
  obtain ⟨-, hname, hne⟩ := sppwkGetLcoreId_eq_some P hid
  have hold : (m.comp id).name = [] := by
    rw [← hcomp]
    simp [MngData.stopComp, CompInfo.zero]
  exact hne (hname ▸ hold)

theorem addPort_ne (c : CompInfo) (dir : PortDir) (r : PortRef) : c.addPort dir r ≠ c := by
  intro h
  have hports := c.ports_addPort dir r
  rw [h] at hports
  simpa using congrArg List.length hports

theorem delPort_eq_self_iff {c : CompInfo} : c.delPort dir r = c ↔ r ∉ c.ports dir := by
  refine ⟨fun h hr => ?_, CompInfo.delPort_of_notMem⟩
  have hperm := CompInfo.ports_delPort_perm hr
  rw [h] at hperm
  simpa using hperm.length_eq

theorem clearAttrs_eq_self_iff : (port.clearAttrs dir).portAttrs = port.portAttrs ↔
      ∀ i, (port.portAttrs i).ops ≠ .none → (port.portAttrs i).dir ≠ dir := by
  constructor
  · intro h i hops hdir
    have hi := congrFun h i
    simp only [PortInfo.clearAttrs, if_pos (And.intro hops hdir)] at hi
    exact hops (by rw [← hi]; rfl)
  · intro h
    funext i
    exact if_neg fun hi => h i hi.1 hi.2

/-- Only starts and stops touch lcores. -/
theorem Change.core_eq
    (hacc : Accepted P m req cmd) (hc : Change P m cmd m₁) (hcomp : m₁.comp = m.comp) :
    m₁.core = m.core ∧ m₁.changeCore = m.changeCore := by
  cases hc with
  | entry _ _ _ _ _ hflag =>
    obtain ⟨change, rfl⟩ := setComponentChangePort_eq_ok hflag
    exact ⟨rfl, rfl⟩
  | start _ hname hid => exact absurd hcomp (startComp_comp_ne (AcceptedComp.name_ne hacc) hname hid)
  | stop _ hid => exact absurd hcomp (stopComp_comp_ne hid)
  | absent | listed | retag | attach | detach => exact ⟨rfl, rfl⟩

/-- A command that goes through has not been refused. -/
theorem Change.not_refused (hc : Change P m cmd m₁) : ¬ Refused P m cmd := by
  intro href
  cases hc with
  | @entry _ a mac r _ _ hcmd hmac hport htype hattrs _ hne =>
    have hwhy : mac = -1#64 ∨ (m.iface r).ifaceType = .undef ∨
        EntryRefused a mac (m.iface r).clsAttrs := by
      rcases hcmd with rfl | rfl <;> exact href mac r hmac hport
    rcases hwhy with h | h | h
    · exact hne h
    · exact htype h
    · rw [updateClsAttrs_eq_none_iff.mpr h] at hattrs
      exact absurd hattrs (by simp)
  | start _ hname hid _ hstatus =>
    rcases href.2 with h | h | h
    · exact hstatus h
    · rw [hname] at h
      exact absurd h (by simp)
    · rw [hid] at h
      exact absurd h (by simp)
  | stop hact | absent hact => exact absurd (hact.symm.trans href.1) (by decide)
  | listed _ hid hport hcount hlisted hops =>
    rcases (href _ _ hid hport).2 with h | ⟨-, h, -⟩ | ⟨h, -⟩
    · exact absurd (hcount.symm.trans h) (by decide)
    · exact hops h
    · exact h hlisted
  | retag _ hid hport hcount hlisted hops hslot =>
    rcases (href _ _ hid hport).2 with h | ⟨-, -, h⟩ | ⟨h, -⟩
    · exact absurd (hcount.symm.trans h) (by decide)
    · exact absurd (hslot.symm.trans h) (by simp)
    · exact h hlisted
  | attach _ hid hport hcount hnew hroom hattr =>
    rcases (href _ _ hid hport).2 with h | ⟨h, -⟩ | ⟨-, h | ⟨hops, hfull⟩⟩
    · exact absurd (hcount.symm.trans h) (by decide)
    · exact hnew h
    · omega
    · rcases hattr with ⟨hnone, -⟩ | ⟨-, i, hslot, -⟩
      · exact hops hnone
      · exact absurd (hslot.symm.trans hfull) (by simp)
  | detach hact hid hport =>
    exact absurd (hact.symm.trans (href _ _ hid hport).1) (by decide)

/-- The interface tables differ in one entry at most. -/
theorem sameIface_update_iff (h : m'.iface = update m.iface r port) :
    SameIface m m' ↔ port.ifaceType = (m.iface r).ifaceType ∧
      port.clsAttrs = (m.iface r).clsAttrs ∧ port.portAttrs = (m.iface r).portAttrs := by
  constructor
  · intro hs
    have hr := hs r
    rwa [h, update_self] at hr
  intro hs r'
  rcases eq_or_ne r' r with rfl | hne
  · rwa [h, update_self]
  · rw [h, update_of_ne hne]
    exact ⟨rfl, rfl, rfl⟩

theorem asksNothing_port_iff {p : CmdPort} (hid : sppwkGetLcoreId P m p.name = some id)
    (hport : getSppwkPort P p.port.ifaceType p.port.ifaceNo p.port.queueNo = .ok (some r)) :
    AsksNothing P m (.port p) ↔ PortThere (m.comp id) (m.iface r) r p := by
  constructor
  · intro h
    exact h id r hid hport
  intro h id' r' hid' hport'
  obtain rfl : id = id' := Option.some.inj (hid.symm.trans hid')
  obtain rfl : r = r' := Option.some.inj (Except.ok.inj (hport.symm.trans hport'))
  exact h

theorem asksNothing_cls_iff
    (hcmd : cmd = .clsMac a ∨ cmd = .clsVlan a) (hmac : sppwkConvertMacStrToInt64 a.mac = .ok mac)
    (hport : getSppwkPort P a.port.ifaceType a.port.ifaceNo a.port.queueNo = .ok (some r)) :
    AsksNothing P m cmd ↔ EntryThere a mac (m.iface r).clsAttrs := by
  have hall : (∀ mac r, sppwkConvertMacStrToInt64 a.mac = .ok mac →
      getSppwkPort P a.port.ifaceType a.port.ifaceNo a.port.queueNo = .ok (some r) →
      EntryThere a mac (m.iface r).clsAttrs) ↔ EntryThere a mac (m.iface r).clsAttrs := by
    constructor
    · intro h
      exact h mac r hmac hport
    intro h mac' r' hmac' hport'
    obtain rfl : mac = mac' := Except.ok.inj (hmac.symm.trans hmac')
    obtain rfl : r = r' := Option.some.inj (Except.ok.inj (hport.symm.trans hport'))
    exact h
  rcases hcmd with rfl | rfl <;> exact hall

theorem entryThere_iff {old new : ClsAttrs}
    (hact : a.wkAction = .add ∨ a.wkAction = .del) (h : updateClsAttrs a mac old = some new) :
    EntryThere a mac old ↔ new = old := by
  unfold EntryThere
  rcases updateClsAttrs_eq_some hact h with ⟨hadd, rfl⟩ | ⟨hdel, rfl⟩
  · rw [hadd]
  · rw [hdel]

/-- **A change is void exactly when the command asks for nothing.** -/
theorem Change.void_iff (hacc : Accepted P m req cmd) (hc : Change P m cmd m₁) :
    m₁.comp = m.comp ∧ SameIface m m₁ ↔ AsksNothing P m cmd := by
  have hrefl : SameIface m m := fun _ => ⟨rfl, rfl, rfl⟩
  cases hc with
  | entry hcmd hmac hport _ hattrs hflag =>
    obtain ⟨change, rfl⟩ := setComponentChangePort_eq_ok hflag
    have haction := (acceptedCls_of_entry hcmd hacc).action
    rw [asksNothing_cls_iff hcmd hmac hport, entryThere_iff haction hattrs,
      sameIface_update_iff rfl]
    simp [MngData.setClsAttrs]
  | start hact hname hid =>
    refine iff_of_false (fun h => startComp_comp_ne (AcceptedComp.name_ne hacc) hname hid h.1) ?_
    exact fun h => absurd (hact.symm.trans h.1) (by decide)
  | stop hact hid =>
    refine iff_of_false (fun h => stopComp_comp_ne hid h.1) ?_
    exact fun h => absurd (hid.symm.trans h.2) (by simp)
  | absent hact hname => exact iff_of_true ⟨rfl, hrefl⟩ ⟨hact, hname⟩
  | listed hact hid hport _ hlisted hops =>
    rw [asksNothing_port_iff hid hport]
    refine iff_of_true ⟨rfl, hrefl⟩ ?_
    simp only [PortThere, hact]
    exact ⟨CompInfo.mem_ports.mpr hlisted, fun h => absurd h hops⟩
  | @retag p id r i hact hid hport _ hlisted hops hslot =>
    rw [asksNothing_port_iff hid hport, sameIface_update_iff rfl]
    simp only [PortThere, hact, MngData.editPort, PortInfo.setAttr, update_eq_self_iff,
      true_and]
    constructor
    · intro h
      refine ⟨CompInfo.mem_ports.mpr hlisted, fun _ j hj => ?_⟩
      obtain rfl : i = j := Option.some.inj (hslot.symm.trans hj)
      exact h.symm
    · intro h
      exact (h.2 hops i hslot).symm
  | attach hact hid hport _ hnew =>
    rw [asksNothing_port_iff hid hport]
    refine iff_of_false (fun h => ?_) (fun h => ?_)
    · exact addPort_ne _ _ _ (update_eq_self_iff.mp h.1)
    · simp only [PortThere, hact] at h
      exact hnew (CompInfo.mem_ports.mp h.1)
  | detach hact hid hport =>
    rw [asksNothing_port_iff hid hport, sameIface_update_iff rfl]
    simp only [PortThere, hact, MngData.editPort, update_eq_self_iff,
      delPort_eq_self_iff, clearAttrs_eq_self_iff]
    simp [PortInfo.clearAttrs]

theorem forall_marks_cls_iff {p : ℕ → Prop} (hcmd : cmd = .clsMac a ∨ cmd = .clsVlan a)
    (hport : getSppwkPort P a.port.ifaceType a.port.ifaceNo a.port.queueNo = .ok (some r)) :
    (∀ id, Marks P m id cmd → p id) ↔ ∀ id, sppwkCheckUsedPort P m (m.iface r).ifaceType
      (m.iface r).ifaceNo (m.iface r).queueNo .tx = .ok (some id) → p id := by
  have hmarks (id : ℕ) : Marks P m id cmd ↔ sppwkCheckUsedPort P m (m.iface r).ifaceType
      (m.iface r).ifaceNo (m.iface r).queueNo .tx = .ok (some id) := by
    have hall : (∃ r', getSppwkPort P a.port.ifaceType a.port.ifaceNo a.port.queueNo =
        .ok (some r') ∧ sppwkCheckUsedPort P m (m.iface r').ifaceType (m.iface r').ifaceNo
          (m.iface r').queueNo .tx = .ok (some id)) ↔
        sppwkCheckUsedPort P m (m.iface r).ifaceType (m.iface r).ifaceNo (m.iface r).queueNo .tx =
          .ok (some id) := by
      constructor
      · rintro ⟨r', hport', h⟩
        obtain rfl : r = r' := Option.some.inj (Except.ok.inj (hport.symm.trans hport'))
        exact h
      · intro h
        exact ⟨r, hport, h⟩
    rcases hcmd with rfl | rfl <;> exact hall
  simp only [hmarks]

/-- What a void change marks. -/
theorem Change.changeComp_eq_iff
    (hacc : Accepted P m req cmd) (hc : Change P m cmd m₁) (hvoid : m₁.comp = m.comp) :
    m₁.changeComp = m.changeComp ↔ ∀ id, Marks P m id cmd → m.changeComp id = true := by
  cases hc with
  | @entry _ a _ r _ _ hcmd _ hport _ _ hflag =>
    rw [forall_marks_cls_iff hcmd hport]
    obtain ⟨o, ho, h⟩ := bind_eq_ok.mp hflag
    -- the new attributes of the port do not matter for who uses it
    change sppwkCheckUsedPort P m _ _ _ _ = .ok o at ho
    rw [ho]
    cases o with
    | none =>
      cases h
      exact iff_of_true rfl (fun id hid => absurd hid (by simp))
    | some id =>
      cases h
      show update m.changeComp id true = m.changeComp ↔ _
      rw [update_eq_self_iff, eq_comm]
      constructor
      · rintro h id' hid'
        rwa [← Option.some.inj (Except.ok.inj hid')]
      · intro h
        exact h id rfl
  | start hact hname hid =>
    exact absurd hvoid (startComp_comp_ne (AcceptedComp.name_ne hacc) hname hid)
  | stop hact hid => exact absurd hvoid (stopComp_comp_ne hid)
  | absent => exact iff_of_true rfl (fun _ h => h.elim)
  | listed hact _ _ _ _ hops => exact iff_of_true rfl (fun _ h => absurd (h.2 hact) hops)
  | retag hact hid _ _ _ hops =>
    rw [MngData.editPort, update_eq_self_iff, eq_comm]
    constructor
    · rintro h id' ⟨hid', -⟩
      rwa [← Option.some.inj (hid.symm.trans hid')]
    · intro h
      exact h _ ⟨hid, fun _ => hops⟩
  | attach hact hid hport _ hnew =>
    exact absurd (update_eq_self_iff.mp hvoid) (addPort_ne _ _ _)
  | detach hact hid =>
    rw [MngData.editPort, update_eq_self_iff, eq_comm]
    constructor
    · rintro h id' ⟨hid', -⟩
      rwa [← Option.some.inj (hid.symm.trans hid')]
    · intro h
      exact h _ ⟨hid, fun hadd => absurd (hact.symm.trans hadd) (by decide)⟩

theorem PortInfo.eq_of_same {p q : PortInfo} (hno : p.ifaceNo = q.ifaceNo)
    (heth : p.ethdevPortId = q.ethdevPortId) (hqueue : p.queueNo = q.queueNo)
    (h : p.ifaceType = q.ifaceType ∧ p.clsAttrs = q.clsAttrs ∧ p.portAttrs = q.portAttrs) :
    p = q := by
  obtain ⟨htype, hcls, hattrs⟩ := h
  cases p
  cases q
  simp_all

/-- A change of the interface table is a change of what is compared here. -/
theorem Change.iface_eq (hc : Change P m cmd m₁) (h : SameIface m m₁) : m₁.iface = m.iface := by
  cases hc with
  | entry _ _ _ _ _ hflag =>
    obtain ⟨change, rfl⟩ := setComponentChangePort_eq_ok hflag
    exact update_eq_self_iff.mpr
      (PortInfo.eq_of_same rfl rfl rfl ((sameIface_update_iff rfl).mp h))
  | start | stop | absent | listed => rfl
  | retag =>
    exact update_eq_self_iff.mpr
      (PortInfo.eq_of_same rfl rfl rfl ((sameIface_update_iff rfl).mp h))
  | @attach p _ r port _ _ _ _ _ _ hattr =>
    have hsame := (sameIface_update_iff rfl).mp h
    refine update_eq_self_iff.mpr ?_
    rcases hattr with ⟨-, rfl⟩ | ⟨-, i, -, rfl⟩ <;> exact PortInfo.eq_of_same rfl rfl rfl hsame
  | detach =>
    exact update_eq_self_iff.mpr
      (PortInfo.eq_of_same rfl rfl rfl ((sameIface_update_iff rfl).mp h))

/-- **What is left of a change when the flush fails.** -/
theorem Change.unchanged_iff {E : PmdEnv}
    (hacc : Accepted P m req cmd) (hc : Change P m cmd m₁) (hf : FlushEffect P E m₁ m') :
    Unchanged m m' ↔ AsksNothing P m cmd ∧ FlagsFit P E m cmd := by
  have hsame : SameIface m₁ m' := SameButEthdev.sameIface hf.iface
  constructor
  · intro hu
    have hcomp : m₁.comp = m.comp := hf.comp.symm.trans hu.comp
    have hiface : SameIface m m₁ := hu.iface.trans hsame.symm
    have hret := updatePortInfo_congr (P := P) (E := E) (hc.iface_eq hiface)
    refine ⟨(hc.void_iff hacc).mp ⟨hcomp, hiface⟩, fun hng => ?_, fun hok => ?_⟩
    · rw [← hc.changeComp_eq_iff hacc hcomp]
      rcases hf.rest with ⟨-, -, -, hflag⟩ | ⟨hok, -⟩
      · exact hflag.symm.trans hu.changeComp
      · exact absurd (hng.symm.trans (hret.symm.trans hok)) (by decide)
    · rcases hf.rest with ⟨hng, -⟩ | ⟨-, -, hcore, hflag⟩
      · exact absurd (hok.symm.trans (hret.symm.trans hng)) (by decide)
      · exact ⟨hu.changeCore.symm.trans hcore, hu.changeComp.symm.trans hflag⟩
  rintro ⟨hasks, hng, hok⟩
  obtain ⟨hcomp, hiface⟩ := (hc.void_iff hacc).mpr hasks
  obtain ⟨hcore, hchange⟩ := hc.core_eq hacc hcomp
  have hret := updatePortInfo_congr (P := P) (E := E) (hc.iface_eq hiface)
  rcases hf.rest with ⟨hret', hcore', hchange', hflag⟩ | ⟨hret', hcore', hchange', hflag⟩
  · have hmarks := (hc.changeComp_eq_iff hacc hcomp).mpr (hng (hret.symm.trans hret'))
    refine ⟨hf.comp.trans hcomp, fun l side => ?_, hiface.trans hsame,
      hchange'.trans hchange, hflag.trans hmarks⟩
    rw [hcore', hcore]
  obtain ⟨hclear, hclear'⟩ := hok (hret.symm.trans hret')
  refine ⟨hf.comp.trans hcomp, fun l side => ?_, hiface.trans hsame,
    hchange'.trans hclear.symm, hflag.trans hclear'.symm⟩
  -- no lcore is marked, so the exchange does not happen
  rw [hcore', exchanged, hchange, hclear, if_neg (by simp), hcore]

/-- **A failed command leaves no trace exactly when it was refused, or asked for nothing
while the flags were as its flush leaves them.**  This is so in every state, and not
only in those that a run can reach. -/
theorem unchanged_iff_refused (P : Platform) {E : Env} {s s' : State} {req : CString}
    {cmd : CmdAttrs} (hparse : parseWkCmd P s.mng req = .ok (.ok cmd))
    (hexec : execOneCmd P E s cmd = .ok (.ng, s')) :
    Unchanged s.mng s'.mng ↔
      Refused P s.mng cmd ∨ (AsksNothing P s.mng cmd ∧ FlagsFit P E.pmd s.mng cmd) := by
  have hacc := accepted_of_parse hparse
  unfold execOneCmd at hexec
  split at hexec
  · rename_i hhand
    obtain ⟨⟨ret₁, s₁⟩, hchange, hflush⟩ := bind_eq_ok.mp hexec
    rcases changeMng_cases hacc hhand hchange with ⟨rfl, rfl, hwhy⟩ | ⟨rfl, m₁, rfl, hc⟩
    · cases hflush
      exact iff_of_true ⟨rfl, fun _ _ => rfl, fun _ => ⟨rfl, rfl, rfl⟩, rfl, rfl⟩ (.inl hwhy)
    · have hf : FlushEffect P E.pmd m₁ s'.mng := flushCmd_effect hflush
      rw [hc.unchanged_iff hacc hf, or_iff_right hc.not_refused]
  · cases hexec

/-- The request is accepted, its execution fails, and the states before and after it
satisfy `p`. -/
def failedWith (P : Platform) (e : Request) (p : State → State → Bool) (s : State) : Bool :=
  match parseWkCmd P s.mng e.str with
  | .ok (.ok cmd) =>
    match execOneCmd P e.env s cmd with
    | .ok (.ng, s') => p s s'
    | _ => false
  | _ => false

theorem failedWith_eq_true {e : Request} {p : State → State → Bool} {s : State}
    (h : failedWith P e p s = true) :
    ∃ cmd s', parseWkCmd P s.mng e.str = .ok (.ok cmd) ∧
      execOneCmd P e.env s cmd = .ok (.ng, s') ∧ p s s' = true := by
  unfold failedWith at h
  split at h
  · rename_i cmd hparse
    split at h
    · rename_i s' hexec
      exact ⟨cmd, s', hparse, hexec, h⟩
    · exact absurd h (by simp)
  · exact absurd h (by simp)

/-- A start on an lcore without a worker is refused. -/
theorem unchanged_iff_refused_unused_lcore :
    ∃ cmd s', parseWkCmd (.sample .vf) (startUp (.sample .vf)).mng
        "component start fwd 5 forward" = .ok (.ok cmd) ∧
      (Unchanged (startUp (.sample .vf)).mng s' ↔ Refused (.sample .vf)
        (startUp (.sample .vf)).mng cmd ∨ (AsksNothing (.sample .vf) (startUp (.sample .vf)).mng cmd ∧
          FlagsFit (.sample .vf) (Request.plain "").env.pmd (startUp (.sample .vf)).mng cmd)) := by
  have hfail : failedWith (.sample .vf) (.plain "component start fwd 5 forward")
      (fun _ _ => true) (startUp (.sample .vf)) = true := by decide +kernel
  obtain ⟨cmd, s', hparse, hexec, -⟩ := failedWith_eq_true hfail
  exact ⟨cmd, s'.mng, hparse, unchanged_iff_refused (.sample .vf) hparse hexec⟩

/-- A request for a vhost port whose device cannot be created. -/
def vhostRequest : Request :=
  let e := Request.plain "port add vhost:0 rx fwd"
  { e with env := { e.env with pmd := { e.env.pmd with addVhostPmd := fun _ => -1 } } }

/-- **A failed command that stays.**  The device cannot be created, the command fails,
and the port is in the list of the forwarder all the same. -/
theorem not_unchanged_of_vhost :
    ∃ h s cmd s', Run (workerSystem (.sample .vf)) h s ∧
      parseWkCmd (.sample .vf) s.mng vhostRequest.str = .ok (.ok cmd) ∧
      execOneCmd (.sample .vf) vhostRequest.env s cmd = .ok (.ng, s') ∧
      ¬ Unchanged s.mng s'.mng := by
  obtain ⟨h, s, hrun, -, hs⟩ := exists_run_of_requests (.sample .vf)
    [.plain "component start fwd 2 forward"]
    (fun s => failedWith (.sample .vf) vhostRequest
      (fun s s' => (s.mng.comp 0).nofRx = 0 ∧ (s'.mng.comp 0).nofRx = 1) s)
    (by decide +kernel)
  obtain ⟨cmd, s', hparse, hexec, hrx⟩ := failedWith_eq_true hs
  obtain ⟨hbefore, hafter⟩ := of_decide_eq_true hrx
  refine ⟨h, s, cmd, s', hrun, hparse, hexec, fun hu => ?_⟩
  rw [hu.comp, hbefore] at hafter
  exact absurd hafter (by decide)

end SoftPatchPanel.Worker
