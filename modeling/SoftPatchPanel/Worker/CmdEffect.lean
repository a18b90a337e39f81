import SoftPatchPanel.Worker.CmdRunner
import SoftPatchPanel.Worker.TwoSides

/-!
# What a request can do to the management data

The inversion of the command runner.  `Change` lists the ways in which the first
step of a command can change the management data, with everything that has been
checked on the way; a first step that fails changes nothing
(`changeMng_cases`).  `FlushEffect` says the same of the flush: it touches ethdev ids,
and unless the creation of a device fails it exchanges the changed lcores and
clears the flags.  Every invariant of the management data is proved from these two
and `handleRequest_cases`.
-/

namespace SoftPatchPanel.Worker

open Transition Vf

variable {P : Platform} {E : Env} {s s' : State} {r : Ret × State} {cnt : ℕ} {l : List ℕ}
  {m m' : MngData} {Q : State → Prop} {a : ClsCmdAttrs} {mac : BitVec 64} {cmd : CmdAttrs}
  {ret : Ret} {p : CmdPort} {req : CString}

/-! ## The flush -/

/-- The lcores after the exchange. -/
def exchanged (P : Platform) (m : MngData) (l : ℕ) : CoreMngInfo :=
  if m.changeCore l ∧ l < P.maxLcore then (m.core l).requestSwap.workerSwap.copySides
  else m.core l

/-- What a flush does to the management data. -/
structure FlushEffect (P : Platform) (E : PmdEnv) (m m' : MngData) : Prop where
  comp : m'.comp = m.comp
  iface : SameButEthdev m.iface m'.iface
  rest : ((updatePortInfo P E m).1 = .ng ∧ m'.core = m.core ∧ m'.changeCore = m.changeCore ∧
      m'.changeComp = m.changeComp) ∨
    ((updatePortInfo P E m).1 = .ok ∧ m'.core = exchanged P m ∧
      m'.changeCore = (fun _ => false) ∧ m'.changeComp = fun _ => false)

theorem refreshComp_mng (E : Env) (s : State) (comp : CompInfo) :
    (refreshComp P E s comp).2.mng = s.mng := by
  unfold refreshComp
  split <;> rfl

/-- A component whose ports have places in the lists has places in `ports` for them: the
lists have as many, and all its ports are written to them first. -/
theorem portsFit_of_update {iface : PortRef → PortInfo} {comp : CompInfo} {pc pc' : PortCapability}
    (h : sppwkUpdatePortDir P iface comp pc = .ok pc') : portsFit P comp = true := by
  obtain ⟨⟨-, hroom⟩, -⟩ := sppwkUpdatePortDir_eq_ok.mp h
  rw [portsFit, decide_eq_true_eq]
  exact .inr ⟨(Nat.le_add_left _ _).trans (hroom .rx (.inl rfl)),
    (Nat.le_add_left _ _).trans (hroom .tx (.inr rfl))⟩

/-- So the second of the two bounds is never the one that is missed. -/
theorem updateOneComp_eq (E : Env) (s : State) (cnt : ℕ) :
    updateOneComp P E s cnt = (do
      let cap ← sppwkUpdatePortDir P s.mng.iface (s.mng.comp cnt) s.cap
      let r := refreshComp P E { s with cap := cap } (s.mng.comp cnt)
      if r.1 = .ok ∧ !served P s.mng (s.mng.comp cnt).compId then .error .blocked else .ok r) := by
  unfold updateOneComp
  cases hcap : sppwkUpdatePortDir P s.mng.iface (s.mng.comp cnt) s.cap with
  | error f => rfl
  | ok cap => simp [bind, Except.bind, portsFit_of_update hcap]

theorem updateOneComp_eq_ok (h : updateOneComp P E s cnt = .ok r) :
    ∃ cap, r = refreshComp P E { s with cap := cap } (s.mng.comp cnt) := by
  rw [updateOneComp_eq] at h
  obtain ⟨cap, -, h⟩ := bind_eq_ok.mp h
  simp only at h
  split at h
  · cases h
  · cases h
    exact ⟨cap, rfl⟩

theorem length_pending_refreshComp (E : Env) (s : State) (comp : CompInfo) (dir : PortDir) :
    ((refreshComp P E s comp).2.cap.pending dir).length = (s.cap.pending dir).length := by
  have hswap (pc : PortCapability) : (pc.swapRef.pending dir).length = (pc.pending dir).length := by
    cases dir <;> exact List.length_map _
  unfold refreshComp
  split
  · unfold refreshClassifier
    simp only
    split <;> split <;> simp only [hswap]
  · unfold refreshPath
    simp only
    split
    · exact hswap _
    · rfl

/-- A round of `update_comp_info` needs places in the lists, and takes them. -/
theorem updateOneComp_pending (h : updateOneComp P E s cnt = .ok r) {dir : PortDir}
    (hdir : dir = .rx ∨ dir = .tx) :
    (r.2.cap.pending dir).length = (s.cap.pending dir).length +
      ((s.mng.comp cnt).ports dir).length := by
  rw [updateOneComp_eq] at h
  obtain ⟨cap, hcap, h⟩ := bind_eq_ok.mp h
  obtain ⟨-, rfl⟩ := sppwkUpdatePortDir_eq_ok.mp hcap
  simp only at h
  split at h
  · cases h
  · cases h
    exact (length_pending_refreshComp E _ _ dir).trans (length_pending_updatePortDir _ _ _ hdir)

theorem updateOneComp_mng (h : updateOneComp P E s cnt = .ok r) : r.2.mng = s.mng := by
  obtain ⟨cap, rfl⟩ := updateOneComp_eq_ok h
  exact refreshComp_mng E _ _

theorem updateCompInfo_mng (h : updateCompInfo P E l s = .ok r) : r.2.mng = s.mng := by
  induction l generalizing s with
  | nil =>
    cases h
    rfl
  | cons cnt rest ih =>
    rw [updateCompInfo] at h
    split at h
    · obtain ⟨r₁, h₁, h⟩ := bind_eq_ok.mp h
      have hm := updateOneComp_mng h₁
      split at h
      · cases h
        exact hm
      · exact (ih h).trans hm
    · exact ih h

theorem updateLcoreInfo_eq_ok (h : updateLcoreInfo P m = .ok m') :
    m' = { m with core := exchanged P m } := by
  unfold updateLcoreInfo at h
  split at h
  · cases h
  · cases h
    rfl

/-- What every round of `update_comp_info` keeps, all rounds keep. -/
theorem updateCompInfo_induction
    (hone : ∀ {s : State} {r : Ret × State} {cnt : ℕ}, Q s → updateOneComp P E s cnt = .ok r → Q r.2)
    (hs : Q s) (h : updateCompInfo P E l s = .ok r) :
    Q r.2 := by
  induction l generalizing s with
  | nil =>
    cases h
    exact hs
  | cons cnt rest ih =>
    rw [updateCompInfo] at h
    split at h
    · obtain ⟨r₁, h₁, h⟩ := bind_eq_ok.mp h
      have hs₁ := hone hs h₁
      split at h
      · cases h
        exact hs₁
      · exact ih hs₁ h
    · exact ih hs h

/-- What is kept when the management data change as in a flush, and by every round of
`update_comp_info`, a flush keeps. -/
theorem flushCmd_induction
    (hmng : ∀ {s : State} {m : MngData}, Q s → SameButEthdev s.mng.iface m.iface →
      m.comp = s.mng.comp → Q { s with mng := m })
    (hone : ∀ {s : State} {r : Ret × State} {cnt : ℕ}, Q s → updateOneComp P E s cnt = .ok r → Q r.2)
    (hs : Q s) (h : flushCmd P E s = .ok r) : Q r.2 := by
  obtain ⟨iface, hsame, heq⟩ := updatePortInfo_spec P E.pmd s.mng
  unfold flushCmd at h
  split at h
  · rename_i m hm
    rw [hm] at heq
    cases h
    obtain rfl : m = _ := heq
    exact hmng hs hsame rfl
  rename_i m hm
  rw [hm] at heq
  obtain rfl : m = _ := heq
  obtain ⟨m₁, h₁, h'⟩ := bind_eq_ok.mp h
  obtain rfl := updateLcoreInfo_eq_ok h₁
  obtain ⟨r₁, h₂, hr⟩ := bind_eq_ok.mp h'
  have hs₁ : Q { s with mng := { s.mng with
      iface := iface, core := exchanged P { s.mng with iface := iface } } } := hmng hs hsame rfl
  have hr₁ := updateCompInfo_induction hone hs₁ h₂
  cases hr
  exact hmng hr₁ (sameButEthdev_refl _) rfl

/-- **The effect of a flush.** -/
theorem flushCmd_effect (h : flushCmd P E s = .ok r) : FlushEffect P E.pmd s.mng r.2.mng := by
  obtain ⟨iface, hsame, heq⟩ := updatePortInfo_spec P E.pmd s.mng
  unfold flushCmd at h
  split at h
  · rename_i m hm
    rw [hm] at heq
    cases h
    obtain rfl : m = _ := heq
    exact ⟨rfl, hsame, .inl ⟨by rw [hm], rfl, rfl, rfl⟩⟩
  rename_i m hm
  rw [hm] at heq
  obtain rfl : m = _ := heq
  obtain ⟨m₁, h₁, h⟩ := bind_eq_ok.mp h
  obtain ⟨r₁, h₂, h⟩ := bind_eq_ok.mp h
  have hmng := updateCompInfo_mng h₂
  rw [updateLcoreInfo_eq_ok h₁] at hmng
  cases h
  simp only [backupMngInfo, hmng]
  exact ⟨rfl, hsame, .inr ⟨by rw [hm], rfl, rfl, rfl⟩⟩

/-! ## The first step -/

/-- The ways in which the first step of a command can succeed. -/
inductive Change (P : Platform) (m : MngData) : CmdAttrs → MngData → Prop where
  /-- An entry of a classifier table is entered or deleted. -/
  | entry {cmd : CmdAttrs} {a : ClsCmdAttrs} {mac : BitVec 64} {r : PortRef} {attrs : ClsAttrs}
      {m' : MngData} (hcmd : cmd = .clsMac a ∨ cmd = .clsVlan a)
      (hmac : sppwkConvertMacStrToInt64 a.mac = .ok mac)
      (hport : getSppwkPort P a.port.ifaceType a.port.ifaceNo a.port.queueNo = .ok (some r))
      (htype : (m.iface r).ifaceType ≠ .undef)
      (hattrs : updateClsAttrs a mac (m.iface r).clsAttrs = some attrs)
      (hflag : setComponentChangePort P (m.setClsAttrs r attrs) (m.iface r) .tx = .ok m')
      (hne : mac ≠ -1#64) : Change P m cmd m'
  /-- A component is started in a free slot. -/
  | start {c : CmdComp} {id : ℕ} (hact : c.wkAction = .start)
      (hname : sppwkGetLcoreId P m c.name = none) (hid : getFreeLcoreId P m = some id)
      (hnum : 0 ≤ ((m.core c.core).core (m.core c.core).updIndex).num)
      (hstatus : (m.core c.core).status ≠ .unused) :
      Change P m (.worker c) (m.startComp c id)
  /-- A component is stopped. -/
  | stop {c : CmdComp} {id : ℕ} (hact : c.wkAction = .stop)
      (hid : sppwkGetLcoreId P m c.name = some id) : Change P m (.worker c) (m.stopComp id)
  /-- There is nothing to stop. -/
  | absent {c : CmdComp} (hact : c.wkAction = .stop)
      (hname : sppwkGetLcoreId P m c.name = none) : Change P m (.worker c) m
  /-- The port to be added is there and brings no tag. -/
  | listed {p : CmdPort} {id : ℕ} {r : PortRef} (hact : p.wkAction = .add)
      (hid : sppwkGetLcoreId P m p.name = some id)
      (hport : getSppwkPort P p.port.ifaceType p.port.ifaceNo p.port.queueNo = .ok (some r))
      (hcount : checkPortCount P (m.comp id) p.dir = .ok)
      (hlisted : some r ∈ CountedArray.slice ((m.comp id).nof p.dir) ((m.comp id).array p.dir))
      (hops : p.portAttrs.ops ≠ .addVlan) : Change P m (.port p) m
  /-- The port to be added is there and its tag is replaced. -/
  | retag {p : CmdPort} {id : ℕ} {r : PortRef} {i : Fin portCapablMax} (hact : p.wkAction = .add)
      (hid : sppwkGetLcoreId P m p.name = some id)
      (hport : getSppwkPort P p.port.ifaceType p.port.ifaceNo p.port.queueNo = .ok (some r))
      (hcount : checkPortCount P (m.comp id) p.dir = .ok)
      (hlisted : some r ∈ CountedArray.slice ((m.comp id).nof p.dir) ((m.comp id).array p.dir))
      (hops : p.portAttrs.ops = .addVlan) (hslot : (m.iface r).slotOf .addVlan = some i) :
      Change P m (.port p) (m.editPort id r ((m.iface r).setAttr i p.portAttrs) (m.comp id))
  /-- A port is attached, with a VLAN operation in a free slot or without. -/
  | attach {p : CmdPort} {id : ℕ} {r : PortRef} {port : PortInfo} (hact : p.wkAction = .add)
      (hid : sppwkGetLcoreId P m p.name = some id)
      (hport : getSppwkPort P p.port.ifaceType p.port.ifaceNo p.port.queueNo = .ok (some r))
      (hcount : checkPortCount P (m.comp id) p.dir = .ok)
      (hnew : some r ∉ CountedArray.slice ((m.comp id).nof p.dir) ((m.comp id).array p.dir))
      (hroom : (m.comp id).nof p.dir < maxPorts P)
      (hattr : (p.portAttrs.ops = .none ∧ port = m.iface r) ∨
        (p.portAttrs.ops ≠ .none ∧ ∃ i, (m.iface r).slotOf .none = some i ∧
          port = (m.iface r).setAttr i p.portAttrs)) :
      Change P m (.port p) (m.editPort id r { port with ifaceType := p.port.ifaceType }
        ((m.comp id).addPort p.dir r))
  /-- A port is detached, or at least the attributes of the direction are cleared. -/
  | detach {p : CmdPort} {id : ℕ} {r : PortRef} (hact : p.wkAction = .del)
      (hid : sppwkGetLcoreId P m p.name = some id)
      (hport : getSppwkPort P p.port.ifaceType p.port.ifaceNo p.port.queueNo = .ok (some r)) :
      Change P m (.port p)
        (m.editPort id r ((m.iface r).clearAttrs p.dir) ((m.comp id).delPort p.dir r))

/-- The entry of a port does not fit the request: there is one already, or it is
another one that is to be deleted. -/
def EntryRefused (a : ClsCmdAttrs) (mac : BitVec 64) (attrs : ClsAttrs) : Prop :=
  match a.wkAction with
  | .del => (attrs.vlantag.vid ≠ 0 ∧ attrs.vlantag.vid ≠ a.vid) ∨
      (attrs.macAddr ≠ 0 ∧ attrs.macAddr ≠ mac)
  | .add => attrs.vlantag.vid ≠ ethVlanIdMax ∨ attrs.macAddr ≠ 0
  | _ => False

/-- A port cannot be added: there are enough ports already, a listed port has no tag
to be replaced, or there is no room for a new one or its tag. -/
def PortRefused (P : Platform) (c : CompInfo) (port : PortInfo) (r : PortRef) (p : CmdPort) :
    Prop :=
  checkPortCount P c p.dir = .ng ∨
    (some r ∈ CountedArray.slice (c.nof p.dir) (c.array p.dir) ∧
      p.portAttrs.ops = .addVlan ∧ port.slotOf .addVlan = none) ∨
    (some r ∉ CountedArray.slice (c.nof p.dir) (c.array p.dir) ∧
      (maxPorts P ≤ c.nof p.dir ∨ (p.portAttrs.ops ≠ .none ∧ port.slotOf .none = none)))

/-- **What makes the first step of a command fail.** -/
def Refused (P : Platform) (m : MngData) : CmdAttrs → Prop
  | .clsMac a | .clsVlan a => ∀ mac r, sppwkConvertMacStrToInt64 a.mac = .ok mac →
      getSppwkPort P a.port.ifaceType a.port.ifaceNo a.port.queueNo = .ok (some r) →
      mac = -1#64 ∨ (m.iface r).ifaceType = .undef ∨ EntryRefused a mac (m.iface r).clsAttrs
  | .worker c => c.wkAction = .start ∧ ((m.core c.core).status = .unused ∨
      (sppwkGetLcoreId P m c.name).isSome ∨ getFreeLcoreId P m = none)
  | .port p => ∀ id r, sppwkGetLcoreId P m p.name = some id →
      getSppwkPort P p.port.ifaceType p.port.ifaceNo p.port.queueNo = .ok (some r) →
      p.wkAction = .add ∧ PortRefused P (m.comp id) (m.iface r) r p
  | _ => False

theorem updateClsAttrs_eq_none_iff {attrs : ClsAttrs} :
    updateClsAttrs a mac attrs = none ↔ EntryRefused a mac attrs := by
  unfold updateClsAttrs EntryRefused
  cases a.wkAction with
  | del | add =>
    simp only
    split
    · rename_i h
      exact iff_of_true rfl (.inl h)
    rename_i hvid
    split
    · rename_i h
      exact iff_of_true rfl (.inr h)
    · rename_i hmac
      exact iff_of_false (by simp) (not_or.mpr ⟨hvid, hmac⟩)
  | none | start | stop => simp

theorem updateClsAttrs_eq_some {old new : ClsAttrs}
    (hact : a.wkAction = .add ∨ a.wkAction = .del) (h : updateClsAttrs a mac old = some new) :
    (a.wkAction = .add ∧ new = old.entered a.vid mac a.mac) ∨
      (a.wkAction = .del ∧ new = old.cleared) := by
  rcases hact with hact | hact
  · refine .inl ⟨hact, ?_⟩
    simp only [updateClsAttrs, hact] at h
    split at h
    · cases h
    · split at h
      · cases h
      · exact (Option.some.inj h).symm
  · refine .inr ⟨hact, ?_⟩
    simp only [updateClsAttrs, hact] at h
    split at h
    · cases h
    · split at h
      · cases h
      · exact (Option.some.inj h).symm

theorem setComponentChangePort_eq_ok {port : PortInfo} {dir : PortDir}
    (h : setComponentChangePort P m port dir = .ok m') :
    ∃ change, m' = { m with changeComp := change } := by
  obtain ⟨o, -, h⟩ := bind_eq_ok.mp h
  cases o with
  | none =>
    cases h
    exact ⟨m.changeComp, rfl⟩
  | some id =>
    cases h
    exact ⟨_, rfl⟩

/-- Attaching and detaching ports leaves name, type and lcore alone. -/
theorem setPorts_identity (c : CompInfo) (dir : PortDir) (n : ℕ) (a : ℕ → Option PortRef) :
    (c.setPorts dir n a).name = c.name ∧ (c.setPorts dir n a).wkType = c.wkType ∧
      (c.setPorts dir n a).lcoreId = c.lcoreId := by
  cases dir <;> exact ⟨rfl, rfl, rfl⟩

theorem delPort_identity (c : CompInfo) (dir : PortDir) (r : PortRef) :
    (c.delPort dir r).name = c.name ∧ (c.delPort dir r).wkType = c.wkType ∧
      (c.delPort dir r).lcoreId = c.lcoreId := by
  unfold CompInfo.delPort
  split
  · exact setPorts_identity c dir _ _
  · exact ⟨rfl, rfl, rfl⟩

/-- What the first step of a command does to one slot of the component table. -/
inductive SlotChange (P : Platform) (m m' : MngData) (cmd : CmdAttrs) (id : ℕ) : Prop where
  /-- The slot is left alone, and may be marked. -/
  | kept (hcomp : m'.comp id = m.comp id)
      (hmark : m'.changeComp id = false → m.changeComp id = false)
  /-- A component is started in it. -/
  | started {c : CmdComp} (hcmd : cmd = .worker c) (hact : c.wkAction = .start)
      (hid : getFreeLcoreId P m = some id) (hcomp : m'.comp id = startedComp c id)
      (hmark : m'.changeComp id = true)
  /-- Its component is stopped. -/
  | stopped {c : CmdComp} (hcmd : cmd = .worker c) (hact : c.wkAction = .stop)
      (hid : sppwkGetLcoreId P m c.name = some id) (hcomp : m'.comp id = .zero)
  /-- Its component gets or loses a port. -/
  | edited {p : CmdPort} {r : PortRef} (hcmd : cmd = .port p)
      (hname : (m'.comp id).name = (m.comp id).name)
      (htype : (m'.comp id).wkType = (m.comp id).wkType) (hmark : m'.changeComp id = true)
      (hports : (p.wkAction = .add ∧ checkPortCount P (m.comp id) p.dir = .ok ∧
        getSppwkPort P p.port.ifaceType p.port.ifaceNo p.port.queueNo = .ok (some r) ∧
        m'.comp id = (m.comp id).addPort p.dir r) ∨ m'.comp id = (m.comp id).delPort p.dir r)

/-- **The first step, slot by slot.** -/
theorem Change.slot (hc : Change P m cmd m') (id : ℕ) : SlotChange P m m' cmd id := by
  have hslot {id₀ : ℕ} {c : CompInfo} {b : Bool} (hcomp : m'.comp = Function.update m.comp id₀ c)
      (hmark : m'.changeComp = Function.update m.changeComp id₀ b)
      (hself : id = id₀ → m'.comp id = c → m'.changeComp id = b → SlotChange P m m' cmd id) :
      SlotChange P m m' cmd id := by
    rcases eq_or_ne id id₀ with rfl | hne
    · exact hself rfl (hcomp ▸ Function.update_self ..) (hmark ▸ Function.update_self ..)
    · refine .kept (hcomp ▸ Function.update_of_ne hne ..) fun h => ?_
      rwa [hmark, Function.update_of_ne hne] at h
  have hmarked (h : m'.changeComp id = true) : m'.changeComp id = false → m.changeComp id = false :=
    fun hfalse => absurd (h.symm.trans hfalse) (by decide)
  cases hc with
  | entry _ _ _ _ _ hflag =>
    obtain ⟨o, -, hflag⟩ := bind_eq_ok.mp hflag
    cases o with
    | none =>
      cases hflag
      exact .kept rfl fun h => h
    | some id₀ =>
      cases hflag
      exact hslot (Function.update_eq_self id₀ _).symm rfl fun _ _ htrue => .kept rfl (hmarked htrue)
  | start hact _ hid =>
    refine hslot rfl rfl ?_
    rintro rfl
    exact .started rfl hact hid
  | stop hact hid =>
    refine hslot rfl rfl ?_
    rintro rfl hcomp -
    exact .stopped rfl hact hid hcomp
  | absent | listed => exact .kept rfl fun h => h
  | retag =>
    refine hslot rfl rfl ?_
    rintro rfl hcomp htrue
    exact .kept hcomp (hmarked htrue)
  | attach hact _ hport hcount =>
    refine hslot rfl rfl ?_
    rintro rfl hcomp htrue
    obtain ⟨hname, htype, -⟩ := setPorts_identity (m.comp id) _ _ _
    exact .edited rfl ((congrArg _ hcomp).trans hname) ((congrArg _ hcomp).trans htype) htrue
      (.inl ⟨hact, hcount, hport, hcomp⟩)
  | detach =>
    refine hslot rfl rfl ?_
    rintro rfl hcomp htrue
    obtain ⟨hname, htype, -⟩ := delPort_identity (m.comp id) _ _
    exact .edited rfl ((congrArg _ hcomp).trans hname) ((congrArg _ hcomp).trans htype) htrue
      (.inr hcomp)

theorem updateClsTable_cases
    (hcmd : cmd = .clsMac a ∨ cmd = .clsVlan a) (h : updateClsTable P m a = .ok (ret, m')) :
    (ret = .ng ∧ m' = m ∧ Refused P m cmd) ∨ (ret = .ok ∧ Change P m cmd m') := by
  obtain ⟨mac, hmac, h⟩ := bind_eq_ok.mp h
  have hrefused (hwhy : ∀ r, getSppwkPort P a.port.ifaceType a.port.ifaceNo a.port.queueNo =
      .ok (some r) → mac = -1#64 ∨ (m.iface r).ifaceType = .undef ∨
        EntryRefused a mac (m.iface r).clsAttrs) : Refused P m cmd := by
    rcases hcmd with rfl | rfl
    all_goals
      intro mac' r hmac' hport
      obtain rfl : mac = mac' := Except.ok.inj (hmac.symm.trans hmac')
      exact hwhy r hport
  split at h
  · rename_i hbad
    cases h
    exact .inl ⟨rfl, rfl, hrefused fun _ _ => .inl hbad⟩
  rename_i hne
  obtain ⟨o, hport, h⟩ := bind_eq_ok.mp h
  cases o with
  | none =>
    cases h
    refine .inl ⟨rfl, rfl, hrefused fun r hr => ?_⟩
    exact absurd (hport.symm.trans hr) (by simp)
  | some r =>
    have hsame (r' : PortRef) (hr' : getSppwkPort P a.port.ifaceType a.port.ifaceNo
        a.port.queueNo = .ok (some r')) : r = r' :=
      Option.some.inj (Except.ok.inj (hport.symm.trans hr'))
    simp only at h
    split at h
    · rename_i htype
      cases h
      refine .inl ⟨rfl, rfl, hrefused fun r' hr' => ?_⟩
      exact .inr (.inl (hsame r' hr' ▸ htype))
    rename_i htype
    split at h
    · rename_i hnone
      cases h
      refine .inl ⟨rfl, rfl, hrefused fun r' hr' => ?_⟩
      exact .inr (.inr (hsame r' hr' ▸ updateClsAttrs_eq_none_iff.mp hnone))
    · rename_i attrs hattrs
      obtain ⟨m₁, hflag, h⟩ := bind_eq_ok.mp h
      cases h
      exact .inr ⟨rfl, .entry hcmd hmac hport htype hattrs hflag hne⟩

/-- The slot is cleared before its type is looked at, so nothing is cleaned up. -/
theorem cleanUpClassifier_stopComp (m : MngData) (id : ℕ) (cls : ℕ → ClsMngInfo) :
    cleanUpClassifier P (m.stopComp id) id cls = cls := by
  have htype : ((m.stopComp id).comp id).wkType = .none := by
    simp [MngData.stopComp, CompInfo.zero]
  rw [cleanUpClassifier, if_neg]
  rintro ⟨-, hcls⟩
  exact absurd (htype.symm.trans hcls) (by decide)

theorem updateComp_cases {c : CmdComp}
    (hact : c.wkAction = .start ∨ c.wkAction = .stop) (h : updateComp P s c = .ok (ret, s')) :
    (ret = .ng ∧ s' = s ∧ Refused P s.mng (.worker c)) ∨
      (ret = .ok ∧ ∃ m', s' = { s with mng := m' } ∧ Change P s.mng (.worker c) m') := by
  rcases hact with hact | hact
  · simp only [updateComp, hact] at h
    split at h
    · rename_i hstatus
      cases h
      exact .inl ⟨rfl, rfl, hact, .inl hstatus⟩
    rename_i hstatus
    split at h
    · rename_i hname
      cases h
      exact .inl ⟨rfl, rfl, hact, .inr (.inl hname)⟩
    rename_i hname
    split at h
    · rename_i hid
      cases h
      exact .inl ⟨rfl, rfl, hact, .inr (.inr hid)⟩
    rename_i id hid
    split at h
    · cases h
    rename_i hnum
    cases h
    rw [not_or] at hnum
    refine .inr ⟨rfl, _, rfl, .start hact ?_ hid (by omega) hstatus⟩
    exact Option.not_isSome_iff_eq_none.mp hname
  · simp only [updateComp, hact] at h
    split at h
    · rename_i hname
      cases h
      exact .inr ⟨rfl, s.mng, rfl, .absent hact hname⟩
    · rename_i id hid
      cases h
      rw [cleanUpClassifier_stopComp]
      exact .inr ⟨rfl, _, rfl, .stop hact hid⟩

section Add

variable {id : ℕ} {r : PortRef} (hact : p.wkAction = .add)
  (hid : sppwkGetLcoreId P m p.name = some id)
  (hport : getSppwkPort P p.port.ifaceType p.port.ifaceNo p.port.queueNo = .ok (some r))
  (hcount : checkPortCount P (m.comp id) p.dir = .ok)

include hact hid hport hcount

theorem addListedPort_cases
    (hlisted : some r ∈ CountedArray.slice ((m.comp id).nof p.dir) ((m.comp id).array p.dir))
    (h : addListedPort m id r p.portAttrs = (ret, m')) :
    (ret = .ng ∧ m' = m ∧ PortRefused P (m.comp id) (m.iface r) r p) ∨
      (ret = .ok ∧ Change P m (.port p) m') := by
  unfold addListedPort at h
  split at h
  · rename_i hops
    split at h
    · rename_i hslot
      cases h
      exact .inl ⟨rfl, rfl, .inr (.inl ⟨hlisted, hops, hslot⟩)⟩
    · rename_i i hslot
      cases h
      exact .inr ⟨rfl, .retag hact hid hport hcount hlisted hops hslot⟩
  · rename_i hops
    cases h
    exact .inr ⟨rfl, .listed hact hid hport hcount hlisted hops⟩

theorem addNewPort_cases
    (hnew : some r ∉ CountedArray.slice ((m.comp id).nof p.dir) ((m.comp id).array p.dir))
    (h : addNewPort P m id p r = (ret, m')) :
    (ret = .ng ∧ m' = m ∧ PortRefused P (m.comp id) (m.iface r) r p) ∨
      (ret = .ok ∧ Change P m (.port p) m') := by
  unfold addNewPort at h
  simp only at h
  split at h
  · rename_i hfull
    cases h
    exact .inl ⟨rfl, rfl, .inr (.inr ⟨hnew, .inl hfull⟩)⟩
  rename_i hfull
  have hroom : (m.comp id).nof p.dir < maxPorts P := Nat.lt_of_not_le hfull
  split at h
  · rename_i hops
    split at h
    · rename_i hslot
      cases h
      exact .inl ⟨rfl, rfl, .inr (.inr ⟨hnew, .inr ⟨hops, hslot⟩⟩)⟩
    · rename_i i hslot
      cases h
      exact .inr ⟨rfl, .attach hact hid hport hcount hnew hroom (.inr ⟨hops, i, hslot, rfl⟩)⟩
  · rename_i hops
    cases h
    exact .inr ⟨rfl, .attach hact hid hport hcount hnew hroom (.inl ⟨not_not.mp hops, rfl⟩)⟩

/-- The two cases of adding a port. -/
theorem addPort_cases
    (h : (if (getIdxPortInfo r ((m.comp id).nof p.dir) ((m.comp id).array p.dir)).isSome then
      addListedPort m id r p.portAttrs else addNewPort P m id p r) = (ret, m')) :
    (ret = .ng ∧ m' = m ∧ PortRefused P (m.comp id) (m.iface r) r p) ∨
      (ret = .ok ∧ Change P m (.port p) m') := by
  split at h
  · rename_i hsome
    refine addListedPort_cases hact hid hport hcount ?_ h
    by_contra hnot
    rw [getIdxPortInfo, CountedArray.lastIdx_eq_none_iff.mpr hnot] at hsome
    exact absurd hsome (by simp)
  · rename_i hnone
    refine addNewPort_cases hact hid hport hcount ?_ h
    exact CountedArray.lastIdx_eq_none_iff.mp (Option.not_isSome_iff_eq_none.mp hnone)

end Add

theorem updatePort_cases
    (hact : p.wkAction = .add ∨ p.wkAction = .del) (h : updatePort P m p = .ok (ret, m')) :
    (ret = .ng ∧ m' = m ∧ Refused P m (.port p)) ∨ (ret = .ok ∧ Change P m (.port p) m') := by
  unfold updatePort at h
  split at h
  · rename_i hnone
    cases h
    refine .inl ⟨rfl, rfl, fun id r hid _ => ?_⟩
    exact absurd (hnone.symm.trans hid) (by simp)
  rename_i id hid
  obtain ⟨o, hport, h⟩ := bind_eq_ok.mp h
  cases o with
  | none => cases h
  | some r =>
    rcases hact with hact | hact
    · have hrefused (hwhy : PortRefused P (m.comp id) (m.iface r) r p) :
          Refused P m (.port p) := by
        intro id' r' hid' hport'
        obtain rfl : id = id' := Option.some.inj (hid.symm.trans hid')
        obtain rfl : r = r' := Option.some.inj (Except.ok.inj (hport.symm.trans hport'))
        exact ⟨hact, hwhy⟩
      simp only [hact] at h
      split at h
      · rename_i hng
        cases h
        exact .inl ⟨rfl, rfl, hrefused (.inl hng)⟩
      rename_i hng
      have hcount : checkPortCount P (m.comp id) p.dir = .ok := by
        cases hc : checkPortCount P (m.comp id) p.dir with
        | ok => rfl
        | ng => exact absurd hc hng
      rw [← apply_ite Except.ok] at h
      rcases addPort_cases hact hid hport hcount (Except.ok.inj h) with
        ⟨hret, hm, hwhy⟩ | hc
      · exact .inl ⟨hret, hm, hrefused hwhy⟩
      · exact .inr hc
    · simp only [hact] at h
      cases h
      exact .inr ⟨rfl, .detach hact hid hport⟩

/-! ## Requests -/

/-- What is known of a command that has been accepted. -/
def Accepted (P : Platform) (m : MngData) (req : CString) : CmdAttrs → Prop
  | .clsMac a | .clsVlan a => AcceptedCls a
  | .worker c => AcceptedComp P req c
  | .port p => AcceptedPort P m req p
  | _ => True

theorem accepted_of_parse (h : parseWkCmd P m req = .ok (.ok cmd)) : Accepted P m req cmd := by
  cases cmd with
  | clsMac a => exact parseWkCmd_cls (.inl rfl) h
  | clsVlan a => exact parseWkCmd_cls (.inr rfl) h
  | worker c => exact parseWkCmd_worker h
  | port p => exact parseWkCmd_port h
  | clientId | status | exit => trivial

theorem acceptedCls_of_entry
    (hcmd : cmd = .clsMac a ∨ cmd = .clsVlan a) (hacc : Accepted P m req cmd) : AcceptedCls a := by
  rcases hcmd with rfl | rfl <;> exact hacc

/-- **The first step of an accepted command** is refused without a trace or changes the
management data in one of the listed ways, and never anything else. -/
theorem changeMng_cases (hacc : Accepted P s.mng req cmd) (hhand : handled P.module cmd = true)
    (h : changeMng P s cmd = .ok (ret, s')) :
    (ret = .ng ∧ s' = s ∧ Refused P s.mng cmd) ∨
      (ret = .ok ∧ ∃ m', s' = { s with mng := m' } ∧ Change P s.mng cmd m') := by
  cases cmd with
  | clsMac a =>
    obtain ⟨⟨ret', m'⟩, hu, h⟩ := bind_eq_ok.mp h
    cases h
    rcases updateClsTable_cases (.inl rfl) hu with ⟨rfl, rfl, hwhy⟩ | ⟨rfl, hc⟩
    · exact .inl ⟨rfl, rfl, hwhy⟩
    · exact .inr ⟨rfl, m', rfl, hc⟩
  | clsVlan a =>
    obtain ⟨⟨ret', m'⟩, hu, h⟩ := bind_eq_ok.mp h
    cases h
    rcases updateClsTable_cases (.inr rfl) hu with ⟨rfl, rfl, hwhy⟩ | ⟨rfl, hc⟩
    · exact .inl ⟨rfl, rfl, hwhy⟩
    · exact .inr ⟨rfl, m', rfl, hc⟩
  | worker c => exact updateComp_cases hacc.action h
  | port p =>
    obtain ⟨⟨ret', m'⟩, hu, h⟩ := bind_eq_ok.mp h
    cases h
    rcases updatePort_cases hacc.action hu with ⟨rfl, rfl, hwhy⟩ | ⟨rfl, hc⟩
    · exact .inl ⟨rfl, rfl, hwhy⟩
    · exact .inr ⟨rfl, m', rfl, hc⟩
  | clientId | status | exit => exact absurd hhand (by simp [handled])

/-- **What a request can do.**  Either nothing, or its first step changes the
management data and a flush follows. -/
theorem handleRequest_cases {e : Request} (h : handleRequest P s e = some s') :
    s' = s ∨ ∃ cmd m₁ ret, parseWkCmd P s.mng e.str = .ok (.ok cmd) ∧
      execOneCmd P e.env s cmd = .ok (ret, s') ∧ Change P s.mng cmd m₁ ∧
      flushCmd P e.env { s with mng := m₁ } = .ok (ret, s') := by
  unfold handleRequest at h
  split at h
  · cases h
  · cases h
    exact .inl rfl
  rename_i cmd hparse
  split at h
  · cases h
  rename_i r hexec
  cases h
  have hexec' := hexec
  unfold execOneCmd at hexec
  split at hexec
  · rename_i hhand
    obtain ⟨⟨ret₁, s₁⟩, hchange, hflush⟩ := bind_eq_ok.mp hexec
    rcases changeMng_cases (accepted_of_parse hparse) hhand hchange with
      ⟨rfl, rfl, -⟩ | ⟨rfl, m₁, rfl, hc⟩
    · cases hflush
      exact .inl rfl
    · exact .inr ⟨cmd, m₁, r.1, hparse, hexec', hc, hflush⟩
  · cases hexec
    exact .inl rfl

end SoftPatchPanel.Worker
