import SoftPatchPanel.Vf.ComponentTables

/-!
# What the status report finds

`Reportable` is the invariant that the status report of `spp_vf` relies on.  Every id
that an lcore runs belongs to a component, and the table of every component can be
shown: it has a type or is in use, it carries the component's name, and its ports have
names and devices.  What is shown are the ports that the component had when its table
was last built; these are the ports it has, unless it is marked because a flush could
not be completed (`Shown`).

The invariant is kept by the first step of a command and the flush behind it
(`Reportable.flush`), unless a flush for a component fails or a classifier's first table
is lost.
-/

namespace SoftPatchPanel.Vf

open Transition Worker
open Function (update update_self update_of_ne)

variable {P : Platform} {m m' : MngData} {refs : List PortRef} {s s' : State} {id : ℕ}
  {c : CompInfo} {cmd : CmdAttrs} {E : Env}

/-! ## The status of one component -/

/-- The word for a type of component. -/
def typeWord : WorkerType → CString
  | .cls => "classifier"
  | .mrg => "merge"
  | _ => "forward"

/-- The element of a component with the given ports. -/
def elementOf (lcoreId : ℕ) (c : CompInfo) (rx tx : List PortRef) : CoreElement where
  lcoreId := lcoreId
  name := c.name
  type := typeWord c.wkType
  rxPorts := rx.map PortRef.portIdx
  txPorts := tx.map PortRef.portIdx

theorem PortsOk.portIdxOf_eq (h : PortsOk P m) {r : PortRef} (hr : PortReady P m r) :
    portIdxOf (m.iface r) = r.portIdx := by
  rw [portIdxOf, hr.typed, (h.iface r).number, (h.iface r).queue]

theorem PortsOk.map_portIdxOf (h : PortsOk P m) (hrefs : ∀ r ∈ refs, PortReady P m r) :
    (refs.map m.iface).map portIdxOf = refs.map PortRef.portIdx := by
  rw [List.map_map]
  exact List.map_congr_left fun r hr => h.portIdxOf_eq (hrefs r hr)

theorem range_map_getD {α β : Type} (l : List α) (d : α) (f : α → β) :
    ((List.range l.length).map fun i => f (l.getD i d)) = l.map f := by
  refine List.ext_getElem (by simp) fun i h₁ h₂ => ?_
  rw [List.length_map] at h₂
  simp [h₂]

/-- A forwarder's or merger's table shows the ports it has been built from. -/
theorem getForwarderStatus_eq (hports : PortsOk P m)
    (hready : ∀ dir, dir = .rx ∨ dir = .tx → ∀ r ∈ c.ports dir, PortReady P m r)
    (hcount : CountOk c) (hnone : c.wkType ≠ .none) (hcls : c.wkType ≠ .cls)
    (href : (s.path id).ref = forwardPath c.name c.wkType (c.portInfos m.iface .rx)
      (c.portInfos m.iface .tx)) (lcoreId : ℕ) :
    getForwarderStatus s lcoreId id =
      some (elementOf lcoreId c (c.ports .rx) (c.ports .tx)) := by
  have htype : (if c.wkType = .mrg then "merge".toList else "forward".toList) =
      typeWord c.wkType := by
    cases hc : c.wkType with
    | none => exact absurd hc hnone
    | cls => exact absurd hc hcls
    | mrg | fwd | mir => rfl
  have hrx : ((List.range (c.portInfos m.iface .rx).length).map fun cnt =>
      portIdxOf ((c.portInfos m.iface .rx).getD cnt zeroPort)) =
        (c.ports .rx).map PortRef.portIdx := by
    rw [range_map_getD]
    exact hports.map_portIdxOf (hready .rx (.inl rfl))
  have htx : ((List.range (c.portInfos m.iface .tx).length).map fun cnt => portIdxOf
      ((forwardPath c.name c.wkType (c.portInfos m.iface .rx) (c.portInfos m.iface .tx)).ports
        cnt).tx) = (c.ports .tx).map PortRef.portIdx := by
    rw [← hports.map_portIdxOf (hready .tx (.inr rfl))]
    have hone := hcount.2 hcls
    rw [CompInfo.portInfos, CompInfo.portInfos]
    -- there is at most one tx port, and it is copied to the first place
    rcases h : c.ports .tx with _ | ⟨r, _ | ⟨r', refs⟩⟩
    · rfl
    · have hpos : 0 < (if ((c.ports .rx).map m.iface).length > 1 then
          ((c.ports .rx).map m.iface).length * 1 else 1) := by
        split <;> omega
      exact congrArg (fun port => [portIdxOf port]) (if_pos hpos)
    · rw [h] at hone
      simp at hone
  unfold getForwarderStatus
  simp only [href]
  refine (if_neg hnone).trans ?_
  rw [elementOf, ← hrx, ← htx, ← htype]
  rfl

theorem rxPorts_clsRxPort (hports : PortsOk P m)
    (hrefs : ∀ r ∈ refs, PortReady P m r) (hone : refs.length ≤ 1) {cmp : ClsCompInfo}
    (hrx : cmp.rxPortI = clsRxPort (refs.map m.iface)) :
    cmp.rxPorts = refs.map PortRef.portIdx := by
  rw [ClsCompInfo.rxPorts, hrx]
  match refs with
  | [] => rfl
  | [r] =>
    have hr := hrefs r List.mem_cons_self
    have heq := hports.portIdxOf_eq hr
    show (if (m.iface r).ifaceType = .undef then [] else [portIdxOf (m.iface r)]) = _
    rw [if_neg hr.type_ne, heq]
    rfl
  | _ :: _ :: _ => simp at hone

/-- A classifier's table shows the ports it has been built from. -/
theorem getClassifierStatus_eq (hports : PortsOk P m)
    (hready : ∀ dir, dir = .rx ∨ dir = .tx → ∀ r ∈ c.ports dir, PortReady P m r)
    (hcount : CountOk c) (hcls : c.wkType = .cls) (hused : (s.cls id).isUsed = true)
    (href : Installed c.name (c.portInfos m.iface .rx) (c.portInfos m.iface .tx) (s.cls id).ref)
    (lcoreId : ℕ) :
    getClassifierStatus s lcoreId id =
      some (elementOf lcoreId c (c.ports .rx) (c.ports .tx)) := by
  have hrx := rxPorts_clsRxPort hports (hready .rx (.inl rfl)) (hcount.1 (.inr hcls)) href.rxPortI
  have htx : ((List.range (s.cls id).ref.nofTxPorts).map (s.cls id).ref.portIdx) =
      (c.ports .tx).map PortRef.portIdx := by
    have hlen : (s.cls id).ref.nofTxPorts = (c.ports .tx).length := by
      rw [href.nofTxPorts, CompInfo.portInfos, List.length_map]
    refine List.ext_getElem (by simp [hlen]) fun i h₁ h₂ => ?_
    rw [List.length_map] at h₂
    rw [List.getElem_map, List.getElem_map, List.getElem_range]
    exact (tableOf_of_built href.built
      fun r hr => hports.portIdxOf_eq (hready .tx (.inr rfl) r hr)).names i h₂
  unfold getClassifierStatus
  simp only
  rw [if_pos hused, hrx, htx, href.name, elementOf, hcls]
  rfl

/-! ## The invariant -/

/-- The port is in the interface table. -/
def InPlace (P : Platform) (r : PortRef) : Prop :=
  getSppwkPort P r.portIdx.ifaceType r.portIdx.ifaceNo r.portIdx.queueNo = .ok (some r)

/-- The table of a component shows these ports, which have names and devices; they are the
ports of the component, unless it is still marked. -/
structure Shown (P : Platform) (s : State) (id : ℕ) (rx tx : List PortRef) : Prop where
  status : ∀ l, componentStatus s l id = some (elementOf l (s.mng.comp id) rx tx)
  place : ∀ r ∈ rx ++ tx, InPlace P r
  device : ∀ r ∈ rx ++ tx, 0 ≤ (s.mng.iface r).ethdevPortId
  current : s.mng.changeComp id = false →
    rx = (s.mng.comp id).ports .rx ∧ tx = (s.mng.comp id).ports .tx

/-- A classifier's table has never been used, or is between two updates and has entries
for ports only. -/
def TableOk (P : Platform) (g : ClsMngInfo) : Prop :=
  g = .zero ∨ (Settled g ∧ ∀ x ∈ g.ref.entries, ∃ r : PortRef, x.port = r.portIdx ∧ InPlace P r)

/-- **The status report can be made.** -/
structure Reportable (P : Platform) (s : State) : Prop where
  ports : PortsOk P s.mng
  placed : Consistent P s.mng
  answers : Answerable P s.mng
  sides : ∀ id < P.maxLcore, (s.path id).refIndex ≠ (s.path id).updIndex
  tables : ∀ id < P.maxLcore, TableOk P (s.cls id)
  shown : ∀ id < P.maxLcore, (s.mng.comp id).wkType ≠ .none → ∃ rx tx, Shown P s id rx tx

theorem reportable_startUp (hP : HostFits P) : Reportable P (startUp P) :=
  ⟨portsOk_startUp hP, consistent_startUp, answerable_startUp,
    fun _ _ => (by decide : (0 : Side) ≠ 1), fun _ _ => .inl rfl, fun _ _ h => absurd rfl h⟩

/-- A live classifier is between two updates. -/
theorem Reportable.settled (h : Reportable P s) (hid : id < P.maxLcore)
    (hcls : (s.mng.comp id).wkType = .cls) : Settled (s.cls id) := by
  obtain ⟨rx, tx, hs⟩ := h.shown id hid (by rw [hcls]; decide)
  rcases h.tables id hid with hzero | ⟨hset, -⟩
  · have hstatus := hs.status 0
    rw [componentStatus, if_pos hcls, getClassifierStatus, hzero] at hstatus
    cases hstatus
  · exact hset

/-! ## What the first step leaves alone -/

/-- A component that is not marked is what it was, and was not marked. -/
theorem unmarked_of_change (hc : Change P m cmd m')
    (hlive : (m'.comp id).wkType ≠ .none) (hmark : m'.changeComp id = false) :
    m'.comp id = m.comp id ∧ m.changeComp id = false := by
  cases hc.slot id with
  | kept hcomp hkept => exact ⟨hcomp, hkept hmark⟩
  | started _ _ _ _ htrue => exact absurd (htrue.symm.trans hmark) (by decide)
  | stopped _ _ _ hzero =>
    rw [hzero] at hlive
    exact absurd rfl hlive
  | edited _ _ _ htrue => exact absurd (htrue.symm.trans hmark) (by decide)

/-- A new classifier has just been started. -/
theorem cls_of_change (hc : Change P m cmd m') (hcls : (m'.comp id).wkType = .cls) :
    (m.comp id).wkType = .cls ∨
      ∃ c, cmd = .worker c ∧ c.wkAction = .start ∧ c.wkType = .cls := by
  cases hc.slot id with
  | kept hcomp => exact .inl (hcomp ▸ hcls)
  | @started c hcmd hact _ hcomp =>
    rw [hcomp] at hcls
    exact .inr ⟨c, hcmd, hact, hcls⟩
  | stopped _ _ _ hzero =>
    rw [hzero] at hcls
    cases hcls
  | edited _ _ htype => exact .inl (htype ▸ hcls)

/-- A request for a port or an entry leaves names and types. -/
theorem identity_of_change (hc : Change P m cmd m') (hcmd : ∀ c, cmd ≠ .worker c) (id : ℕ) :
    (m'.comp id).name = (m.comp id).name ∧ (m'.comp id).wkType = (m.comp id).wkType := by
  cases hc.slot id with
  | kept hcomp => exact ⟨congrArg _ hcomp, congrArg _ hcomp⟩
  | started hworker | stopped hworker => exact absurd hworker (hcmd _)
  | edited _ hname htype => exact ⟨hname, htype⟩

/-! ## The step -/

theorem elementOf_congr {c' : CompInfo} (hname : c'.name = c.name)
    (htype : c'.wkType = c.wkType) (l : ℕ) (rx tx : List PortRef) :
    elementOf l c' rx tx = elementOf l c rx tx := by
  rw [elementOf, elementOf, hname, htype]

/-- The tables of a slot, its name and its type are as they were. -/
theorem Shown.congr {rx tx : List PortRef} (h : Shown P s id rx tx)
    (htables : Untouched id s s') (hname : (s'.mng.comp id).name = (s.mng.comp id).name)
    (htype : (s'.mng.comp id).wkType = (s.mng.comp id).wkType)
    (heth : ∀ r, 0 ≤ (s.mng.iface r).ethdevPortId → 0 ≤ (s'.mng.iface r).ethdevPortId)
    (hcurrent : s'.mng.changeComp id = false →
      rx = (s'.mng.comp id).ports .rx ∧ tx = (s'.mng.comp id).ports .tx) :
    Shown P s' id rx tx := by
  refine ⟨fun l => ?_, h.place, fun r hr => heth r (h.device r hr), hcurrent⟩
  rw [elementOf_congr hname htype, ← h.status l, componentStatus, componentStatus, htype,
    getClassifierStatus, getClassifierStatus, getForwarderStatus, getForwarderStatus,
    htables.1, htables.2]

/-- A component whose table has just been built. -/
theorem shown_of_refreshed (hports : PortsOk P s'.mng) (hlive : (s'.mng.comp id).wkType ≠ .none)
    (hdevice : ∀ dir, dir = .rx ∨ dir = .tx → ∀ r ∈ (s'.mng.comp id).ports dir,
      0 ≤ (s'.mng.iface r).ethdevPortId) (hsides : (s.path id).refIndex ≠ (s.path id).updIndex)
    (hcls : (s'.mng.comp id).wkType = .cls →
      Settled (s.cls id) ∨ (s.cls id = .zero ∧ E.early = true)) (h : Refreshed E s'.mng id s s') :
    Shown P s' id ((s'.mng.comp id).ports .rx) ((s'.mng.comp id).ports .tx) := by
  have hready := hports.ready id
  have hmem {r : PortRef} (hr : r ∈ (s'.mng.comp id).ports .rx ++ (s'.mng.comp id).ports .tx) :
      ∃ dir, (dir = PortDir.rx ∨ dir = .tx) ∧ r ∈ (s'.mng.comp id).ports dir := by
    rcases List.mem_append.mp hr with hr | hr
    · exact ⟨.rx, .inl rfl, hr⟩
    · exact ⟨.tx, .inr rfl, hr⟩
  refine ⟨fun l => ?_, fun r hr => ?_, fun r hr => ?_, fun _ => ⟨rfl, rfl⟩⟩
  · unfold componentStatus
    by_cases hc : (s'.mng.comp id).wkType = .cls
    · rw [Refreshed, if_pos hc] at h
      rw [if_pos hc]
      exact getClassifierStatus_eq hports hready (hports.count id) hc
        (settled_of_update h.1).isUsed (installed_of_update (hcls hc) h.1) l
    rw [Refreshed, if_neg hc] at h
    rw [if_neg hc]
    refine getForwarderStatus_eq hports hready (hports.count id) hlive hc ?_ l
    rw [h.1]
    exact (ref_publish hsides _).1
  · obtain ⟨dir, hdir, hr⟩ := hmem hr
    exact (hready dir hdir r hr).place
  · obtain ⟨dir, hdir, hr⟩ := hmem hr
    exact hdevice dir hdir r hr

/-- The table of a classifier that has just been built. -/
theorem tableOk_of_refreshed (hports : PortsOk P s'.mng) (hold : TableOk P (s.cls id))
    (hcls : (s'.mng.comp id).wkType = .cls →
      Settled (s.cls id) ∨ (s.cls id = .zero ∧ E.early = true))
    (h : Refreshed E s'.mng id s s') : TableOk P (s'.cls id) := by
  unfold Refreshed at h
  by_cases hc : (s'.mng.comp id).wkType = .cls
  · rw [if_pos hc] at h
    refine .inr ⟨settled_of_update h.1, fun x hx => ?_⟩
    have hready := hports.ready id .tx (.inr rfl)
    have htable := tableOf_of_built (installed_of_update (hcls hc) h.1).built
      fun r hr => hports.portIdxOf_eq (hready r hr)
    obtain ⟨r, hr, -, rfl⟩ := htable.entryOf_of_mem hx
    exact ⟨r, rfl, (hready r hr).place⟩
  · rw [if_neg hc] at h
    rwa [h.2]

/-- **The flush keeps the report possible.** -/
theorem Reportable.flush {m₁ : MngData} {ret : Ret}
    (h : Reportable P s) (hports₁ : PortsOk P m₁) (hpmd : PmdOk P E.pmd)
    (hplaced : Consistent P s'.mng) (hanswers : Answerable P s'.mng)
    (hc : Change P s.mng cmd m₁) (hflush : flushCmd P E { s with mng := m₁ } = .ok (ret, s'))
    (hf : Flushed P E { s with mng := m₁ } ret s') (hworker : ∀ c, cmd = .worker c → ret = .ok)
    (hearly : ∀ c, cmd = .worker c → c.wkAction = .start → c.wkType = .cls → E.early = true) :
    Reportable P s' := by
  have heff : FlushEffect P E.pmd m₁ s'.mng := flushCmd_effect hflush
  have hiface : s'.mng.iface = (updatePortInfo P E.pmd m₁).2.iface := flushCmd_iface hflush
  have hports : PortsOk P s'.mng := hports₁.flush hpmd heff hiface
  have heth (r : PortRef) (hpos : 0 ≤ (s.mng.iface r).ethdevPortId) :
      0 ≤ (s'.mng.iface r).ethdevPortId := by
    rw [← ethdev_of_change hc r] at hpos
    rw [hiface]
    rcases updatePortInfo_device (P := P) E.pmd m₁ r with heq | ⟨-, hnew, -⟩
    · rwa [heq]
    · exact hnew
  have hcls {id : ℕ} (hid : id < P.maxLcore) (hcls : (s'.mng.comp id).wkType = .cls) :
      Settled (s.cls id) ∨ (s.cls id = .zero ∧ E.early = true) := by
    rw [heff.comp] at hcls
    rcases cls_of_change hc hcls with hold | ⟨c, hcmd, hact, hc'⟩
    · exact .inl (h.settled hid hold)
    · rcases h.tables id hid with hzero | ⟨hset, -⟩
      · exact .inr ⟨hzero, hearly c hcmd hact hc'⟩
      · exact .inl hset
  -- a component that is not marked is shown as before
  have hkept {id : ℕ} (hid : id < P.maxLcore) (hlive : (s'.mng.comp id).wkType ≠ .none)
      (hmark : m₁.changeComp id = false) (hsame : Untouched id s s') :
      ∃ rx tx, Shown P s' id rx tx := by
    rw [heff.comp] at hlive
    obtain ⟨hcomp, hold⟩ := unmarked_of_change hc hlive hmark
    rw [hcomp] at hlive
    obtain ⟨rx, tx, hs⟩ := h.shown id hid hlive
    refine ⟨rx, tx, hs.congr hsame ?_ ?_ heth fun _ => ?_⟩
    · rw [heff.comp, hcomp]
    · rw [heff.comp, hcomp]
    · rw [heff.comp, hcomp]
      exact hs.current hold
  cases ret with
  | ok =>
    have htables {id : ℕ} (hid : id < P.maxLcore) := hf.tables rfl id hid
    refine ⟨hports, hplaced, hanswers, fun id hid => ?_, fun id hid => ?_,
      fun id hid hlive => ?_⟩
    · by_cases hmark : m₁.changeComp id = true
      · have href := (htables hid).1 hmark
        unfold Refreshed at href
        split at href
        · rw [href.2]
          exact h.sides id hid
        · rw [href.1]
          exact (ref_publish (h.sides id hid) _).2
      · rw [((htables hid).2 hmark).2]
        exact h.sides id hid
    · by_cases hmark : m₁.changeComp id = true
      · exact tableOk_of_refreshed hports (h.tables id hid) (hcls hid) ((htables hid).1 hmark)
      · rw [((htables hid).2 hmark).1]
        exact h.tables id hid
    by_cases hmark : m₁.changeComp id = true
    · refine ⟨_, _, shown_of_refreshed hports hlive (fun dir hdir r hr => ?_) (h.sides id hid)
        (hcls hid) ((htables hid).1 hmark)⟩
      rw [heff.comp] at hr
      rw [hiface]
      exact (hports₁.ready id dir hdir r hr).device_of_flush (Prod.ext hf.outcome.symm rfl)
    · exact hkept hid hlive (by simpa using hmark) ((htables hid).2 hmark)
  | ng =>
    have hsame := hf.failed rfl
    refine ⟨hports, hplaced, hanswers, fun id hid => ?_, fun id hid => ?_,
      fun id hid hlive => ?_⟩
    · rw [(hsame id).2]
      exact h.sides id hid
    · rw [(hsame id).1]
      exact h.tables id hid
    by_cases hmark : m₁.changeComp id = true
    · -- the flush has failed, so the request was not for a component
      have hcmd : ∀ c, cmd ≠ .worker c := fun c heq => absurd (hworker c heq) (by decide)
      obtain ⟨hname, htype⟩ := identity_of_change hc hcmd id
      rw [heff.comp, htype] at hlive
      obtain ⟨rx, tx, hs⟩ := h.shown id hid hlive
      refine ⟨rx, tx, hs.congr (hsame id) ?_ ?_ heth fun hfalse => ?_⟩
      · rw [heff.comp, hname]
      · rw [heff.comp, htype]
      rcases heff.rest with ⟨-, -, -, hchange⟩ | ⟨hok, -⟩
      · rw [hchange] at hfalse
        exact absurd (hmark.symm.trans hfalse) (by decide)
      · exact absurd (hf.outcome.trans hok) (by decide)
    · exact hkept hid hlive (by simpa using hmark) (hsame id)

end SoftPatchPanel.Vf
