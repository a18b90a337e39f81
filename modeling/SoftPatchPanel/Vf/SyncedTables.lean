import SoftPatchPanel.Vf.ClassifierReport

/-!
# The tables follow the management data

A classifier's worker reads tables; the commands change the management data.  This file ties the
two together: as long as requests succeed and no port gets a second owner, the tables of every
classifier are those of its tx ports with the attributes that the interface table has for them
(`synced_of_run`).

There is a part about the management data alone (`Placed`: every entry of the interface table
describes its own port, ports in a list have a type, and a list has its bound), which the first
step of a command keeps.  For the tables it is then enough to know which classifiers the first step can affect
without marking them for the flush: none (`TxFrame`).  A port with two owners would be such a
case, because a change of its entry marks the first of them only.
-/

namespace SoftPatchPanel.Vf

open Transition Worker
open Function (update update_self update_of_ne update_eq_self)

variable {P : Platform} {c : CompInfo} {d : PortDir} {port port' : PortInfo}
  {iface iface' : PortRef → PortInfo} {r : PortRef} {m m' m₁ : MngData} {id : ℕ} {attrs : ClsAttrs}
  {cmd : CmdAttrs} {a : ClsCmdAttrs} {str : CString} {refs : List PortRef} {cmp : ClsCompInfo}
  {s : State}

/-! ## The management data -/

/-- The entry of the interface table describes its own port. -/
structure IfaceOk (r : PortRef) (port : PortInfo) : Prop where
  number : port.ifaceNo = r.portIdx.ifaceNo
  queue : port.queueNo = r.portIdx.queueNo
  type : port.ifaceType = .undef ∨ port.ifaceType = r.portIdx.ifaceType
  vid : 0 ≤ port.clsAttrs.vlantag.vid ∧ port.clsAttrs.vlantag.vid ≤ ethVlanIdMax

/-- Ports and components are where they belong. -/
structure Placed (P : Platform) (m : MngData) : Prop where
  owned : Owned P m
  iface : ∀ r, IfaceOk r (m.iface r)
  typed : ∀ id dir, dir = .rx ∨ dir = .tx → ∀ r ∈ (m.comp id).ports dir,
    (m.iface r).ifaceType = r.portIdx.ifaceType
  compId : ∀ id, (m.comp id).wkType = .cls → (m.comp id).compId = id
  room : ∀ id, ((m.comp id).ports .tx).length ≤ maxPorts P

theorem length_ports_addPort_le (hd : d = .rx ∨ d = .tx) {n : ℕ}
    (hroom : c.nof d < n) (h : (c.ports .tx).length ≤ n) (r : PortRef) :
    ((c.addPort d r).ports .tx).length ≤ n := by
  rcases PortDir.eq_or_opposite hd (.inr rfl) with rfl | hopp
  · have hle : (c.ports .tx).length ≤ c.nof .tx := by
      rw [CompInfo.ports_eq]
      exact (List.reduceOption_length_le _).trans_eq (CountedArray.length_slice ..)
    rw [CompInfo.ports_addPort, List.length_append, List.length_singleton]
    omega
  · rwa [c.ports_addPort_opposite hopp]

theorem length_ports_delPort_le (c : CompInfo) (hd : d = .rx ∨ d = .tx)
    (r : PortRef) : ((c.delPort d r).ports .tx).length ≤ (c.ports .tx).length := by
  rcases PortDir.eq_or_opposite hd (.inr rfl) with rfl | hopp
  · by_cases hr : r ∈ c.ports .tx
    · rw [(CompInfo.ports_delPort_perm hr).length_eq]
      exact Nat.le_succ _
    · rw [CompInfo.delPort_of_notMem hr]
  · rw [c.ports_delPort_opposite hopp]

/-- An entry that may have got its type, its ethdev and other VLAN operations, and
nothing else. -/
structure Retyped (r : PortRef) (port port' : PortInfo) : Prop where
  number : port'.ifaceNo = port.ifaceNo
  queue : port'.queueNo = port.queueNo
  attrs : port'.clsAttrs = port.clsAttrs
  type : port'.ifaceType = port.ifaceType ∨ port'.ifaceType = r.portIdx.ifaceType

theorem retyped_refl (r : PortRef) (port : PortInfo) : Retyped r port port :=
  ⟨rfl, rfl, rfl, .inl rfl⟩

theorem retyped_update {r₀ : PortRef} (h : Retyped r₀ (iface r₀) port) (r : PortRef) :
    Retyped r (iface r) (update iface r₀ port r) := by
  rcases eq_or_ne r r₀ with rfl | hne
  · rwa [update_self]
  · rw [update_of_ne hne]
    exact retyped_refl r _

theorem Retyped.ifaceOk (h : Retyped r port port') (hok : IfaceOk r port) : IfaceOk r port' := by
  refine ⟨h.number.trans hok.number, h.queue.trans hok.queue, ?_, h.attrs ▸ hok.vid⟩
  rcases h.type with ht | ht
  · rw [ht]
    exact hok.type
  · exact .inr ht

theorem Retyped.type_of (h : Retyped r port port')
    (htype : port.ifaceType = r.portIdx.ifaceType) : port'.ifaceType = r.portIdx.ifaceType := by
  rcases h.type with ht | ht
  · exact ht.trans htype
  · exact ht

/-- What a flush leaves of an entry. -/
theorem retyped_of_flush {E : PmdEnv} (h : FlushEffect P E m m') (r : PortRef) :
    Retyped r (m.iface r) (m'.iface r) := by
  rw [h.iface r]
  exact ⟨rfl, rfl, rfl, .inl rfl⟩

/-- One slot has been replaced, and entries have at most been retyped. -/
theorem Placed.edit (h : Placed P m) (howned : Owned P m') (hcomp : m'.comp = update m.comp id c)
    (hiface : ∀ r, Retyped r (m.iface r) (m'.iface r))
    (htyped : ∀ dir, dir = .rx ∨ dir = .tx → ∀ r ∈ c.ports dir,
      r ∈ (m.comp id).ports dir ∨ (m'.iface r).ifaceType = r.portIdx.ifaceType)
    (hid : c.wkType = .cls → c.compId = id) (hroom : (c.ports .tx).length ≤ maxPorts P) :
    Placed P m' := by
  refine ⟨howned, fun r => (hiface r).ifaceOk (h.iface r), fun i dir hdir r hr => ?_, fun i => ?_,
    fun i => ?_⟩
  · rcases eq_or_ne i id with rfl | hne
    · rw [hcomp, update_self] at hr
      rcases htyped dir hdir r hr with hold | hnew
      · exact (hiface r).type_of (h.typed i dir hdir r hold)
      · exact hnew
    · rw [hcomp, update_of_ne hne] at hr
      exact (hiface r).type_of (h.typed i dir hdir r hr)
  · rcases eq_or_ne i id with rfl | hne
    · rwa [hcomp, update_self]
    · rw [hcomp, update_of_ne hne]
      exact h.compId i
  rcases eq_or_ne i id with rfl | hne
  · rwa [hcomp, update_self]
  · rw [hcomp, update_of_ne hne]
    exact h.room i

/-- The component table is as it was. -/
theorem Placed.congr (h : Placed P m) (hcomp : m'.comp = m.comp)
    (hiface : ∀ r, Retyped r (m.iface r) (m'.iface r)) : Placed P m' := by
  have hsame : m'.comp = update m.comp 0 (m.comp 0) := by
    rw [hcomp, update_eq_self]
  exact h.edit (h.owned.congr hcomp) hsame hiface (fun _ _ r hr => .inl hr) (h.compId 0) (h.room 0)

theorem ifaceOk_update (h : ∀ r, IfaceOk r (iface r))
    (hvid : 0 ≤ attrs.vlantag.vid ∧ attrs.vlantag.vid ≤ ethVlanIdMax) (r' : PortRef) :
    IfaceOk r' (update iface r { iface r with clsAttrs := attrs } r') := by
  rcases eq_or_ne r' r with rfl | hne
  · rw [update_self]
    exact ⟨(h r').number, (h r').queue, (h r').type, hvid⟩
  · rw [update_of_ne hne]
    exact h r'

/-- A field that a new entry of a table has in common with the old one. -/
theorem field_update {α : Type} {port : PortInfo}
    (f : PortInfo → α) (h : f port = f (iface r)) (r' : PortRef) :
    f (update iface r port r') = f (iface r') := by
  rcases eq_or_ne r' r with rfl | hne
  · rw [update_self, h]
  · rw [update_of_ne hne]

/-- The entry of one port has been replaced. -/
theorem Placed.entry (h : Placed P m)
    (hvid : 0 ≤ attrs.vlantag.vid ∧ attrs.vlantag.vid ≤ ethVlanIdMax) (hcomp : m'.comp = m.comp)
    (hiface : m'.iface = update m.iface r { m.iface r with clsAttrs := attrs }) :
    Placed P m' := by
  refine ⟨h.owned.congr hcomp, fun r' => ?_, fun id dir hdir r' hr' => ?_, fun id => ?_,
    fun id => ?_⟩
  · rw [hiface]
    exact ifaceOk_update h.iface hvid r'
  · rw [hcomp] at hr'
    rw [hiface]
    exact (field_update PortInfo.ifaceType (by rfl) r').trans (h.typed id dir hdir r' hr')
  · rw [hcomp]
    exact h.compId id
  · rw [hcomp]
    exact h.room id

theorem getSppwkPort_portIdx {t : PortType} {no q : ℤ}
    (h : getSppwkPort P t no q = .ok (some r)) : t = r.portIdx.ifaceType ∧
      getSppwkPort P r.portIdx.ifaceType r.portIdx.ifaceNo r.portIdx.queueNo = .ok (some r) := by
  obtain ⟨rfl, rfl, hq, -⟩ := getSppwkPort_eq_some h
  refine ⟨rfl, ?_⟩
  cases r with
  | phy => exact hq rfl ▸ h
  -- the number of the queue is not looked at
  | vhost | ring => exact h

/-- An entry that has its type is found at its own place. -/
theorem IfaceOk.place (hok : IfaceOk r port) (htype : port.ifaceType = r.portIdx.ifaceType)
    {t : PortType} {no q : ℤ} (h : getSppwkPort P t no q = .ok (some r)) :
    getSppwkPort P port.ifaceType port.ifaceNo port.queueNo = .ok (some r) := by
  rw [htype, hok.number, hok.queue]
  exact (getSppwkPort_portIdx h).2

/-- A port that is attached keeps its entry, and gets the type it is addressed by. -/
theorem retyped_attach {p : CmdPort}
    (hport : getSppwkPort P p.port.ifaceType p.port.ifaceNo p.port.queueNo = .ok (some r))
    (hattr : (p.portAttrs.ops = .none ∧ port = m.iface r) ∨
      (p.portAttrs.ops ≠ .none ∧ ∃ i, (m.iface r).slotOf .none = some i ∧
        port = (m.iface r).setAttr i p.portAttrs)) :
    Retyped r (m.iface r) { port with ifaceType := p.port.ifaceType } := by
  have htype : p.port.ifaceType = r.portIdx.ifaceType := (getSppwkPort_portIdx hport).1
  rcases hattr with ⟨-, rfl⟩ | ⟨-, i, -, rfl⟩ <;> exact ⟨rfl, rfl, rfl, .inr htype⟩

/-- The VLAN id that a command leaves is in its range. -/
theorem vid_of_updateClsAttrs
    {mac : BitVec 64} {attrs' : ClsAttrs} (hparse : parseWkCmd P m str = .ok (.ok cmd))
    (hcmd : cmd = .clsMac a ∨ cmd = .clsVlan a) (h : updateClsAttrs a mac attrs = some attrs') :
    0 ≤ attrs'.vlantag.vid ∧ attrs'.vlantag.vid ≤ ethVlanIdMax := by
  have hacc := acceptedCls_of_entry hcmd (accepted_of_parse hparse)
  rcases updateClsAttrs_eq_some hacc.action h with ⟨-, rfl⟩ | ⟨-, rfl⟩
  · exact ⟨hacc.vid_nonneg, hacc.vid_le⟩
  · exact ⟨(by decide : (0 : ℤ) ≤ ethVlanIdMax), le_refl _⟩

/-- **The first step keeps the management data in order.** -/
theorem Placed.change (h : Placed P m)
    (howned : Owned P m₁) (hparse : parseWkCmd P m str = .ok (.ok cmd)) (hc : Change P m cmd m₁) :
    Placed P m₁ := by
  cases hc with
  | entry hcmd hmac hport _ hattrs hflag =>
    obtain ⟨change, rfl⟩ := setComponentChangePort_eq_ok hflag
    exact h.entry (vid_of_updateClsAttrs hparse hcmd hattrs) rfl rfl
  | @start c id =>
    refine h.edit howned rfl (fun r => retyped_refl r _) (fun dir _ r hr => ?_) (fun _ => rfl) ?_
    · rw [ports_startedComp] at hr
      exact absurd hr List.not_mem_nil
    · rw [ports_startedComp]
      exact Nat.zero_le _
  | stop =>
    refine h.edit howned rfl (fun r => retyped_refl r _) (fun dir _ r hr => ?_)
      (fun hcls => absurd hcls (by decide)) ?_
    · rw [CompInfo.ports_zero] at hr
      exact absurd hr List.not_mem_nil
    · rw [CompInfo.ports_zero]
      exact Nat.zero_le _
  | absent | listed => exact h
  | @retag p id r =>
    exact h.edit howned rfl (retyped_update ⟨rfl, rfl, rfl, .inl rfl⟩) (fun _ _ _ hr => .inl hr)
      (h.compId id) (h.room id)
  | @attach p id r port hact hid hport _ hnew hroom hattr =>
    have hacc := parseWkCmd_port hparse
    have htype : p.port.ifaceType = r.portIdx.ifaceType := (getSppwkPort_portIdx hport).1
    refine h.edit howned rfl (retyped_update (retyped_attach hport hattr))
      (fun dir hdir r' hr' => ?_) (fun hcls => ?_)
      (length_ports_addPort_le hacc.dir hroom (h.room id) r)
    · rcases (CompInfo.mem_ports_addPort hacc.dir hdir).mp hr' with hold | ⟨rfl, -⟩
      · exact .inl hold
      refine .inr ?_
      show (update m.iface r' _ r').ifaceType = _
      rwa [update_self]
    · rw [addPort_compId]
      exact h.compId id ((addPort_wkType _ _ _).symm.trans hcls)
  | @detach p id r hact hid hport =>
    have hacc := parseWkCmd_port hparse
    refine h.edit howned rfl (retyped_update ⟨rfl, rfl, rfl, .inl rfl⟩)
      (fun dir hdir r' hr' => ?_) (fun hcls => ?_)
      ((length_ports_delPort_le _ hacc.dir r).trans (h.room id))
    · exact .inl (CompInfo.mem_of_mem_delPort hacc.dir hdir hr')
    · rw [delPort_compId]
      exact h.compId id ((delPort_wkType _ _ _).symm.trans hcls)

/-! ## Which slots a change can reach -/

/-- New classifiers have no tx ports, and a classifier that is not marked has the ports and the
entries that it had. -/
structure TxFrame (P : Platform) (m m₁ : MngData) : Prop where
  fresh : ∀ id, (m₁.comp id).wkType = .cls →
    (m.comp id).wkType = .cls ∨ (m₁.comp id).ports .tx = []
  still : ∀ id < P.maxLcore, (m₁.comp id).wkType = .cls → m₁.changeComp id ≠ true →
    m₁.comp id = m.comp id ∧
      ∀ r ∈ (m.comp id).ports .tx, (m₁.iface r).clsAttrs = (m.iface r).clsAttrs

theorem txFrame_refl (P : Platform) (m : MngData) : TxFrame P m m :=
  ⟨fun _ h => .inl h, fun _ _ _ _ => ⟨rfl, fun _ _ => rfl⟩⟩

/-- One slot has been replaced and marked. -/
theorem txFrame_update (hcomp : m₁.comp = update m.comp id c)
    (hiface : ∀ r, Retyped r (m.iface r) (m₁.iface r))
    (hmark : c.wkType = .cls → m₁.changeComp id = true)
    (hfresh : c.wkType = .cls → (m.comp id).wkType = .cls ∨ c.ports .tx = []) :
    TxFrame P m m₁ := by
  refine ⟨fun i => ?_, fun i _ hcls hnot => ?_⟩
  · rcases eq_or_ne i id with rfl | hne
    · rwa [hcomp, update_self]
    · rw [hcomp, update_of_ne hne]
      exact .inl
  rcases eq_or_ne i id with rfl | hne
  · rw [hcomp, update_self] at hcls
    exact absurd (hmark hcls) hnot
  · rw [hcomp, update_of_ne hne]
    exact ⟨rfl, fun r _ => (hiface r).attrs⟩

/-- A change of an entry marks the component that has the port. -/
theorem Placed.setComponentChangePort_eq (h : Placed P m)
    (hport : getSppwkPort P a.port.ifaceType a.port.ifaceNo a.port.queueNo = .ok (some r))
    (hid : id < P.maxLcore) (hr : r ∈ (m.comp id).ports .tx) (attrs : ClsAttrs) :
    setComponentChangePort P (m.setClsAttrs r attrs) (m.iface r) .tx =
      .ok { m.setClsAttrs r attrs with changeComp := update m.changeComp id true } := by
  have hplace := (h.iface r).place (h.typed id .tx (.inr rfl) r hr) hport
  have hused : usedBy P (m.setClsAttrs r attrs) r .tx = some id :=
    h.owned.usedBy_eq hid (.inr rfl) hr
  rw [setComponentChangePort, sppwkCheckUsedPort, hplace]
  simp only [bind, Except.bind, pure, Except.pure, hused]
  rfl

theorem txFrame_entry (h : Placed P m)
    (hport : getSppwkPort P a.port.ifaceType a.port.ifaceNo a.port.queueNo = .ok (some r))
    (hflag : setComponentChangePort P (m.setClsAttrs r attrs) (m.iface r) .tx = .ok m') :
    TxFrame P m m' := by
  have hmark {id : ℕ} (hid : id < P.maxLcore) (hr : r ∈ (m.comp id).ports .tx) :
      m'.changeComp id = true := by
    obtain rfl := Except.ok.inj ((h.setComponentChangePort_eq hport hid hr attrs).symm.trans hflag)
    exact update_self _ _ _
  obtain ⟨change, rfl⟩ := setComponentChangePort_eq_ok hflag
  refine ⟨fun _ h => .inl h, fun id hid hcls hnot => ⟨rfl, fun r' hr' => ?_⟩⟩
  change (update m.iface r _ r').clsAttrs = _
  rcases eq_or_ne r' r with rfl | hne
  · exact absurd (hmark hid hr') hnot
  · rw [update_of_ne hne]

/-- **What the first step can change behind the flush's back: nothing.** -/
theorem txFrame_of_change (h : Placed P m) (hc : Change P m cmd m₁) : TxFrame P m m₁ := by
  cases hc with
  | entry _ _ hport _ _ hflag => exact txFrame_entry h hport hflag
  | @start c id _ _ hid =>
    exact txFrame_update rfl (fun r => retyped_refl r _) (fun _ => update_self _ _ _)
      fun _ => .inr (ports_startedComp c id .tx)
  | @stop c id hact hid =>
    exact txFrame_update rfl (fun r => retyped_refl r _) (fun hcls => absurd hcls (by decide))
      fun hcls => absurd hcls (by decide)
  | absent | listed => exact txFrame_refl P m
  | retag =>
    exact txFrame_update rfl (retyped_update ⟨rfl, rfl, rfl, .inl rfl⟩)
      (fun _ => update_self _ _ _) .inl
  | @attach p id r port _ _ hport _ _ _ hattr =>
    refine txFrame_update rfl (retyped_update (retyped_attach hport hattr))
      (fun _ => update_self _ _ _) fun hcls => ?_
    rw [addPort_wkType] at hcls
    exact .inl hcls
  | detach =>
    refine txFrame_update rfl (retyped_update ⟨rfl, rfl, rfl, .inl rfl⟩)
      (fun _ => update_self _ _ _) fun hcls => ?_
    rw [delPort_wkType] at hcls
    exact .inl hcls

/-! ## The tables -/

theorem findIdxs_map_congr {p : PortInfo → Bool} (h : ∀ r ∈ refs, p (iface' r) = p (iface r)) :
    (refs.map iface').findIdxs p = (refs.map iface).findIdxs p := by
  induction refs using List.reverseRecOn with
  | nil => rfl
  | append_singleton refs r ih =>
    rw [List.map_append, List.map_append, List.map_singleton, List.map_singleton, findIdxs_concat,
      findIdxs_concat, ih fun r' hr' => h r' (List.mem_append_left _ hr'),
      h r (List.mem_append_right _ (List.mem_singleton_self r)), List.length_map, List.length_map]

/-- The tables depend on the entries of the ports. -/
theorem TableOf.congr (h : TableOf iface refs cmp)
    (hattrs : ∀ r ∈ refs, (iface' r).clsAttrs.macAddr = (iface r).clsAttrs.macAddr ∧
      (iface' r).clsAttrs.vlantag.vid = (iface r).clsAttrs.vlantag.vid) :
    TableOf iface' refs cmp := by
  have hvlan (v : ℕ) : (refs.map iface').findIdxs (inVlan v) = (refs.map iface).findIdxs (inVlan v) :=
    findIdxs_map_congr fun r hr => by
      rw [inVlan, inVlan, decide_eq_decide, clsVid, clsVid, (hattrs r hr).1, (hattrs r hr).2]
  have hdefault (v : ℕ) :
      (refs.map iface').findIdxs (isDefault v) = (refs.map iface).findIdxs (isDefault v) :=
    findIdxs_map_congr fun r hr => by
      rw [isDefault, isDefault, decide_eq_decide, clsVid, clsVid, (hattrs r hr).1, (hattrs r hr).2]
  have haddr (v : ℕ) (a : MacAddr) :
      (refs.map iface').findIdxs (hasAddr v a) = (refs.map iface).findIdxs (hasAddr v a) :=
    findIdxs_map_congr fun r hr => by
      rw [hasAddr, hasAddr, decide_eq_decide, inVlan, inVlan, decide_eq_true_eq, decide_eq_true_eq,
        clsVid, clsVid, ethAddr, ethAddr, (hattrs r hr).1, (hattrs r hr).2]
  refine ⟨⟨fun v => ?_, fun v mac hmac => ?_⟩, h.names⟩
  · rw [hvlan]
    exact h.tabled.unregistered v
  · obtain ⟨hports, hdef, htable⟩ := h.tabled.registered v mac hmac
    exact ⟨by rw [hvlan, hports], by rw [hdefault, hdef], fun a => by rw [haddr, htable]⟩

/-- What a request must not do: give a component a port of another one, or fail. -/
structure SyncGuard (P : Platform) (s : State) (e : Request) : Prop where
  owner : OwnershipGuard P s e
  ok : ∀ cmd r, parseWkCmd P s.mng e.str = .ok (.ok cmd) →
    execOneCmd P e.env s cmd = .ok r → r.1 = .ok

/-- The tables are those of the management data. -/
structure Synced (P : Platform) (s : State) : Prop where
  placed : Placed P s.mng
  settled : ∀ id < P.maxLcore, Settled (s.cls id) ∨
    (s.cls id = .zero ∧ (s.mng.comp id).wkType ≠ .cls)
  tables : ∀ id < P.maxLcore, (s.mng.comp id).wkType = .cls →
    TableOf s.mng.iface ((s.mng.comp id).ports .tx) (s.cls id).ref

/-- A table that has been rebuilt is that of the management data. -/
theorem Placed.tableOf (h : Placed P m) (hb : Built ((m.comp id).portInfos m.iface .tx) cmp) :
    TableOf m.iface ((m.comp id).ports .tx) cmp :=
  tableOf_of_built hb fun r hr => by
    rw [h.typed id .tx (.inr rfl) r hr, (h.iface r).number, (h.iface r).queue]

/-- What an update builds is read: the indices differ, or there are no tx ports yet. -/
theorem Synced.rebuilt (h : Synced P s) {E : Env} (hid : id < P.maxLcore) {g' : ClsMngInfo}
    (hfresh : (s.mng.comp id).wkType = .cls ∨ (m.comp id).ports .tx = [])
    (hupd : updateClassifier E.hash E.early (m.comp id).name ((m.comp id).portInfos m.iface .rx)
      ((m.comp id).portInfos m.iface .tx) (s.cls id) = (.ok, g')) :
    Built ((m.comp id).portInfos m.iface .tx) g'.ref := by
  rcases h.settled id hid with hset | ⟨hzero, hne⟩
  · exact hset.built_of_update hupd
  have hnil : (m.comp id).portInfos m.iface .tx = [] := by
    rw [CompInfo.portInfos, hfresh.resolve_left hne, List.map_nil]
  rw [hzero, hnil] at hupd
  rw [hnil]
  exact built_of_first_update hupd

/-- **A request that meets the guard keeps the tables in step.** -/
theorem Synced.step (hvf : P.module = .vf) {s' : State} {e : Request} (h : Synced P s)
    (hG : SyncGuard P s e) (hstep : handleRequest P s e = some s') : Synced P s' := by
  have howned := h.placed.owned.step hvf hG.owner hstep
  rcases handleRequest_cases hstep with rfl | ⟨cmd, m₁, ret, hparse, hexec, hc, hflush⟩
  · exact h
  have hret : ret = .ok := hG.ok cmd _ hparse hexec
  subst hret
  have hf : FlushEffect P e.env.pmd m₁ s'.mng := flushCmd_effect hflush
  have hp₁ := h.placed.change (howned.congr hf.comp.symm) hparse hc
  have hp' : Placed P s'.mng := hp₁.congr hf.comp (retyped_of_flush hf)
  have hframe := txFrame_of_change h.placed hc
  have hreb {id : ℕ} (hid : id < P.maxLcore) := flushCmd_cls hvf hp₁.compId hflush hid
  refine ⟨hp', fun id hid => ?_, fun id hid hcls => ?_⟩
  · by_cases hmark : m₁.changeComp id = true ∧ (s'.mng.comp id).wkType = .cls
    · exact .inl (settled_of_update ((hreb hid).1 hmark.1 hmark.2))
    rw [(hreb hid).2 hmark]
    refine (h.settled id hid).imp_right fun hzero => ⟨hzero.1, fun hcls => ?_⟩
    -- a slot that is not marked has not become a classifier
    have hcls₁ : (m₁.comp id).wkType = .cls := by rwa [hf.comp] at hcls
    have hsame := (hframe.still id hid hcls₁ fun hm => hmark ⟨hm, hcls⟩).1
    exact hzero.2 (hsame ▸ hcls₁)
  have hcls₁ : (m₁.comp id).wkType = .cls := by rwa [hf.comp] at hcls
  by_cases hmark : m₁.changeComp id = true
  · have hfresh := hframe.fresh id hcls₁
    rw [← hf.comp] at hfresh
    exact hp'.tableOf (h.rebuilt hid hfresh ((hreb hid).1 hmark hcls))
  obtain ⟨hsame, hattrs⟩ := hframe.still id hid hcls₁ hmark
  rw [(hreb hid).2 fun hm => hmark hm.1, hf.comp, hsame]
  refine (h.tables id hid (hsame ▸ hcls₁)).congr fun r hr => ?_
  rw [(retyped_of_flush hf r).attrs.trans (hattrs r hr)]
  exact ⟨rfl, rfl⟩

theorem synced_startUp : Synced P (startUp P) := by
  have hnone (id : ℕ) : ((startUp P).mng.comp id).wkType ≠ .cls := by
    show WorkerType.none ≠ .cls
    decide
  have hports (id : ℕ) (dir : PortDir) : ((startUp P).mng.comp id).ports dir = [] := by
    cases dir <;> rfl
  refine ⟨⟨owned_startUp, fun r => ?_, fun id dir _ r hr => ?_, fun id h => absurd h (hnone id),
    fun id => ?_⟩, fun id _ => .inr ⟨rfl, hnone id⟩, fun id _ h => absurd h (hnone id)⟩
  · obtain ⟨t, n, hr, ht⟩ := initHostPortInfo_typedFrom P initPortInfo r
    show IfaceOk r (initHostPortInfo P initPortInfo r)
    rw [hr]
    have hvid : (0 : ℤ) ≤ ethVlanIdMax := by decide
    cases r <;> exact ⟨rfl, rfl, ht, hvid, le_refl _⟩
  · rw [hports] at hr
    exact absurd hr List.not_mem_nil
  · rw [hports]
    exact Nat.zero_le _

/-- **The tables follow** in every run whose requests meet the guard. -/
theorem synced_of_run (hvf : P.module = .vf) {h : List (State × Request)}
    (hrun : Run (workerSystem P) h s) (hG : Guarded (SyncGuard P) h) : Synced P s := by
  refine hrun.invariant (I := Synced P) ?_ ?_ hG
  · rintro _ rfl
    exact synced_startUp
  · intro s e s' hs hg hstep
    exact hs.step hvf hg hstep

end SoftPatchPanel.Vf
