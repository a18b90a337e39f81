import SoftPatchPanel.Vf.ForwarderFits
import SoftPatchPanel.Worker.VlanAttrs

/-!
# A VLAN tag is updated in place

`port add UID rx|tx NAME add_vlantag VID PCP` on a port that the component already has is
documented to replace the tag.  The parser lets it pass: a request of full length skips the
tests whether the port is in use.  `update_port` then has two things against it.

* `check_vf_port_count` comes first, and counts the port once more.  Where the component may
  have only one port in the direction, which is everywhere but at the rx side of a merger and
  the tx side of a classifier, the port is one too many.
* The attribute to be replaced is the first one of the port that adds a tag, in whatever
  direction.

`tagUpdated_iff` says that nothing else is: in every state that `spp_vf` can reach, with these
two out of the way, the request is accepted, replaces the tag and changes nothing else, and
succeeds if the flush does.  The flush does not depend on tags (`Alike`), so its success can be
told from the state before.
-/

namespace SoftPatchPanel.Vf

open Worker Transition
open Function (update update_self update_of_ne)

variable {P : Platform} {r : PortRef} {m m' : MngData} {p : CmdPort} {s t : State}
  {f g : PortRef → PortInfo} {id : ℕ} {req name : CString} {E : Env} {d : PortDir}

/-! ## The ports of a component have the queue -/

/-- A place of the interface table has the queue in the direction. -/
def QueueFits (P : Platform) (r : PortRef) (dir : PortDir) : Prop :=
  ∀ idx : PortIdx, getSppwkPort P idx.ifaceType idx.ifaceNo idx.queueNo = .ok (some r) →
    idx.FitsDir P dir

/-- Every attached port has its queue. -/
def PortsFit (P : Platform) (m : MngData) : Prop :=
  ∀ id dir, dir = .rx ∨ dir = .tx → ∀ r ∈ (m.comp id).ports dir, QueueFits P r dir

/-- The number of a physical port and its queue can be read off the place. -/
theorem getSppwkPort_phy_inj {idx idx' : PortIdx}
    (h : getSppwkPort P idx.ifaceType idx.ifaceNo idx.queueNo = .ok (some r))
    (h' : getSppwkPort P idx'.ifaceType idx'.ifaceNo idx'.queueNo = .ok (some r))
    (hphy : idx.ifaceType = .phy) : idx' = idx := by
  obtain ⟨htype, hno, hq, -⟩ := getSppwkPort_eq_some h
  obtain ⟨htype', hno', hq', -⟩ := getSppwkPort_eq_some h'
  have hsame := htype'.trans htype.symm
  have hqueue := (hq' (hsame.trans hphy)).trans (hq hphy).symm
  obtain ⟨t, no, q⟩ := idx
  obtain ⟨t', no', q'⟩ := idx'
  exact PortIdx.mk.injEq .. ▸ ⟨hsame, hno'.trans hno.symm, hqueue⟩

theorem fitsDir_of_parse (h : parseWkCmd P m req = .ok (.ok (.port p))) (hadd : p.wkAction = .add)
    (hport : getSppwkPort P p.port.ifaceType p.port.ifaceNo p.port.queueNo = .ok (some r)) :
    QueueFits P r p.dir := by
  intro idx hidx hphy
  obtain rfl := getSppwkPort_phy_inj hidx hport hphy
  exact queueNo_le_of_parse h hadd hphy

theorem PortsFit.change {cmd : CmdAttrs} (h : PortsFit P m)
    (hparse : parseWkCmd P m req = .ok (.ok cmd)) (hc : Change P m cmd m') : PortsFit P m' := by
  intro id dir hdir r hr
  cases hc.slot id with
  | kept hcomp => exact h id dir hdir r (hcomp ▸ hr)
  | started _ _ _ hcomp | stopped _ _ _ hcomp =>
    rw [hcomp] at hr
    rcases hdir with rfl | rfl <;> cases hr
  | edited hcmd _ _ _ hports =>
    subst hcmd
    have hacc := parseWkCmd_port hparse
    rcases hports with ⟨hact, -, hport, hcomp⟩ | hcomp
    · rw [hcomp] at hr
      rcases (CompInfo.mem_ports_addPort hacc.dir hdir).mp hr with hr | ⟨rfl, rfl⟩
      · exact h id dir hdir r hr
      · exact fitsDir_of_parse hparse hact hport
    · rw [hcomp] at hr
      exact h id dir hdir r (CompInfo.mem_of_mem_delPort hacc.dir hdir hr)

theorem PortsFit.step {s' : State} {e : Request} (hs : PortsFit P s.mng)
    (h : handleRequest P s e = some s') : PortsFit P s'.mng := by
  rcases handleRequest_cases h with rfl | ⟨cmd, m₁, ret, hparse, -, hc, hflush⟩
  · exact hs
  have hm₁ := hs.change hparse hc
  intro id
  rw [(flushCmd_effect hflush).comp]
  exact hm₁ id

theorem portsFit_of_run {h : List (State × Request)}
    (hrun : Run (workerSystem P) h s) : PortsFit P s.mng := by
  refine hrun.invariant (I := fun s => PortsFit P s.mng) (G := fun _ _ => True)
    (fun s₀ h0 => ?_) (fun _ _ _ hs _ hstep => hs.step hstep) fun _ _ => trivial
  rw [h0]
  rintro id dir (rfl | rfl) r hr <;> cases hr

/-! ## A flush does not depend on tags -/

/-- Two interface tables that agree on everything but the VLAN attributes. -/
def SameButTags (f g : PortRef → PortInfo) : Prop :=
  ∀ r, g r = { f r with portAttrs := (g r).portAttrs }

theorem SameButTags.symm (h : SameButTags f g) : SameButTags g f := by
  intro r
  rw [h r]

/-- States that differ in VLAN attributes and what is built of them. -/
structure Alike (s t : State) : Prop where
  mng : t.mng = { s.mng with iface := t.mng.iface }
  iface : SameButTags s.mng.iface t.mng.iface
  cls : t.cls = s.cls
  /-- The lists of pending ethdevs are equally long. -/
  pending : ∀ dir, dir = .rx ∨ dir = .tx →
    (t.cap.pending dir).length = (s.cap.pending dir).length

theorem Alike.symm (h : Alike s t) : Alike t s := by
  refine ⟨?_, h.iface.symm, h.cls.symm, fun dir hdir => (h.pending dir hdir).symm⟩
  rw [h.mng]

theorem SameButTags.initAddedPorts (h : SameButTags f g)
    (place : ℕ → PortRef) (add : ℕ → ℤ) (l : List ℕ) :
    (initAddedPorts place add l g).1 = (initAddedPorts place add l f).1 ∧
      SameButTags (initAddedPorts place add l f).2 (initAddedPorts place add l g).2 := by
  induction l generalizing f g with
  | nil => exact ⟨rfl, h⟩
  | cons cnt rest ih =>
    have hpending : (g (place cnt)).pending = (f (place cnt)).pending := by rw [h (place cnt)]; rfl
    have hno : (g (place cnt)).ifaceNo = (f (place cnt)).ifaceNo := by rw [h (place cnt)]
    unfold Worker.initAddedPorts
    rw [hpending, hno]
    by_cases hp : (f (place cnt)).pending
    · rw [if_pos hp, if_pos hp]
      by_cases hneg : add (f (place cnt)).ifaceNo.toNat < 0
      · rw [if_pos hneg, if_pos hneg]
        exact ⟨rfl, h⟩
      rw [if_neg hneg, if_neg hneg]
      refine ih fun r => ?_
      rcases eq_or_ne r (place cnt) with rfl | hne
      · rw [update_self, update_self, h]
      · rw [update_of_ne hne, update_of_ne hne]
        exact h r
    · rw [if_neg hp, if_neg hp]
      exact ih h

theorem SameButTags.updatePortInfo (h : SameButTags m.iface m'.iface)
    (hm : m' = { m with iface := m'.iface }) (E : PmdEnv) :
    (updatePortInfo P E m').1 = (updatePortInfo P E m).1 ∧
      SameButTags (updatePortInfo P E m).2.iface (updatePortInfo P E m').2.iface ∧
      (updatePortInfo P E m').2 =
        { (updatePortInfo P E m).2 with iface := (updatePortInfo P E m').2.iface } := by
  obtain ⟨hret, htags⟩ := h.initAddedPorts .vhost E.addVhostPmd (List.range P.maxEthports)
  unfold Worker.updatePortInfo
  generalize Worker.initAddedPorts .vhost E.addVhostPmd (List.range P.maxEthports) m.iface = v
    at hret htags ⊢
  generalize Worker.initAddedPorts .vhost E.addVhostPmd (List.range P.maxEthports) m'.iface = v'
    at hret htags ⊢
  obtain ⟨ret, f⟩ := v
  obtain ⟨ret', f'⟩ := v'
  obtain rfl : ret' = ret := hret
  cases ret' with
  | ng => exact ⟨rfl, htags, by rw [hm]⟩
  | ok =>
    obtain ⟨hret, htags⟩ := htags.initAddedPorts .ring E.addRingPmd (List.range P.maxEthports)
    exact ⟨hret, htags, by rw [hm]⟩

/-- The table of a classifier is built of the other fields. -/
theorem SameButTags.initTxPorts (h : SameButTags f g) (E : HashEnv)
    (l : List PortRef) (i : ℕ) (cmp : ClsCompInfo) :
    initTxPorts E (l.map g) i cmp = initTxPorts E (l.map f) i cmp := by
  induction l generalizing i cmp with
  | nil => rfl
  | cons r l ih =>
    have hport : initTxPort E (g r) i cmp = initTxPort E (f r) i cmp := by
      rw [h r]
      rfl
    rw [List.map_cons, List.map_cons, Vf.initTxPorts, Vf.initTxPorts, hport]
    simp only [ih]

theorem SameButTags.updateClassifier (h : SameButTags f g)
    (E : HashEnv) (early : Bool) (c : CompInfo) (G : ClsMngInfo) :
    updateClassifier E early c.name (c.portInfos g .rx) (c.portInfos g .tx) G =
      updateClassifier E early c.name (c.portInfos f .rx) (c.portInfos f .tx) G := by
  have hrx : clsRxPort (c.portInfos g .rx) = clsRxPort (c.portInfos f .rx) := by
    unfold CompInfo.portInfos
    cases c.ports .rx with
    | nil => rfl
    | cons r l =>
      show ClsPortInfo.ofPort (g r) 0 = ClsPortInfo.ofPort (f r) 0
      rw [h r]
      rfl
  have hlen : (c.portInfos g .tx).length = (c.portInfos f .tx).length := by
    simp only [CompInfo.portInfos, List.length_map]
  have hbuilt (cmp : ClsCompInfo) :
      initComponentInfo E (c.portInfos g .rx) (c.portInfos g .tx) cmp =
        initComponentInfo E (c.portInfos f .rx) (c.portInfos f .tx) cmp := by
    unfold initComponentInfo
    rw [hrx, hlen]
    exact h.initTxPorts E _ 0 _
  unfold Vf.updateClassifier
  simp only [hbuilt]

/-- Whether the table of a forwarder is built depends on the number of ports. -/
theorem updateForwarder_fst_congr {wkType : WorkerType}
    {rx rx' tx tx' : List PortInfo} (hrx : rx'.length = rx.length) (htx : tx'.length = tx.length)
    (g g' : PathInfo) :
    (updateForwarder name wkType rx' tx' g').1 = (updateForwarder name wkType rx tx g).1 := by
  unfold updateForwarder
  rw [hrx, htx]
  split
  · rfl
  · split <;> rfl

theorem Alike.refreshComp (hvf : P.module = .vf) (h : Alike s t) (E : Env)
    (c : CompInfo) : (refreshComp P E t c).1 = (refreshComp P E s c).1 ∧
      Alike (refreshComp P E s c).2 (refreshComp P E t c).2 := by
  have hlen (dir : PortDir) :
      (c.portInfos t.mng.iface dir).length = (c.portInfos s.mng.iface dir).length := by
    simp only [CompInfo.portInfos, List.length_map]
  have hpending (dir : PortDir) (hdir : dir = .rx ∨ dir = .tx) :
      ((Worker.refreshComp P E t c).2.cap.pending dir).length =
        ((Worker.refreshComp P E s c).2.cap.pending dir).length := by
    rw [length_pending_refreshComp, length_pending_refreshComp, h.pending dir hdir]
  unfold Worker.refreshComp at hpending ⊢
  split
  · rename_i hcls
    simp only [if_pos hcls] at hpending
    have hupdate := h.iface.updateClassifier E.hash E.early c (s.cls c.compId)
    refine ⟨?_, h.mng, h.iface, ?_, hpending⟩
    all_goals
      unfold refreshClassifier
      simp only [h.cls, hupdate]
  · rename_i hcls
    simp only [if_neg hcls] at hpending
    refine ⟨?_, h.mng, h.iface, h.cls, hpending⟩
    unfold refreshPath
    simp only [hvf]
    exact updateForwarder_fst_congr (hlen .rx) (hlen .tx) _ _

theorem SameButTags.ethdevsInRange (h : SameButTags f g)
    (c : CompInfo) : ethdevsInRange P g c = ethdevsInRange P f c := by
  have hid (r : PortRef) : (g r).ethdevPortId = (f r).ethdevPortId := by rw [h r]
  simp only [Worker.ethdevsInRange, CompInfo.portInfos, ← List.map_append, List.all_map,
    Function.comp_def, hid]

theorem Alike.updateOneComp (hvf : P.module = .vf) (h : Alike s t)
    {cnt : ℕ} {r : Ret × State} (hs : updateOneComp P E s cnt = .ok r) :
    ∃ t', updateOneComp P E t cnt = .ok (r.1, t') ∧ Alike r.2 t' := by
  have hcomp : t.mng.comp = s.mng.comp := by rw [h.mng]
  have hserved (id : ℕ) : served P t.mng id = served P s.mng id := by
    rw [h.mng]
    rfl
  rw [updateOneComp_eq] at hs
  obtain ⟨cap, hcap, hs⟩ := bind_eq_ok.mp hs
  obtain ⟨⟨hdevices, hroom⟩, rfl⟩ := sppwkUpdatePortDir_eq_ok.mp hcap
  have hcap' : sppwkUpdatePortDir P t.mng.iface (t.mng.comp cnt) t.cap =
      .ok (updatePortDir t.mng.iface (t.mng.comp cnt) t.cap) := by
    refine sppwkUpdatePortDir_eq_ok.mpr ⟨⟨?_, fun dir hdir => ?_⟩, rfl⟩
    · rwa [hcomp, h.iface.ethdevsInRange]
    · rw [hcomp, h.pending dir hdir]
      exact hroom dir hdir
  have hcaps : Alike { s with cap := updatePortDir s.mng.iface (s.mng.comp cnt) s.cap }
      { t with cap := updatePortDir t.mng.iface (t.mng.comp cnt) t.cap } := by
    refine ⟨h.mng, h.iface, h.cls, fun dir hdir => ?_⟩
    rw [length_pending_updatePortDir _ _ _ hdir, length_pending_updatePortDir _ _ _ hdir,
      h.pending dir hdir, hcomp]
  obtain ⟨hret, halike⟩ := hcaps.refreshComp hvf E (s.mng.comp cnt)
  rw [updateOneComp_eq, hcap', hcomp]
  rw [hcomp] at hret halike
  simp only [bind, Except.bind, hret, hserved]
  simp only at hs
  split at hs
  · cases hs
  · rename_i hanswered
    cases hs
    exact ⟨_, by rw [if_neg hanswered, ← hret], halike⟩

theorem Alike.updateCompInfo (hvf : P.module = .vf) {l : List ℕ}
    (h : Alike s t) {r : Ret × State} (hs : updateCompInfo P E l s = .ok r) :
    ∃ t', updateCompInfo P E l t = .ok (r.1, t') := by
  induction l generalizing s t with
  | nil =>
    cases hs
    exact ⟨t, rfl⟩
  | cons cnt rest ih =>
    have hmark : t.mng.changeComp = s.mng.changeComp := by rw [h.mng]
    unfold Worker.updateCompInfo at hs ⊢
    rw [hmark]
    split at hs
    · rename_i hcnt
      rw [if_pos hcnt]
      obtain ⟨⟨ret, s'⟩, hone, hs⟩ := bind_eq_ok.mp hs
      obtain ⟨t', hone', halike⟩ := h.updateOneComp hvf hone
      rw [hone']
      cases ret with
      | ng =>
        cases hs
        exact ⟨t', rfl⟩
      | ok => exact ih halike hs
    · rename_i hcnt
      rw [if_neg hcnt]
      exact ih h hs

/-- **A flush does not depend on tags.** -/
theorem Alike.flushCmd (hvf : P.module = .vf) (h : Alike s t)
    {r : Ret × State} (hs : flushCmd P E s = .ok r) :
    ∃ t', flushCmd P E t = .ok (r.1, t') := by
  obtain ⟨hret, htags, hmng⟩ := h.iface.updatePortInfo (P := P) h.mng E.pmd
  unfold Worker.flushCmd at hs ⊢
  generalize Worker.updatePortInfo P E.pmd s.mng = v at hret htags hmng hs
  generalize Worker.updatePortInfo P E.pmd t.mng = v' at hret htags hmng ⊢
  obtain ⟨ret, m⟩ := v
  obtain ⟨ret', m'⟩ := v'
  obtain rfl : ret' = ret := hret
  cases ret' with
  | ng =>
    cases hs
    exact ⟨_, rfl⟩
  | ok =>
    obtain ⟨m₁, hlcore, hs⟩ := bind_eq_ok.mp hs
    obtain ⟨r₁, hcomps, hs⟩ := bind_eq_ok.mp hs
    cases hs
    have hlcore' : updateLcoreInfo P m' = .ok { m₁ with iface := m'.iface } := by
      rw [show m' = { m with iface := m'.iface } from hmng]
      unfold updateLcoreInfo at hlcore ⊢
      split at hlcore
      · cases hlcore
      · rename_i hanswered
        cases hlcore
        exact if_neg hanswered
    have hiface : m₁.iface = m.iface := by rw [updateLcoreInfo_eq_ok hlcore]
    have halike : Alike { s with mng := m₁ } { t with mng := { m₁ with iface := m'.iface } } := by
      refine ⟨rfl, ?_, h.cls, h.pending⟩
      show SameButTags m₁.iface m'.iface
      rwa [hiface]
    obtain ⟨t', hcomps'⟩ := halike.updateCompInfo hvf hcomps
    simp only [hlcore', bind, Except.bind, hcomps']
    exact ⟨_, rfl⟩

/-! ## The request -/

/-- The request `port add UID rx|tx NAME add_vlantag VID PCP`, for a port that the UID names. -/
def TagRequest (P : Platform) (req name : CString) (r : PortRef) (d : PortDir) (v k : ℤ) : Prop :=
  req.length < sppwkMaxParams * sppwkValBufsz ∧
    ∃ uid dir vid pcp idx, CString.tokens ' ' req = ["port".toList, "add".toList, uid, dir, name,
        "add_vlantag".toList, vid, pcp] ∧
      NamesPort P uid idx ∧ getSppwkPort P idx.ifaceType idx.ifaceNo idx.queueNo = .ok (some r) ∧
      (dir, d) ∈ portDirs ∧
      CString.value 0 vid = some (v, []) ∧ (0 ≤ v ∧ v ≤ ethVlanIdMax) ∧
      CString.value 0 pcp = some (k, []) ∧ 0 ≤ k ∧ k ≤ sppVlanPcpMax

/-- The attribute that adds a tag in a direction. -/
def addTag (d : PortDir) (v k : ℤ) : PortAttrs := ⟨.addVlan, d, ⟨v, k, 0⟩⟩

/-- **The tag is updated**: the request is accepted and succeeds; an attribute of the port that
adds a tag in the direction becomes the new one; the other attributes of the port, those of the
other ports, and the components with their lists stay as they are. -/
def TagUpdated (P : Platform) (E : Env) (s : State) (req : CString) (r : PortRef) (d : PortDir)
    (v k : ℤ) : Prop :=
  ∃ cmd s', parseWkCmd P s.mng req = .ok (.ok cmd) ∧ execOneCmd P E s cmd = .ok (.ok, s') ∧
    (∃ i, ((s.mng.iface r).portAttrs i).ops = .addVlan ∧ ((s.mng.iface r).portAttrs i).dir = d ∧
      (s'.mng.iface r).portAttrs = Function.update (s.mng.iface r).portAttrs i (addTag d v k)) ∧
    (∀ r' ≠ r, (s'.mng.iface r').portAttrs = (s.mng.iface r').portAttrs) ∧
    s'.mng.comp = s.mng.comp

/-- The component may have any number of ports in the direction. -/
def Unlimited (c : CompInfo) (d : PortDir) : Prop :=
  (c.wkType = .mrg ∧ d = .rx) ∨ (c.wkType = .cls ∧ d = .tx)

/-- The first attribute of the port that adds a tag does so in the direction. -/
def TagFirst (port : PortInfo) (d : PortDir) : Prop :=
  ∀ i, port.slotOf .addVlan = some i → (port.portAttrs i).dir = d

/-- The environment lets a flush of the component, as it is, come to its end. -/
def FlushSucceeds (P : Platform) (E : Env) (s : State) (id : ℕ) : Prop :=
  ∃ s', flushCmd P E { s with
    mng := { s.mng with changeComp := Function.update s.mng.changeComp id true } } = .ok (.ok, s')

/-- What `parse_wk_cmd` makes of the request. -/
theorem TagRequest.parse (hP : P.FitsInt) (hfit : NamesFit P m)
    {v k : ℤ} (h : TagRequest P req name r d v k)
    (hid : sppwkGetLcoreId P m name = some id) (hqueue : QueueFits P r d) :
    ∃ p : CmdPort, parseWkCmd P m req = .ok (.ok (.port p)) ∧ p.wkAction = .add ∧ p.dir = d ∧
      p.name = name ∧ p.portAttrs = addTag d v k ∧
      getSppwkPort P p.port.ifaceType p.port.ifaceNo p.port.queueNo = .ok (some r) := by
  obtain ⟨hlen, uid, dir, vid, pcp, idx, htok, huid, hport, hdir, hvid, hv, hpcp, hk⟩ := h
  have hsome : (sppwkGetLcoreId P m name).isSome := by rw [hid]; rfl
  have hdoc : Documented P m (CString.tokens ' ' req)
      (.port ⟨.add, idx, d, name, addTag d v k⟩) := by
    refine ⟨_, htok, "add", uid, dir, ["add_vlantag", vid, pcp], rfl, ?_, huid, hdir,
      fun _ => ⟨hqueue idx hport, fun hne => absurd rfl hne⟩, hsome, hfit.length_lt hsome,
      ⟨rfl, v, k, rfl, hvid, hv, hpcp, hk⟩, nofun⟩
    exact List.mem_cons_self
  exact ⟨⟨.add, idx, d, name, addTag d v k⟩, parseWkCmd_of_documented hP hlen hdoc, rfl, rfl, rfl,
    rfl, hport⟩

/-- A port that is listed is counted once more. -/
theorem checkPortCount_eq_ok_iff (hvf : P.module = .vf) {c : CompInfo} (hdense : Dense c)
    (hcount : CountOk c) (hd : d = .rx ∨ d = .tx)
    (hr : r ∈ c.ports d) : checkPortCount P c d = .ok ↔ Unlimited c d := by
  have hpos : 0 < (c.ports d).length := List.length_pos_of_mem hr
  have hrx : (c.ports .rx).length = c.nofRx := hdense.length_ports (.inl rfl)
  have htx : (c.ports .tx).length = c.nofTx := hdense.length_ports (.inr rfl)
  obtain ⟨honeRx, honeTx⟩ := hcount
  rw [hrx] at honeRx
  rw [htx] at honeTx
  rw [checkPortCount, hvf]
  unfold checkVfPortCount Unlimited
  rcases hd with rfl | rfl
  · rw [hrx] at hpos
    cases htype : c.wkType with
    | fwd | cls => simp [hpos]
    | mrg =>
      have hle := honeTx (by rw [htype]; decide)
      simp [hle]
    | _ => simp
  · rw [htx] at hpos
    cases htype : c.wkType with
    | fwd | mrg => simp [hpos]
    | cls =>
      have hle := honeRx (.inr htype)
      simp [hle]
    | _ => simp

theorem dir_of_mem_portDirs {dir : CString} (h : (dir, d) ∈ portDirs) : d = .rx ∨ d = .tx := by
  simp only [portDirs, List.mem_cons, Prod.mk.injEq, List.not_mem_nil, or_false] at h
  exact h.imp And.right And.right

section Listed

variable (hadd : p.wkAction = .add) (hid : sppwkGetLcoreId P s.mng p.name = some id)
  (hport : getSppwkPort P p.port.ifaceType p.port.ifaceNo p.port.queueNo = .ok (some r))
  (hr : r ∈ (s.mng.comp id).ports p.dir)

include hadd hid hport hr

/-- `update_port` on a port that is listed. -/
theorem updatePort_of_mem :
    updatePort P s.mng p = .ok (if checkPortCount P (s.mng.comp id) p.dir = .ng then (.ng, s.mng)
      else addListedPort s.mng id r p.portAttrs) := by
  have hlisted : (getIdxPortInfo r ((s.mng.comp id).nof p.dir)
      ((s.mng.comp id).array p.dir)).isSome := by
    obtain ⟨i, hi⟩ := CountedArray.exists_lastIdx_of_mem (CompInfo.mem_ports.mp hr)
    exact Option.isSome_iff_exists.mpr ⟨i, hi⟩
  unfold updatePort
  simp only [hid, hport, bind, Except.bind, hadd, if_pos hlisted]
  split <;> rfl

/-- The first step of the request, where the count allows it. -/
theorem execOneCmd_retag {i : Fin portCapablMax} (hops : p.portAttrs.ops = .addVlan)
    (hslot : (s.mng.iface r).slotOf .addVlan = some i)
    (hcount : checkPortCount P (s.mng.comp id) p.dir = .ok) (E : Env) :
    execOneCmd P E s (.port p) = flushCmd P E { s with
      mng := s.mng.editPort id r ((s.mng.iface r).setAttr i p.portAttrs) (s.mng.comp id) } := by
  have hadded : addListedPort s.mng id r p.portAttrs =
      (.ok, s.mng.editPort id r ((s.mng.iface r).setAttr i p.portAttrs) (s.mng.comp id)) := by
    unfold addListedPort
    rw [if_pos hops, hslot]
  have hhand : handled P.module (.port p) = true := rfl
  unfold execOneCmd
  rw [if_pos hhand, changeMng, updatePort_of_mem hadd hid hport hr, hcount, if_neg (by decide),
    hadded]
  rfl

/-- The request, where the count does not allow it. -/
theorem execOneCmd_refused (hcount : checkPortCount P (s.mng.comp id) p.dir = .ng) (E : Env) :
    execOneCmd P E s (.port p) = .ok (.ng, s) := by
  have hhand : handled P.module (.port p) = true := rfl
  unfold execOneCmd
  rw [if_pos hhand, changeMng, updatePort_of_mem hadd hid hport hr, if_pos hcount]
  rfl

end Listed

/-- **Updating a tag in place.**  In every state of `spp_vf`, for every port of a component that
has a tag in the direction: the tag is updated exactly if the component may have any number of
ports in the direction, no tag of the other direction stands before it, and the flush comes to
its end. -/
theorem tagUpdated_iff (P : Platform) (hP : P.FitsInt) (hvf : P.module = .vf)
    {h : List (State × Request)} {s : State} (hrun : Run (workerSystem P) h s) {id : ℕ}
    {name : CString} (hid : sppwkGetLcoreId P s.mng name = some id) {d : PortDir} {r : PortRef}
    (hr : r ∈ (s.mng.comp id).ports d) (hattr : ∃ i, ((s.mng.iface r).portAttrs i).ops = .addVlan ∧
      ((s.mng.iface r).portAttrs i).dir = d)
    {req : CString} {v k : ℤ} (hreq : TagRequest P req name r d v k) (E : Env) :
    TagUpdated P E s req r d v k ↔
      Unlimited (s.mng.comp id) d ∧ TagFirst (s.mng.iface r) d ∧ FlushSucceeds P E s id := by
  have hd : d = .rx ∨ d = .tx := by
    obtain ⟨-, uid, dir, vid, pcp, idx, -, -, -, hdir, -⟩ := hreq
    exact dir_of_mem_portDirs hdir
  have hcountable := countable_of_run hvf hrun
  obtain ⟨p, hparse, hadd, rfl, rfl, hattrs, hport⟩ :=
    hreq.parse hP (namesFit_of_run hrun) hid (portsFit_of_run hrun id d hd r hr)
  have hcount := checkPortCount_eq_ok_iff hvf (hcountable.dense id) (hcountable.count id) hd hr
  obtain ⟨i, hslot⟩ : ∃ i, (s.mng.iface r).slotOf .addVlan = some i := by
    obtain ⟨i, hops, -⟩ := hattr
    refine Option.isSome_iff_exists.mp (List.find?_isSome.mpr ⟨i, List.mem_finRange i, ?_⟩)
    exact decide_eq_true hops
  have hops : p.portAttrs.ops = .addVlan := by rw [hattrs]; rfl
  -- the state in which the flush starts, and the one before with the component flagged
  generalize hm₁ : s.mng.editPort id r ((s.mng.iface r).setAttr i p.portAttrs) (s.mng.comp id) = m₁
  have hcomp : m₁.comp = s.mng.comp := by
    rw [← hm₁]
    exact Function.update_eq_self _ _
  have hport₁ : m₁.iface r = (s.mng.iface r).setAttr i p.portAttrs := by
    rw [← hm₁]
    exact Function.update_self ..
  have hself : (m₁.iface r).portAttrs =
      Function.update (s.mng.iface r).portAttrs i (addTag p.dir v k) := by
    rw [hport₁, ← hattrs]
    rfl
  have hother (r' : PortRef) (hne : r' ≠ r) : m₁.iface r' = s.mng.iface r' := by
    rw [← hm₁]
    exact Function.update_of_ne hne _ _
  have hexec (hok : checkPortCount P (s.mng.comp id) p.dir = .ok) :
      execOneCmd P E s (.port p) = flushCmd P E { s with mng := m₁ } := by
    rw [← hm₁]
    exact execOneCmd_retag hadd hid hport hr hops hslot hok E
  have halike : Alike { s with mng := { s.mng with
      changeComp := Function.update s.mng.changeComp id true } } { s with mng := m₁ } := by
    refine ⟨?_, fun r' => ?_, rfl, fun _ _ => rfl⟩
    · show m₁ = _
      rw [← hm₁]
      simp only [MngData.editPort, Function.update_eq_self]
    · show m₁.iface r' = { s.mng.iface r' with portAttrs := (m₁.iface r').portAttrs }
      rcases eq_or_ne r' r with rfl | hne
      · rw [hport₁]
        rfl
      · rw [hother r' hne]
  constructor
  · rintro ⟨cmd, s', hparse', hexec', ⟨j, hjops, hjdir, hj⟩, -, -⟩
    obtain rfl : CmdAttrs.port p = cmd := Except.ok.inj (Except.ok.inj (hparse.symm.trans hparse'))
    have hok : checkPortCount P (s.mng.comp id) p.dir = .ok := by
      cases hret : checkPortCount P (s.mng.comp id) p.dir with
      | ok => rfl
      | ng =>
        rw [execOneCmd_refused hadd hid hport hr hret] at hexec'
        cases hexec'
    rw [hexec hok] at hexec'
    refine ⟨hcount.mp hok, fun i' hi' => ?_, ?_⟩
    · obtain rfl : i = i' := Option.some.inj (hslot.symm.trans hi')
      -- the new attribute stands in slot `i`, which is the slot that held the old one
      rcases eq_or_ne i j with rfl | hne
      · exact hjdir
      · have hnew : (s'.mng.iface r).portAttrs i = addTag p.dir v k := by
          rw [(flushCmd_effect hexec').iface r]
          show (m₁.iface r).portAttrs i = _
          rw [hself, Function.update_self]
        rw [hj, Function.update_of_ne hne] at hnew
        rw [hnew]
        rfl
    · exact halike.symm.flushCmd hvf hexec'
  · rintro ⟨hunlimited, hfirst, s', hflush⟩
    have hok := hcount.mpr hunlimited
    obtain ⟨t', ht'⟩ := halike.flushCmd hvf hflush
    have heffect := flushCmd_effect ht'
    have hattrs' (r' : PortRef) : (t'.mng.iface r').portAttrs = (m₁.iface r').portAttrs := by
      rw [heffect.iface r']
    refine ⟨.port p, t', hparse, (hexec hok).trans ht', ⟨i, slotOf_eq_some hslot, hfirst i hslot, ?_⟩,
      fun r' hne => ?_, heffect.comp.trans hcomp⟩
    · rw [hattrs', hself]
    · rw [hattrs', hother r' hne]

/-- The tag of an rx port of a merger is replaced. -/
theorem tagUpdated_merge : ∃ h s, Run (workerSystem (.sample .vf)) h s ∧
    h.map Prod.snd = [.plain "port add phy:0 rx m add_vlantag 10 3",
      .plain "component start m 2 merge"] ∧
    TagUpdated (.sample .vf) (Request.plain "").env s
      "port add phy:0 rx m add_vlantag 20 5" (.phy 0 0) .rx 20 5 := by
  obtain ⟨h, s, hrun, hmap, hid, hr, htype, hslot, hdir, hflush⟩ := exists_run_of_requests
    (.sample .vf)
    [.plain "component start m 2 merge", .plain "port add phy:0 rx m add_vlantag 10 3"]
    (fun s => sppwkGetLcoreId (.sample .vf) s.mng "m" = some 0 ∧
      PortRef.phy 0 0 ∈ (s.mng.comp 0).ports .rx ∧ (s.mng.comp 0).wkType = .mrg ∧
      (s.mng.iface (.phy 0 0)).slotOf .addVlan = some 0 ∧
      ((s.mng.iface (.phy 0 0)).portAttrs 0).dir = .rx ∧
      (flushCmd (.sample .vf) (Request.plain "").env { s with
        mng := { s.mng with changeComp := Function.update s.mng.changeComp 0 true } }).map
          Prod.fst = .ok .ok)
    (by decide +kernel)
  have hreq : TagRequest (.sample .vf) "port add phy:0 rx m add_vlantag 20 5" "m"
      (.phy 0 0) .rx 20 5 :=
    ⟨by decide +kernel, "phy:0", "rx", "20", "5", ⟨.phy, 0, 0⟩,
      by decide +kernel, ⟨false, by decide +kernel⟩, by decide +kernel⟩
  refine ⟨h, s, hrun, hmap, (tagUpdated_iff (.sample .vf) sample_fitsInt rfl hrun hid hr
    ⟨0, slotOf_eq_some hslot, hdir⟩ hreq (Request.plain "").env).mpr ⟨.inl ⟨htype, rfl⟩, ?_, ?_⟩⟩
  · intro i hi
    obtain rfl : 0 = i := Option.some.inj (hslot.symm.trans hi)
    exact hdir
  · unfold FlushSucceeds
    generalize flushCmd (.sample .vf) _ _ = flushed at hflush ⊢
    cases flushed with
    | error => cases hflush
    | ok r =>
      obtain ⟨ret, s'⟩ := r
      obtain rfl : ret = .ok := Except.ok.inj hflush
      exact ⟨s', rfl⟩

/-- **The tag of a forwarder's rx port cannot be replaced.**  The request is refused, in every
environment: the port is counted once more. -/
theorem not_tagUpdated_forward : ∃ h s, Run (workerSystem (.sample .vf)) h s ∧
    h.map Prod.snd = [.plain "port add phy:0 rx f add_vlantag 10 3",
      .plain "component start f 2 forward"] ∧
    PortRef.phy 0 0 ∈ (s.mng.comp 0).ports .rx ∧
    (s.mng.iface (.phy 0 0)).portAttrs 0 = addTag .rx 10 3 ∧
    TagRequest (.sample .vf) "port add phy:0 rx f add_vlantag 20 5" "f"
      (.phy 0 0) .rx 20 5 ∧
    ∀ E, ¬ TagUpdated (.sample .vf) E s "port add phy:0 rx f add_vlantag 20 5"
      (.phy 0 0) .rx 20 5 := by
  obtain ⟨h, s, hrun, hmap, hr, htag, hid, hcount⟩ := exists_run_of_requests (.sample .vf)
    [.plain "component start f 2 forward", .plain "port add phy:0 rx f add_vlantag 10 3"]
    (fun s => PortRef.phy 0 0 ∈ (s.mng.comp 0).ports .rx ∧
      (s.mng.iface (.phy 0 0)).portAttrs 0 = addTag .rx 10 3 ∧
      sppwkGetLcoreId (.sample .vf) s.mng "f" = some 0 ∧
      checkPortCount (.sample .vf) (s.mng.comp 0) .rx = .ng)
    (by decide +kernel)
  have hreq : TagRequest (.sample .vf) "port add phy:0 rx f add_vlantag 20 5" "f"
      (.phy 0 0) .rx 20 5 :=
    ⟨by decide +kernel, "phy:0", "rx", "20", "5", ⟨.phy, 0, 0⟩,
      by decide +kernel, ⟨false, by decide +kernel⟩, by decide +kernel⟩
  refine ⟨h, s, hrun, hmap, hr, htag, hreq, ?_⟩
  rintro E ⟨cmd, s', hparse', hexec, -⟩
  obtain ⟨p, hparse, hadd, hdir, hname, -, hport⟩ := hreq.parse sample_fitsInt
    (namesFit_of_run hrun) hid (portsFit_of_run hrun 0 .rx (.inl rfl) _ hr)
  obtain rfl : CmdAttrs.port p = cmd := Except.ok.inj (Except.ok.inj (hparse.symm.trans hparse'))
  rw [← hname] at hid
  rw [← hdir] at hr hcount
  rw [execOneCmd_refused hadd hid hport hr hcount] at hexec
  cases hexec

end SoftPatchPanel.Vf
