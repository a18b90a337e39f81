import SoftPatchPanel.Vf.ReportRun
import SoftPatchPanel.Vf.StatusReply
import SoftPatchPanel.Worker.CmdFaithful
import SoftPatchPanel.Worker.Waits

/-!
# The ports of the components

What a status report relies on in the management data of `spp_vf`: every entry of the
interface table describes its own port, ethdev ids are below the number of ethdevs, the
ports of the components have been typed and, if they are physical, have a device, and
no component has more ports than its type allows (`PortsOk`).

It holds at the start, because the search for host ports numbers the physical ports as
the primary process has created them, and it is kept by the requests that make sense
(`Sensible`): a component is started with a type, and a port that is added exists.  A
flush that gets past the ports gives every typed port a device
(`PortReady.device_of_flush`).
-/

namespace SoftPatchPanel.Vf

open Transition Worker
open Function (update update_self update_of_ne)

variable {P : Platform} {m m' : MngData} {r : PortRef} {place : ℕ → PortRef} {add : ℕ → ℤ}
  {l : List ℕ} {iface iface' : PortRef → PortInfo} {E : PmdEnv} {c : CompInfo} {dir : PortDir}
  {n : ℕ} {cmd : CmdAttrs}

/-! ## Devices -/

/-- A flush of ports leaves an entry as it is, or gives an entry without a device the id
that a driver has answered. -/
theorem initAddedPorts_device (place : ℕ → PortRef) (add : ℕ → ℤ) (l : List ℕ)
    (iface : PortRef → PortInfo) (r : PortRef) :
    (initAddedPorts place add l iface).2 r = iface r ∨ ((iface r).ethdevPortId < 0 ∧
      ∃ n, 0 ≤ add n ∧ ((initAddedPorts place add l iface).2 r).ethdevPortId = add n) := by
  induction l generalizing iface with
  | nil => exact .inl rfl
  | cons cnt rest ih =>
    rw [initAddedPorts]
    split
    · rename_i hpending
      split
      · exact .inl rfl
      rename_i hadd
      have hneg : (iface (place cnt)).ethdevPortId < 0 := by
        rw [PortInfo.pending, decide_eq_true_eq] at hpending
        exact hpending.2
      rcases eq_or_ne r (place cnt) with rfl | hne
      · refine .inr ⟨hneg, (iface (place cnt)).ifaceNo.toNat, Int.not_lt.mp hadd, ?_⟩
        rcases ih (update iface (place cnt)
          { iface (place cnt) with ethdevPortId := add (iface (place cnt)).ifaceNo.toNat }) with
          heq | ⟨hlt, -⟩
        · rw [heq, update_self]
        · rw [update_self] at hlt
          exact absurd hlt hadd
      · have hrest := ih (update iface (place cnt)
          { iface (place cnt) with ethdevPortId := add (iface (place cnt)).ifaceNo.toNat })
        rwa [update_of_ne hne] at hrest
    · exact ih iface

/-- A device that is there stays. -/
theorem initAddedPorts_nonneg {ret : Ret} (h : initAddedPorts place add l iface = (ret, iface'))
    (hpos : 0 ≤ (iface r).ethdevPortId) : 0 ≤ (iface' r).ethdevPortId := by
  have hdev := initAddedPorts_device place add l iface r
  rw [h] at hdev
  rcases hdev with heq | ⟨hlt, -⟩
  · exact le_of_le_of_eq hpos (congrArg _ heq).symm
  · exact absurd hlt (Int.not_lt.mpr hpos)

/-- When the loop gets to its end, no entry that it has passed waits for a device. -/
theorem not_pending_of_initAddedPorts (h : initAddedPorts place add l iface = (.ok, iface'))
    {cnt : ℕ} (hcnt : cnt ∈ l) (htype : (iface (place cnt)).ifaceType ≠ .undef) :
    0 ≤ (iface' (place cnt)).ethdevPortId := by
  induction l generalizing iface with
  | nil => exact absurd hcnt List.not_mem_nil
  | cons cnt' rest ih =>
    rw [initAddedPorts] at h
    split at h
    · rename_i hpending
      split at h
      · cases h
      rename_i hadd
      rcases List.mem_cons.mp hcnt with rfl | hmem
      · refine initAddedPorts_nonneg h ?_
        rw [update_self]
        exact Int.not_lt.mp hadd
      refine ih h hmem ?_
      rcases eq_or_ne (place cnt) (place cnt') with heq | hne
      · rwa [heq, update_self, ← heq]
      · rwa [update_of_ne hne]
    · rename_i hpending
      rcases List.mem_cons.mp hcnt with rfl | hmem
      · refine initAddedPorts_nonneg h ?_
        by_contra hneg
        exact hpending (decide_eq_true ⟨htype, Int.not_le.mp hneg⟩)
      · exact ih h hmem htype

/-- The ids that the drivers answer are those of ethdevs. -/
def PmdOk (P : Platform) (E : PmdEnv) : Prop :=
  ∀ n, E.addVhostPmd n < P.maxEthports ∧ E.addRingPmd n < P.maxEthports

/-- **The flush of ports** keeps devices, and what it adds is in range. -/
theorem updatePortInfo_device (E : PmdEnv) (m : MngData) (r : PortRef) :
    (updatePortInfo P E m).2.iface r = m.iface r ∨ ((m.iface r).ethdevPortId < 0 ∧
      0 ≤ ((updatePortInfo P E m).2.iface r).ethdevPortId ∧
      (PmdOk P E → ((updatePortInfo P E m).2.iface r).ethdevPortId < P.maxEthports)) := by
  unfold updatePortInfo
  have hv := initAddedPorts_device .vhost E.addVhostPmd (List.range P.maxEthports) m.iface r
  split <;> rename_i iface heq <;> rw [heq] at hv
  · rcases hv with hv | ⟨hneg, n, hpos, hval⟩
    · exact .inl hv
    · exact .inr ⟨hneg, le_of_le_of_eq hpos hval.symm, fun hok => lt_of_eq_of_lt hval (hok n).1⟩
  rcases initAddedPorts_device .ring E.addRingPmd (List.range P.maxEthports) iface r with
    hr | ⟨hneg, n, hpos, hval⟩
  · rcases hv with hv | ⟨hneg, n, hpos, hval⟩
    · exact .inl (hr.trans hv)
    · have hval := (congrArg PortInfo.ethdevPortId hr).trans hval
      exact .inr ⟨hneg, le_of_le_of_eq hpos hval.symm, fun hok => lt_of_eq_of_lt hval (hok n).1⟩
  refine .inr ⟨?_, le_of_le_of_eq hpos hval.symm, fun hok => lt_of_eq_of_lt hval (hok n).2⟩
  rcases hv with hv | ⟨hlt, -⟩
  · have hv : iface r = m.iface r := hv
    rwa [hv] at hneg
  · exact hlt

/-- The interface table after a flush is the one after the flush of ports. -/
theorem flushCmd_iface {E : Env} {s : State} {r : Ret × State} (h : flushCmd P E s = .ok r) :
    r.2.mng.iface = (updatePortInfo P E.pmd s.mng).2.iface := by
  unfold flushCmd at h
  split at h
  · rename_i m hm
    cases h
    rw [hm]
  rename_i m hm
  obtain ⟨m₁, h₁, h⟩ := bind_eq_ok.mp h
  obtain ⟨r₁, h₂, h⟩ := bind_eq_ok.mp h
  have hmng := updateCompInfo_mng h₂
  rw [updateLcoreInfo_eq_ok h₁] at hmng
  cases h
  simp only [backupMngInfo, hmng, hm]

/-! ## The ports of components -/

/-- A port that a component can have: its entry has its type, it is in its table, and a
physical port has a device. -/
structure PortReady (P : Platform) (m : MngData) (r : PortRef) : Prop where
  typed : (m.iface r).ifaceType = r.portIdx.ifaceType
  place : getSppwkPort P r.portIdx.ifaceType r.portIdx.ifaceNo r.portIdx.queueNo = .ok (some r)
  device : r.portIdx.ifaceType = .phy → 0 ≤ (m.iface r).ethdevPortId

/-- The numbers of ports that the types of components allow. -/
def CountOk (c : CompInfo) : Prop :=
  (c.wkType = .fwd ∨ c.wkType = .cls → (c.ports .rx).length ≤ 1) ∧
    (c.wkType ≠ .cls → (c.ports .tx).length ≤ 1)

/-- The ports and the components of `spp_vf` are in order. -/
structure PortsOk (P : Platform) (m : MngData) : Prop where
  iface : ∀ r, IfaceOk r (m.iface r)
  ethdev : ∀ r, (m.iface r).ethdevPortId < P.maxEthports
  host : ∀ no < P.maxEthports, ∀ q < nofQueues P no, q < P.maxQueuesPerPort →
    0 ≤ (m.iface (.phy no q)).ethdevPortId
  ready : ∀ id dir, dir = .rx ∨ dir = .tx → ∀ r ∈ (m.comp id).ports dir, PortReady P m r
  compId : ∀ id, (m.comp id).wkType ≠ .none → (m.comp id).compId = id
  marked : ∀ id < P.maxLcore, m.changeComp id = true → (m.comp id).wkType ≠ .none
  count : ∀ id, CountOk (m.comp id)

theorem portIdx_named (r : PortRef) : r.portIdx.ifaceType.Named := by
  cases r with
  | phy => exact .inl rfl
  | vhost => exact .inr (.inl rfl)
  | ring => exact .inr (.inr rfl)

theorem PortReady.inIfaceTable (h : PortReady P m r) : r.portIdx.InIfaceTable P := by
  by_contra hout
  exact absurd (h.place.symm.trans (getSppwkPort_of_not_inIfaceTable (portIdx_named r) hout))
    (by simp)

theorem PortReady.type_ne (h : PortReady P m r) : (m.iface r).ifaceType ≠ .undef := by
  rw [h.typed]
  rcases portIdx_named r with ht | ht | ht
  all_goals
    rw [ht]
    decide

/-- When the flush gets past the ports, every port of a component has a device. -/
theorem PortReady.device_of_flush (h : PortReady P m r)
    (hm : updatePortInfo P E m = (.ok, m')) : 0 ≤ (m'.iface r).ethdevPortId := by
  obtain ⟨iface, hv, hr⟩ := updatePortInfo_eq_ok hm
  cases r with
  | phy no q => exact initAddedPorts_nonneg hr (initAddedPorts_nonneg hv (h.device rfl))
  | vhost no =>
    have hno : no < P.maxEthports := Int.ofNat_lt.mp h.inIfaceTable.1.2
    exact initAddedPorts_nonneg hr
      (not_pending_of_initAddedPorts hv (List.mem_range.mpr hno) h.type_ne)
  | ring no =>
    have hno : no < P.maxEthports := Int.ofNat_lt.mp h.inIfaceTable.1.2
    refine not_pending_of_initAddedPorts hr (List.mem_range.mpr hno) ?_
    have hsame := initAddedPorts_sameButEthdev .vhost E.addVhostPmd (List.range P.maxEthports)
      m.iface (.ring no)
    rw [hv] at hsame
    exact (congrArg PortInfo.ifaceType hsame).trans_ne h.type_ne

/-- An entry keeps what makes it ready when it is retyped and keeps its device. -/
theorem PortReady.retyped (h : PortReady P m r) (htype : Retyped r (m.iface r) (m'.iface r))
    (heth : 0 ≤ (m.iface r).ethdevPortId → 0 ≤ (m'.iface r).ethdevPortId) : PortReady P m' r :=
  ⟨htype.type_of h.typed, h.place, fun hphy => heth (h.device hphy)⟩

/-- One slot has been replaced, and entries have at most been retyped. -/
theorem PortsOk.edit (h : PortsOk P m) {id : ℕ}
    (hcomp : m'.comp = update m.comp id c) (hiface : ∀ r, Retyped r (m.iface r) (m'.iface r))
    (heth : ∀ r, (m'.iface r).ethdevPortId = (m.iface r).ethdevPortId)
    (hports : ∀ dir, dir = .rx ∨ dir = .tx → ∀ r ∈ c.ports dir,
      r ∈ (m.comp id).ports dir ∨ PortReady P m' r) (hid : c.wkType ≠ .none → c.compId = id)
    (hmark : ∀ i, i ≠ id → m'.changeComp i = m.changeComp i)
    (hmarked : m'.changeComp id = true → c.wkType ≠ .none) (hcount : CountOk c) :
    PortsOk P m' := by
  have hkeep {r : PortRef} (hr : PortReady P m r) : PortReady P m' r :=
    hr.retyped (hiface r) fun hpos => (heth r).symm ▸ hpos
  refine ⟨fun r => (hiface r).ifaceOk (h.iface r), fun r => ?_, fun no hno q hq hmax => ?_,
    fun i dir hdir r hr => ?_, fun i => ?_, fun i hi => ?_, fun i => ?_⟩
  · rw [heth]
    exact h.ethdev r
  · rw [heth]
    exact h.host no hno q hq hmax
  · rcases eq_or_ne i id with rfl | hne
    · rw [hcomp, update_self] at hr
      rcases hports dir hdir r hr with hold | hnew
      · exact hkeep (h.ready i dir hdir r hold)
      · exact hnew
    · rw [hcomp, update_of_ne hne] at hr
      exact hkeep (h.ready i dir hdir r hr)
  · rcases eq_or_ne i id with rfl | hne
    · rwa [hcomp, update_self]
    · rw [hcomp, update_of_ne hne]
      exact h.compId i
  · rcases eq_or_ne i id with rfl | hne
    · rwa [hcomp, update_self]
    · rw [hcomp, update_of_ne hne, hmark i hne]
      exact h.marked i hi
  rcases eq_or_ne i id with rfl | hne
  · rwa [hcomp, update_self]
  · rw [hcomp, update_of_ne hne]
    exact h.count i

/-- The component table is as it was, and flags are those of components with a type. -/
theorem PortsOk.congr (h : PortsOk P m) (hcomp : m'.comp = m.comp)
    (hiface : ∀ r, IfaceOk r (m'.iface r))
    (htype : ∀ r, (m'.iface r).ifaceType = (m.iface r).ifaceType)
    (heth : ∀ r, 0 ≤ (m.iface r).ethdevPortId → 0 ≤ (m'.iface r).ethdevPortId)
    (hlt : ∀ r, (m'.iface r).ethdevPortId < P.maxEthports)
    (hmarked : ∀ id < P.maxLcore, m'.changeComp id = true →
      m.changeComp id = true ∨ (m.comp id).wkType ≠ .none) : PortsOk P m' := by
  refine ⟨hiface, hlt, fun no hno q hq hmax => heth _ (h.host no hno q hq hmax),
    fun i dir hdir r hr => ?_, ?_, fun i hi hm => ?_, ?_⟩
  · rw [hcomp] at hr
    have hready := h.ready i dir hdir r hr
    exact ⟨(htype r).trans hready.typed, hready.place, fun hphy => heth r (hready.device hphy)⟩
  · rw [hcomp]
    exact h.compId
  · rw [hcomp]
    exact (hmarked i hi hm).elim (h.marked i hi) id
  · rw [hcomp]
    exact h.count

/-! ## The numbers of ports -/

theorem length_ports_le (c : CompInfo) (dir : PortDir) : (c.ports dir).length ≤ c.nof dir := by
  rw [c.ports_eq]
  refine (List.reduceOption_length_le _).trans ?_
  rw [CompInfo.slots, CountedArray.length_slice]

theorem countOk_of_ports_nil (h : ∀ dir, dir = .rx ∨ dir = .tx → c.ports dir = []) : CountOk c := by
  refine ⟨fun _ => ?_, fun _ => ?_⟩
  · rw [h .rx (.inl rfl)]
    exact Nat.zero_le 1
  · rw [h .tx (.inr rfl)]
    exact Nat.zero_le 1

/-- The test before a port is attached keeps the numbers. -/
theorem CountOk.addPort (hvf : P.module = .vf) (h : CountOk c)
    (hdir : dir = .rx ∨ dir = .tx) (hcount : checkPortCount P c dir = .ok) (r : PortRef) :
    CountOk (c.addPort dir r) := by
  rw [checkPortCount, hvf] at hcount
  simp only [checkVfPortCount] at hcount
  rw [CountOk, addPort_wkType]
  have hrx := length_ports_le c .rx
  have htx := length_ports_le c .tx
  have hnrx : c.nof .rx = c.nofRx := rfl
  have hntx : c.nof .tx = c.nofTx := rfl
  rcases hdir with rfl | rfl
  · rw [c.ports_addPort_opposite (.inl ⟨rfl, rfl⟩), c.ports_addPort, List.length_append]
    refine ⟨fun htype => ?_, h.2⟩
    rcases htype with htype | htype
    all_goals
      rw [htype] at hcount
      simp only [if_true] at hcount
      split at hcount
      · cases hcount
      · simp only [List.length_singleton]
        omega
  rw [c.ports_addPort_opposite (.inr ⟨rfl, rfl⟩), c.ports_addPort, List.length_append]
  refine ⟨h.1, fun htype => ?_⟩
  cases hty : c.wkType with
  | none | mir =>
    rw [hty] at hcount
    cases hcount
  | cls => exact absurd hty htype
  | mrg | fwd =>
    rw [hty] at hcount
    simp only [reduceCtorEq, if_false] at hcount
    split at hcount
    · cases hcount
    · simp only [List.length_singleton]
      omega

theorem length_delPort_le {d : PortDir} (hd : d = .rx ∨ d = .tx)
    (hdir : dir = .rx ∨ dir = .tx) (r : PortRef) :
    ((c.delPort d r).ports dir).length ≤ (c.ports dir).length := by
  rcases PortDir.eq_or_opposite hd hdir with rfl | hopp
  · by_cases hr : r ∈ c.ports dir
    · have hlen := (CompInfo.ports_delPort_perm hr).length_eq
      rw [List.length_cons] at hlen
      omega
    · rw [CompInfo.delPort_of_notMem hr]
  · rw [c.ports_delPort_opposite hopp]

theorem CountOk.delPort (h : CountOk c)
    (hdir : dir = .rx ∨ dir = .tx) (r : PortRef) : CountOk (c.delPort dir r) := by
  rw [CountOk, delPort_wkType]
  refine ⟨fun ht => ?_, fun ht => ?_⟩
  · exact (length_delPort_le hdir (.inl rfl) r).trans (h.1 ht)
  · exact (length_delPort_le hdir (.inr rfl) r).trans (h.2 ht)

/-! ## What a request keeps -/

theorem PortsOk.flush (h : PortsOk P m) (hpmd : PmdOk P E)
    (hf : FlushEffect P E m m') (hiface : m'.iface = (updatePortInfo P E m).2.iface) :
    PortsOk P m' := by
  have hdev (r : PortRef) := updatePortInfo_device (P := P) E m r
  refine h.congr hf.comp (fun r => ?_) (fun r => ?_) (fun r hpos => ?_) (fun r => ?_)
    fun id hid hm => ?_
  · rw [hf.iface r]
    exact ⟨(h.iface r).number, (h.iface r).queue, (h.iface r).type, (h.iface r).vid⟩
  · rw [hf.iface r]
  · rw [hiface]
    rcases hdev r with heq | ⟨-, hpos', -⟩
    · rwa [heq]
    · exact hpos'
  · rw [hiface]
    rcases hdev r with heq | ⟨-, -, hlt⟩
    · rw [heq]
      exact h.ethdev r
    · exact hlt hpmd
  rcases hf.rest with ⟨-, -, -, hcomp⟩ | ⟨-, -, -, hcomp⟩
  · rw [hcomp] at hm
    exact .inl hm
  · rw [hcomp] at hm
    cases hm

/-- What a documented command has beyond an accepted one: a component to be started has a
type, and a port that is named exists. -/
def Sensible (P : Platform) : CmdAttrs → Prop
  | .worker c => c.wkAction = .start → c.wkType ≠ .none
  | .port p => p.port.InTable P ∧ p.port.HasQueue P
  | _ => True

theorem getSppwkPort_phy {t : PortType} {no q : ℤ} {k : ℕ}
    (h : getSppwkPort P t no q = .ok (some (.phy n k))) :
    (n : ℤ) = no ∧ (k : ℤ) = q ∧ t = .phy ∧ n < P.maxEthports ∧ k < P.maxQueuesPerPort := by
  obtain ⟨rfl, rfl, hq, hno, hqueue⟩ := getSppwkPort_eq_some h
  obtain rfl := hq rfl
  exact ⟨rfl, rfl, rfl, Int.ofNat_lt.mp hno.2, Int.ofNat_lt.mp (hqueue rfl).2⟩

/-- The first step of a command does not touch ethdev ids. -/
theorem ethdev_of_change (hc : Change P m cmd m') (r : PortRef) :
    (m'.iface r).ethdevPortId = (m.iface r).ethdevPortId := by
  cases hc with
  | entry _ _ _ _ _ hflag =>
    obtain ⟨change, rfl⟩ := setComponentChangePort_eq_ok hflag
    exact field_update _ (by rfl) r
  | start | stop | absent | listed => rfl
  | retag => exact field_update _ (by rfl) r
  | attach _ _ _ _ _ _ hattr =>
    refine field_update _ ?_ r
    rcases hattr with ⟨-, rfl⟩ | ⟨-, i, -, rfl⟩ <;> rfl
  | detach => exact field_update _ (by rfl) r

/-- **The first step of a command** that makes sense keeps ports and components in
order. -/
theorem PortsOk.change (hvf : P.module = .vf) {req : CString}
    (h : PortsOk P m) (hcons : Consistent P m) (hparse : parseWkCmd P m req = .ok (.ok cmd))
    (hsense : Sensible P cmd) (hc : Change P m cmd m') : PortsOk P m' := by
  have hlive {name : CString} {id : ℕ} (hid : sppwkGetLcoreId P m name = some id) :
      (m.comp id).wkType ≠ .none := by
    obtain ⟨hlt, hname, hne⟩ := sppwkGetLcoreId_eq_some P hid
    exact (hcons.named id hlt).mp (hname ▸ hne)
  have heth := ethdev_of_change hc
  cases hc with
  | @entry _ a mac r attrs _ hcmd _ hport _ hattrs hflag =>
    have hset {change : ℕ → Bool} (hmarked : ∀ id < P.maxLcore, change id = true →
        m.changeComp id = true ∨ (m.comp id).wkType ≠ .none) :
        PortsOk P { m.setClsAttrs r attrs with changeComp := change } := by
      have hkept (r' : PortRef) : ((m.setClsAttrs r attrs).iface r').ethdevPortId =
          (m.iface r').ethdevPortId := field_update _ (by rfl) r'
      exact h.congr rfl (ifaceOk_update h.iface (vid_of_updateClsAttrs hparse hcmd hattrs))
        (field_update _ (by rfl)) (fun r' hpos => (hkept r').symm ▸ hpos)
        (fun r' => (hkept r').symm ▸ h.ethdev r') hmarked
    obtain ⟨o, hused, hflag⟩ := bind_eq_ok.mp hflag
    cases o with
    | none =>
      cases hflag
      exact hset fun _ _ => .inl
    | some id =>
      cases hflag
      obtain ⟨place, -, hused⟩ := bind_eq_ok.mp hused
      cases place with
      | none => cases hused
      | some r' =>
        obtain ⟨-, hlive', -⟩ := usedBy_eq_some P (Except.ok.inj hused)
        refine hset fun i hi hm => ?_
        have hm : update m.changeComp id true i = true := hm
        rcases eq_or_ne i id with rfl | hne
        · exact .inr hlive'
        · rw [update_of_ne hne] at hm
          exact .inl hm
  | @start c id hact =>
    refine h.edit rfl (fun r => retyped_refl r _) (fun _ => rfl) (fun dir _ r hr => ?_)
      (fun _ => rfl) (fun i hne => update_of_ne hne _ _) (fun _ => hsense hact)
      (countOk_of_ports_nil fun dir _ => ports_startedComp c id dir)
    rw [ports_startedComp] at hr
    exact absurd hr List.not_mem_nil
  | @stop c id =>
    refine h.edit rfl (fun r => retyped_refl r _) (fun _ => rfl) (fun dir _ r hr => ?_)
      (fun hne => absurd rfl hne) (fun i hne => update_of_ne hne _ _) (fun hm => ?_)
      (countOk_of_ports_nil fun dir _ => CompInfo.ports_zero dir)
    · rw [CompInfo.ports_zero] at hr
      exact absurd hr List.not_mem_nil
    · have hm : update m.changeComp id false id = true := hm
      rw [update_self] at hm
      cases hm
  | absent | listed => exact h
  | @retag p id r i hact hid =>
    exact h.edit rfl (retyped_update ⟨rfl, rfl, rfl, .inl rfl⟩) heth
      (fun _ _ _ hr => .inl hr) (h.compId id) (fun i hne => update_of_ne hne _ _)
      (fun _ => hlive hid) (h.count id)
  | @attach p id r port hact hid hport hcount hnew hroom hattr =>
    have hacc := parseWkCmd_port hparse
    refine h.edit rfl (retyped_update (retyped_attach hport hattr)) heth
      (fun dir hdir r' hr' => ?_) (fun _ => ?_) (fun i hne => update_of_ne hne _ _)
      (fun _ => ?_) ((h.count id).addPort hvf hacc.dir hcount r)
    · rcases (CompInfo.mem_ports_addPort hacc.dir hdir).mp hr' with hold | ⟨rfl, -⟩
      · exact .inl hold
      obtain ⟨htype, hplace⟩ := getSppwkPort_portIdx hport
      refine .inr ⟨?_, hplace, fun hphy => ?_⟩
      · show (update m.iface r' _ r').ifaceType = _
        rwa [update_self]
      rw [heth]
      cases r' with
      | phy n k =>
        obtain ⟨hn, hk, hty, hnlt, hklt⟩ := getSppwkPort_phy hport
        refine h.host n hnlt k ?_ hklt
        have hq := hsense.2 hty
        rw [← hn, ← hk] at hq
        exact Int.ofNat_lt.mp hq
      | vhost | ring => cases hphy
    · rw [addPort_compId]
      exact h.compId id (hlive hid)
    · rw [addPort_wkType]
      exact hlive hid
  | @detach p id r hact hid hport =>
    have hacc := parseWkCmd_port hparse
    refine h.edit rfl (retyped_update ⟨rfl, rfl, rfl, .inl rfl⟩) heth
      (fun dir hdir r' hr' => .inl (CompInfo.mem_of_mem_delPort hacc.dir hdir hr')) (fun _ => ?_)
      (fun i hne => update_of_ne hne _ _) (fun _ => ?_)
      ((h.count id).delPort hacc.dir r)
    · rw [delPort_compId]
      exact h.compId id (hlive hid)
    · rw [delPort_wkType]
      exact hlive hid

/-! ## Start-up -/

/-- The number of physical ports among the first ethdevs. -/
def phyCount (P : Platform) (n : ℕ) : ℕ :=
  (List.range n).countP fun i => (P.hostDev i).any (·.1 = .phy)

/-- What the primary process and the build of DPDK see to: no port has more queues than a
port can have, the numbers of rings are indices, every physical port with queues is
among the ethdevs, and the number of ethdevs has at most two digits. -/
structure HostFits (P : Platform) : Prop where
  queues : ∀ no < P.maxEthports, nofQueues P no ≤ P.maxQueuesPerPort
  ring : ∀ i id, P.hostDev i = some (.ring, id) → id < P.maxEthports
  phy : ∀ no < P.maxEthports, 0 < nofQueues P no → no < phyCount P P.maxEthports
  ethports_pos : 0 < P.maxEthports
  ethports_le : P.maxEthports ≤ 100

theorem phyCount_succ (P : Platform) (n : ℕ) :
    phyCount P (n + 1) = phyCount P n + if (P.hostDev n).any (·.1 = .phy) then 1 else 0 := by
  rw [phyCount, List.range_succ, List.countP_append, List.countP_singleton, phyCount]

theorem phyCount_le (P : Platform) (n : ℕ) : phyCount P n ≤ n :=
  List.countP_le_length.trans_eq List.length_range

/-- The search for host ports has numbered the physical ports so far. -/
structure HostSearched (P : Platform) (n : ℕ) (acc : ℕ × (PortRef → PortInfo)) : Prop where
  count : acc.1 = phyCount P n
  ethdev : ∀ r, (acc.2 r).ethdevPortId < P.maxEthports
  phy : ∀ no < acc.1, ∀ q < P.maxQueuesPerPort, 0 ≤ (acc.2 (.phy no q)).ethdevPortId

theorem HostSearched.step (hP : HostFits P) (hn : n < P.maxEthports)
    {acc : ℕ × (PortRef → PortInfo)} (h : HostSearched P n acc) :
    HostSearched P (n + 1) (initHostPort P acc n) := by
  have hle := phyCount_le P n
  have hcount := h.count
  unfold initHostPort
  split
  · rename_i k hdev
    refine ⟨?_, fun r => ?_, fun no hno q hq => ?_⟩
    · rw [phyCount_succ, hdev, hcount]
      rfl
    · cases r with
      | phy no q =>
        simp only
        split
        · show (acc.1 : ℤ) < _
          omega
        · exact h.ethdev _
      | vhost no => exact h.ethdev (.vhost no)
      | ring no => exact h.ethdev (.ring no)
    · simp only
      split
      · show (0 : ℤ) ≤ acc.1
        omega
      rename_i hnot
      have hne : no ≠ acc.1 := fun heq => hnot ⟨heq, hq⟩
      have hlt : no < acc.1 + 1 := hno
      exact h.phy no (by omega) q hq
  · rename_i id hdev
    refine ⟨?_, fun r => ?_, fun no hno q hq => ?_⟩
    · rw [phyCount_succ, hdev, hcount]
      rfl
    · show (update acc.2 (.ring id) _ r).ethdevPortId < _
      rcases eq_or_ne r (.ring id) with rfl | hne
      · rw [update_self]
        exact Int.ofNat_lt.mpr (hP.ring n id hdev)
      · rw [update_of_ne hne]
        exact h.ethdev r
    · simp only [ne_eq, reduceCtorEq, not_false_eq_true, update_of_ne]
      exact h.phy no hno q hq
  · rename_i hphy hring
    refine ⟨?_, h.ethdev, h.phy⟩
    rw [phyCount_succ, hcount, if_neg, Nat.add_zero]
    rw [Option.any_eq_true]
    rintro ⟨⟨t, id⟩, hdev, ht⟩
    obtain rfl : t = .phy := of_decide_eq_true ht
    exact hphy id hdev

theorem hostSearched (hP : HostFits P) (hn : n ≤ P.maxEthports) :
    HostSearched P n ((List.range n).foldl (initHostPort P) (0, initPortInfo)) := by
  induction n with
  | zero =>
    refine ⟨rfl, fun r => ?_, fun no hno => absurd hno (Nat.not_lt_zero no)⟩
    have hpos := hP.ethports_pos
    cases r <;> exact (by omega : (-1 : ℤ) < P.maxEthports)
  | succ n ih =>
    rw [List.range_succ, List.foldl_append]
    exact (ih (by omega)).step hP (by omega)

theorem portsOk_startUp (hP : HostFits P) : PortsOk P (startUp P).mng := by
  have hsearch := hostSearched hP (le_refl P.maxEthports)
  have hports (id : ℕ) (dir : PortDir) : ((startUp P).mng.comp id).ports dir = [] := by
    cases dir <;> rfl
  refine ⟨(exact_startUp (P := P)).described.iface, hsearch.ethdev, fun no hno q hq hmax => ?_,
    fun id dir _ r hr => ?_, fun _ h => absurd rfl h, fun _ _ hm => ?_,
    fun id => countOk_of_ports_nil fun dir _ => hports id dir⟩
  · refine hsearch.phy no ?_ q hmax
    rw [hsearch.count]
    exact hP.phy no hno (Nat.lt_of_le_of_lt (Nat.zero_le q) hq)
  · rw [hports] at hr
    exact absurd hr List.not_mem_nil
  · exact absurd hm (by simp [startUp, initMngData])

end SoftPatchPanel.Vf
