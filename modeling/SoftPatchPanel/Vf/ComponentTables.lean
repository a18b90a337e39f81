import SoftPatchPanel.Vf.ComponentPorts

/-!
# The tables of the components

What a flush does to the tables the workers run, and what the status report reads off
them.  A flush that gets past the ports rebuilds the table of every marked component
and leaves the others alone (`flushCmd_tables`); it neither stops in the middle nor
runs into a fault, as long as the ports of the components are in order and the
allocator delivers.

A forwarder's table and a classifier's have two sides each.  A forwarder starts with
different indices, and what is published is what is read.  A classifier starts with
equal indices; there the first table is read only if the worker changes its index
before the table is published (`Env.early`).
-/

namespace SoftPatchPanel.Vf

open Transition Worker

variable {P : Platform} {m m' : MngData} {E : HashEnv} {id cnt : ℕ} {s₁ s₂ : State}

/-! ## One table -/

/-- The allocator delivers whatever a classifier's table needs. -/
def HashOk (E : HashEnv) : Prop := ∀ i, E.create i = true ∧ E.addKey i = true

theorem initTxPort_ok (hE : HashOk E) (port : PortInfo) (i : ℕ)
    (cmp : ClsCompInfo) : (initTxPort E port i cmp).1 = .ok := by
  have hregister (mac : MacClassifier) : (registerPort E port i mac).1 = .ok := by
    unfold registerPort
    simp only [(hE i).2, if_true]
    split <;> rfl
  unfold initTxPort
  simp only [(hE i).1]
  split
  · rfl
  · rw [if_neg (by simp)]
    exact hregister _

theorem initTxPorts_ok (hE : HashOk E) (ports : List PortInfo) (i : ℕ)
    (cmp : ClsCompInfo) : (initTxPorts E ports i cmp).1 = .ok := by
  induction ports generalizing i cmp with
  | nil => rfl
  | cons port rest ih =>
    rw [initTxPorts]
    have hone := initTxPort_ok hE port i cmp
    split
    · rename_i cmp' h
      rw [h] at hone
      cases hone
    · exact ih _ _

theorem updateClassifier_ok (hE : HashOk E) (early : Bool) (name : CString)
    (rx tx : List PortInfo) (g : ClsMngInfo) :
    (updateClassifier E early name rx tx g).1 = .ok := by
  have hbuild : (initComponentInfo E rx tx (g.compList g.updIndex)).1 = .ok :=
    initTxPorts_ok hE tx 0 _
  simp only [updateClassifier, hbuild]

/-- What an update leaves on the side that the worker reads. -/
structure Installed (name : CString) (rx tx : List PortInfo) (cmp : ClsCompInfo) : Prop where
  name : cmp.name = name
  built : Built tx cmp
  nofTxPorts : cmp.nofTxPorts = tx.length
  rxPortI : cmp.rxPortI = clsRxPort rx

/-- **The update of a classifier.**  What it has built is read, unless it is the first
update and the worker is late. -/
theorem installed_of_update {early : Bool} {name : CString}
    {rx tx : List PortInfo} {g g' : ClsMngInfo} (h : Settled g ∨ (g = .zero ∧ early = true))
    (hok : updateClassifier E early name rx tx g = (.ok, g')) :
    Installed name rx tx g'.ref := by
  obtain ⟨g₀, cmp, hg₀, hbuild, rfl⟩ := updateClassifier_eq_ok hok
  have hclean : ∀ v, (g.compList g.updIndex).macClfs v = none := by
    rcases h with h | ⟨rfl, -⟩
    · exact h.clean
    · exact fun _ => rfl
  have hside : g₀.refIndex + 1 = g.updIndex := by
    rcases h with h | ⟨rfl, rfl⟩
    · have hsame : g.changeIndex = g := if_neg h.sides
      rw [hsame, ite_self] at hg₀
      rw [hg₀, side_add_one_of_ne h.sides]
    · rw [hg₀]
      decide
  obtain ⟨hb, hnof, hrx⟩ := built_of_initComponentInfo hclean hbuild
  dsimp only [ClsMngInfo.ref]
  rw [Function.update_of_ne (side_add_one_ne _), hside, Function.update_self]
  exact ⟨rfl, hb.withName name, hnof, hrx⟩

/-- What is published is read. -/
theorem ref_publish {g : PathInfo} (h : g.refIndex ≠ g.updIndex) (path : Path) :
    (g.publish path).ref = path ∧ (g.publish path).refIndex ≠ (g.publish path).updIndex := by
  refine ⟨?_, side_add_one_ne _⟩
  dsimp only [PathInfo.publish, PathInfo.ref]
  rw [side_add_one_of_ne h, Function.update_self]

theorem updateForwarder_eq {c : CompInfo} (h : CountOk c) (hne : c.wkType ≠ .cls)
    (iface : PortRef → PortInfo) (g : PathInfo) :
    updateForwarder c.name c.wkType (c.portInfos iface .rx) (c.portInfos iface .tx) g =
      (.ok, g.publish (forwardPath c.name c.wkType (c.portInfos iface .rx)
        (c.portInfos iface .tx))) := by
  have hrx : (c.portInfos iface .rx).length = (c.ports .rx).length := List.length_map _
  have htx : (c.portInfos iface .tx).length = (c.ports .tx).length := List.length_map _
  have hone := h.2 hne
  rw [updateForwarder, if_neg, if_neg (by omega)]
  rintro ⟨hfwd, hmany⟩
  have hone' := h.1 (.inl hfwd)
  omega

/-! ## All tables -/

/-- The table of a component has been rebuilt from the management data. -/
def Refreshed (E : Env) (m : MngData) (id : ℕ) (s s' : State) : Prop :=
  if (m.comp id).wkType = .cls then
    updateClassifier E.hash E.early (m.comp id).name ((m.comp id).portInfos m.iface .rx)
      ((m.comp id).portInfos m.iface .tx) (s.cls id) = (.ok, s'.cls id) ∧ s'.path id = s.path id
  else s'.path id = (s.path id).publish (forwardPath (m.comp id).name (m.comp id).wkType
      ((m.comp id).portInfos m.iface .rx) ((m.comp id).portInfos m.iface .tx)) ∧
    s'.cls id = s.cls id

/-- The tables of the slot are as they were. -/
def Untouched (id : ℕ) (s s' : State) : Prop := s'.cls id = s.cls id ∧ s'.path id = s.path id

/-- The slot is rebuilt if it is marked, and left alone otherwise. -/
def Follows (E : Env) (m : MngData) (id : ℕ) (marked : Prop) (s s' : State) : Prop :=
  (marked → Refreshed E m id s s') ∧ (¬ marked → Untouched id s s')

variable {E : Env} {s : State}

theorem Refreshed.congr {s' : State} (h : Refreshed E m id s₁ s₂)
    (hbefore : Untouched id s s₁) (hafter : Untouched id s₂ s') : Refreshed E m id s s' := by
  unfold Refreshed at h ⊢
  rwa [hafter.1, hafter.2, ← hbefore.1, ← hbefore.2]

theorem Untouched.trans (h : Untouched id s s₁) (h' : Untouched id s₁ s₂) : Untouched id s s₂ :=
  ⟨h'.1.trans h.1, h'.2.trans h.2⟩

/-- What the loop of `update_comp_info` finds in order at a slot. -/
structure SlotReady (P : Platform) (m : MngData) (id : ℕ) : Prop where
  compId : (m.comp id).compId = id
  count : CountOk (m.comp id)
  devices : ethdevsInRange P m.iface (m.comp id) = true
  served : served P m id = true

theorem refreshComp_tables (hvf : P.module = .vf) (hE : HashOk E.hash)
    (hready : SlotReady P s.mng cnt) :
    (refreshComp P E s (s.mng.comp cnt)).1 = .ok ∧
      ∀ id, Follows E s.mng id (id = cnt) s (refreshComp P E s (s.mng.comp cnt)).2 := by
  unfold refreshComp
  by_cases hcls : (s.mng.comp cnt).wkType = .cls
  · rw [if_pos ⟨hvf, hcls⟩]
    have hok := updateClassifier_ok hE E.early (s.mng.comp cnt).name
      ((s.mng.comp cnt).portInfos s.mng.iface .rx) ((s.mng.comp cnt).portInfos s.mng.iface .tx)
      (s.cls cnt)
    simp only [refreshClassifier, hready.compId]
    refine ⟨hok, fun id => ⟨?_, fun hne => ⟨Function.update_of_ne hne _ _, rfl⟩⟩⟩
    rintro rfl
    rw [Refreshed, if_pos hcls]
    refine ⟨Prod.ext hok ?_, rfl⟩
    exact (Function.update_self (f := s.cls) _ _).symm
  · rw [if_neg fun h => hcls h.2]
    have heq := updateForwarder_eq hready.count hcls s.mng.iface (s.path cnt)
    simp only [refreshPath, hvf, hready.compId, heq]
    refine ⟨trivial, fun id => ⟨?_, fun hne => ⟨rfl, Function.update_of_ne hne _ _⟩⟩⟩
    rintro rfl
    rw [Refreshed, if_neg hcls]
    exact ⟨Function.update_self _ _ _, rfl⟩

/-- The lists of `sppwk_swap_two_sides` have places for the ports of all these components. -/
def ListRoom (P : Platform) (s : State) (l : List ℕ) : Prop :=
  ∀ dir, dir = .rx ∨ dir = .tx → (s.cap.pending dir).length +
    (l.map fun id => ((s.mng.comp id).ports dir).length).sum ≤ P.maxEthports

theorem ListRoom.tail {l : List ℕ} (h : ListRoom P s (cnt :: l)) : ListRoom P s l := by
  intro dir hdir
  have hsum := h dir hdir
  rw [List.map_cons, List.sum_cons] at hsum
  omega

theorem ListRoom.head {l : List ℕ} (h : ListRoom P s (cnt :: l)) : ListRoom P s [cnt] := by
  intro dir hdir
  have hsum := h dir hdir
  rw [List.map_cons, List.sum_cons] at hsum
  rw [List.map_singleton, List.sum_singleton]
  omega

/-- The places of a component are taken when it is updated. -/
theorem ListRoom.update {l : List ℕ} {r : Ret × State} (h : ListRoom P s (cnt :: l))
    (hone : updateOneComp P E s cnt = .ok r) : ListRoom P r.2 l := by
  intro dir hdir
  have hsum := h dir hdir
  rw [List.map_cons, List.sum_cons] at hsum
  rw [updateOneComp_pending hone hdir, updateOneComp_mng hone]
  omega

theorem updateOneComp_tables (hvf : P.module = .vf) (hE : HashOk E.hash)
    (hready : SlotReady P s.mng cnt) (hroom : ListRoom P s [cnt]) :
    ∃ s', updateOneComp P E s cnt = .ok (.ok, s') ∧ s'.mng = s.mng ∧
      ∀ id, Follows E s.mng id (id = cnt) s s' := by
  have hcap : sppwkUpdatePortDir P s.mng.iface (s.mng.comp cnt) s.cap =
      .ok (updatePortDir s.mng.iface (s.mng.comp cnt) s.cap) :=
    sppwkUpdatePortDir_eq_ok.mpr ⟨⟨hready.devices, fun dir hdir => by
      simpa using hroom dir hdir⟩, rfl⟩
  obtain ⟨hok, htables⟩ := refreshComp_tables hvf hE (s := { s with
    cap := updatePortDir s.mng.iface (s.mng.comp cnt) s.cap }) hready
  refine ⟨(refreshComp P E { s with
    cap := updatePortDir s.mng.iface (s.mng.comp cnt) s.cap } (s.mng.comp cnt)).2, ?_,
    refreshComp_mng E _ _, htables⟩
  rw [updateOneComp_eq, hcap]
  show (if _ then _ else _) = _
  rw [if_neg]
  · exact congrArg Except.ok (Prod.ext hok rfl)
  · rintro ⟨-, hnot⟩
    rw [hready.compId, hready.served] at hnot
    cases hnot

/-- **The loop of `update_comp_info`** rebuilds the tables of the marked components. -/
theorem updateCompInfo_tables (hvf : P.module = .vf) (hE : HashOk E.hash)
    {l : List ℕ} (hnodup : l.Nodup) (hroom : ListRoom P s l)
    (hready : ∀ id ∈ l, s.mng.changeComp id = true → SlotReady P s.mng id) :
    ∃ s', updateCompInfo P E l s = .ok (.ok, s') ∧ s'.mng = s.mng ∧
      ∀ id, Follows E s.mng id (id ∈ l ∧ s.mng.changeComp id = true) s s' := by
  induction l generalizing s with
  | nil => exact ⟨s, rfl, rfl, fun id => ⟨fun h => absurd h.1 List.not_mem_nil, fun _ => ⟨rfl, rfl⟩⟩⟩
  | cons cnt rest ih =>
    obtain ⟨hnot, hrest⟩ := List.nodup_cons.mp hnodup
    obtain ⟨hhead, htail⟩ := List.forall_mem_cons.mp hready
    rw [updateCompInfo]
    by_cases hmark : s.mng.changeComp cnt = true
    · obtain ⟨s₁, hone, hmng, hfirst⟩ := updateOneComp_tables hvf hE (hhead hmark) hroom.head
      obtain ⟨s', hloop, hmng', hall⟩ := ih hrest (s := s₁) (hroom.update hone)
        (by rw [hmng]; exact htail)
      rw [hmng] at hmng' hall
      refine ⟨s', ?_, hmng', fun id => ⟨fun hid => ?_, fun hid => ?_⟩⟩
      · rwa [if_pos hmark, hone]
      · by_cases hcnt : id = cnt
        · subst hcnt
          exact ((hfirst id).1 rfl).congr ⟨rfl, rfl⟩ ((hall id).2 fun h => hnot h.1)
        · have hin : id ∈ rest := (List.mem_cons.mp hid.1).resolve_left hcnt
          exact ((hall id).1 ⟨hin, hid.2⟩).congr ((hfirst id).2 hcnt) ⟨rfl, rfl⟩
      · have hcnt : id ≠ cnt := fun h => hid ⟨h ▸ List.mem_cons_self, h ▸ hmark⟩
        exact ((hfirst id).2 hcnt).trans
          ((hall id).2 fun h => hid ⟨List.mem_cons_of_mem _ h.1, h.2⟩)
    · obtain ⟨s', hloop, hmng', hall⟩ := ih hrest hroom.tail htail
      refine ⟨s', ?_, hmng', fun id => ⟨fun hid => ?_, fun hid => ?_⟩⟩
      · rwa [if_neg hmark]
      · have hcnt : id ≠ cnt := fun h => hmark (h ▸ hid.2)
        exact (hall id).1 ⟨(List.mem_cons.mp hid.1).resolve_left hcnt, hid.2⟩
      · exact (hall id).2 fun h => hid ⟨List.mem_cons_of_mem _ h.1, h.2⟩

/-! ## The flush -/

/-- What a flush comes to, apart from the management data: it fails exactly if a device
cannot be created, and otherwise rebuilds what is marked. -/
structure Flushed (P : Platform) (E : Env) (s : State) (ret : Ret) (s' : State) : Prop where
  outcome : ret = (updatePortInfo P E.pmd s.mng).1
  failed : ret = .ng → ∀ id, Untouched id s s'
  tables : ret = .ok → ∀ id < P.maxLcore,
    Follows E s'.mng id (s.mng.changeComp id = true) s s'

/-- The ports of a component have devices after a flush that gets past the ports. -/
theorem PortsOk.ethdevsInRange {E : PmdEnv} (h : PortsOk P m) (hpmd : PmdOk P E)
    (hm : updatePortInfo P E m = (.ok, m')) (id : ℕ) :
    ethdevsInRange P m'.iface (m.comp id) = true := by
  have hport {dir : PortDir} (hdir : dir = .rx ∨ dir = .tx) :
      ∀ port ∈ (m.comp id).portInfos m'.iface dir,
        0 ≤ port.ethdevPortId ∧ port.ethdevPortId < P.maxEthports := by
    intro port hport
    obtain ⟨r, hr, rfl⟩ := List.mem_map.mp hport
    refine ⟨(h.ready id dir hdir r hr).device_of_flush hm, ?_⟩
    have hdev := updatePortInfo_device (P := P) E m r
    rw [hm] at hdev
    rcases hdev with heq | ⟨-, -, hlt⟩
    · rw [heq]
      exact h.ethdev r
    · exact hlt hpmd
  rw [Worker.ethdevsInRange, List.all_eq_true]
  intro port hmem
  rw [decide_eq_true_eq]
  rcases List.mem_append.mp hmem with hmem | hmem
  · exact hport (.inl rfl) port hmem
  · exact hport (.inr rfl) port hmem

/-- **The flush and the tables.** -/
theorem flushCmd_tables (hvf : P.module = .vf) (hE : HashOk E.hash)
    (hpmd : PmdOk P E.pmd) (hports : PortsOk P s.mng) (hans : Answerable P s.mng)
    (hroom : ListRoom P s (List.range P.maxLcore)) :
    ∃ ret s', flushCmd P E s = .ok (ret, s') ∧ Flushed P E s ret s' := by
  obtain ⟨iface, -, heq⟩ := updatePortInfo_spec P E.pmd s.mng
  unfold flushCmd
  cases hm : updatePortInfo P E.pmd s.mng with
  | mk ret m =>
    cases ret with
    | ng =>
      exact ⟨.ng, _, rfl, by rw [hm], fun _ _ => ⟨rfl, rfl⟩, fun h => absurd h (by decide)⟩
    | ok =>
      have hans' := hans.ports hm
      have hrange := hports.ethdevsInRange hpmd hm
      rw [hm] at heq
      obtain rfl : m = _ := heq
      have hready : ∀ id ∈ List.range P.maxLcore, s.mng.changeComp id = true →
          SlotReady P { s.mng with iface := iface
                                   core := exchanged P { s.mng with iface := iface } } id := by
        intro id hid hmark
        have hid := List.mem_range.mp hid
        have hcomp := hports.compId id (hports.marked id hid hmark)
        obtain ⟨l, hslave, hmem⟩ := hans'.run_ids hid hmark
        refine ⟨hcomp, hports.count id, hrange id, ?_⟩
        rw [← show (s.mng.comp id).compId = id from hcomp]
        exact served_of_mem hslave hmem
      obtain ⟨s', hloop, hmng, htables⟩ := updateCompInfo_tables hvf hE List.nodup_range
        hroom (s := { s with mng := { s.mng with
          iface := iface, core := exchanged P { s.mng with iface := iface } } }) hready
      refine ⟨.ok, { s' with mng := backupMngInfo s'.mng }, ?_, by rw [hm], fun h => absurd h (by decide), fun _ id hid => ?_⟩
      · show (updateLcoreInfo P _ >>= _) = _
        rw [hans'.updateLcoreInfo_eq]
        show (updateCompInfo P E _ _ >>= _) = _
        rw [hloop]
        rfl
      have hid' := htables id
      simp only [List.mem_range, hid, true_and] at hid'
      refine ⟨fun hmark => ?_, fun hmark => hid'.2 hmark⟩
      have href := hid'.1 hmark
      unfold Refreshed at href ⊢
      simp only [backupMngInfo, hmng]
      exact href

end SoftPatchPanel.Vf
