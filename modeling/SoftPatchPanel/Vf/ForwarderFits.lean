import Mathlib.Data.List.GetD
import SoftPatchPanel.Vf.ComponentTables
import SoftPatchPanel.Vf.Forward

/-!
# `forwarder.c`: the table of a forwarder or merger fits its array

`update_forwarder` copies the rx ports of the component into `forward_path.ports`, and the
tx port next to each of them.  The array has `RTE_MAX_ETHPORTS` places.  A component may have
as many rx ports as a port may have queues, if it is a merger: `check_vf_port_count` does not
count its rx ports, and `update_port` compares with `RTE_MAX_QUEUES_PER_PORT`.

Here the two loops are modelled with the bound of the array, and the table that the rest of
the development works with is what they leave when they stay inside
(`updateForwarderIn_eq`).  `complete_iff` says that this depends on the number of rx ports
alone: as long as there is a place for each, the table is complete and every packet goes to
the one tx port.
-/

namespace SoftPatchPanel.Vf

open Worker Transition

variable {P : Platform} {n : ℕ} {c : CompInfo} {d dir : PortDir} {cmd : CmdAttrs} {s s₁ : State}
  {str : CString} {tx : PortInfo} {w : DataPath}

/-! ## The loops -/

section

variable (P)

/-- Write to `ports[cnt]`. -/
def storePort (cnt : ℕ) (f : Rxtx → Rxtx) (ports : ℕ → Rxtx) : Except Fault (ℕ → Rxtx) :=
  if cnt < P.maxEthports then .ok (Function.update ports cnt (f (ports cnt)))
  else .error .undefined

/-- A loop that writes to the first places. -/
def storeLoop (f : ℕ → Rxtx → Rxtx) (n : ℕ) (ports : ℕ → Rxtx) : Except Fault (ℕ → Rxtx) :=
  (List.range n).foldlM (fun ports cnt => storePort P cnt (f cnt) ports) ports

/-- The two loops of `update_forwarder`, on zeroed memory. -/
def fillPorts (rx tx : List PortInfo) : Except Fault (ℕ → Rxtx) := do
  let max := if rx.length > tx.length then rx.length * tx.length else tx.length
  let ports ← storeLoop P (fun cnt x => { x with rx := rx.getD cnt zeroPort }) rx.length
    Path.zero.ports
  storeLoop P (fun _ x => { x with tx := tx.getD 0 zeroPort }) max ports

/-- `update_forwarder`, with the bound of `ports`. -/
def updateForwarderIn (name : CString) (wkType : WorkerType) (rx tx : List PortInfo)
    (g : PathInfo) : Except Fault (Ret × PathInfo) :=
  if wkType = .fwd ∧ rx.length > 1 then .ok (.ng, g)
  else if tx.length ≠ 0 ∧ tx.length ≠ 1 then .ok (.ng, g)
  else do
    let ports ← fillPorts P rx tx
    .ok (.ok, g.publish ⟨name, wkType, rx.length, tx.length, ports⟩)

end

theorem storeLoop_of_le (f : ℕ → Rxtx → Rxtx) (h : n ≤ P.maxEthports) (ports : ℕ → Rxtx) :
    storeLoop P f n ports = .ok fun cnt => if cnt < n then f cnt (ports cnt) else ports cnt := by
  induction n with
  | zero => simp [storeLoop]; rfl
  | succ n ih =>
    unfold storeLoop at ih ⊢
    rw [List.range_succ, List.foldlM_append, ih (by omega)]
    show (storePort P n (f n) _ >>= pure) = _
    rw [storePort, if_pos (by omega), if_neg (by omega)]
    refine congrArg Except.ok (funext fun cnt => ?_)
    rcases eq_or_ne cnt n with rfl | hne
    · rw [Function.update_self, if_pos (by omega)]
    rw [Function.update_of_ne hne]
    by_cases hlt : cnt < n
    · rw [if_pos hlt, if_pos (by omega)]
    · rw [if_neg hlt, if_neg (by omega)]

/-- The first write that does not fit stops the loop. -/
theorem storeLoop_of_lt (f : ℕ → Rxtx → Rxtx) (h : P.maxEthports < n)
    (ports : ℕ → Rxtx) : storeLoop P f n ports = .error .undefined := by
  obtain ⟨k, rfl⟩ := Nat.exists_eq_add_of_le h
  have hfirst := storeLoop_of_le f (Nat.le_refl P.maxEthports) ports
  unfold storeLoop at hfirst ⊢
  rw [List.range_add, List.range_succ, List.append_assoc, List.foldlM_append, hfirst]
  simp only [List.cons_append, List.nil_append, List.foldlM_cons, storePort, Nat.lt_irrefl,
    if_false]
  rfl

/-- With at most one tx port the loops leave the table if there is a place for every port, and
leave the array otherwise. -/
theorem fillPorts_eq (name : CString) (wkType : WorkerType) {rx tx : List PortInfo}
    (htx : tx.length ≤ 1) :
    fillPorts P rx tx = if max rx.length tx.length ≤ P.maxEthports then
      .ok (forwardPath name wkType rx tx).ports else .error .undefined := by
  have hprod : rx.length * tx.length ≤ rx.length :=
    (Nat.mul_le_mul_left _ htx).trans_eq (Nat.mul_one _)
  unfold fillPorts
  by_cases hrx : rx.length ≤ P.maxEthports
  · rw [storeLoop_of_le _ hrx]
    show storeLoop P _ _ _ = _
    by_cases hfits : max rx.length tx.length ≤ P.maxEthports
    · have hmax : (if rx.length > tx.length then rx.length * tx.length else tx.length) ≤
          P.maxEthports := by
        split <;> omega
      rw [if_pos hfits, storeLoop_of_le _ hmax]
      refine congrArg Except.ok (funext fun cnt => ?_)
      have hplace : (if cnt < rx.length then { Path.zero.ports cnt with rx := rx.getD cnt zeroPort }
          else Path.zero.ports cnt) = ⟨rx.getD cnt zeroPort, zeroPort⟩ := by
        split
        · rfl
        · rw [List.getD_eq_default _ _ (by omega)]
          rfl
      rw [hplace]
      show _ = Rxtx.mk (rx.getD cnt zeroPort) (if cnt < _ then _ else _)
      generalize (if rx.length > tx.length then rx.length * tx.length else tx.length) = places
      by_cases hcnt : cnt < places
      · rw [if_pos hcnt, if_pos hcnt]
      · rw [if_neg hcnt, if_neg hcnt]
    · have hlt : P.maxEthports < if rx.length > tx.length then rx.length * tx.length
          else tx.length := by
        rw [if_neg (by omega)]
        omega
      rw [if_neg hfits, storeLoop_of_lt _ hlt]
  · have hno : ¬ max rx.length tx.length ≤ P.maxEthports := by omega
    rw [storeLoop_of_lt _ (by omega), if_neg hno]
    rfl

/-- **The loops and the table.** -/
theorem updateForwarderIn_eq (h : CountOk c) (hne : c.wkType ≠ .cls)
    (iface : PortRef → PortInfo) (g : PathInfo) :
    updateForwarderIn P c.name c.wkType (c.portInfos iface .rx) (c.portInfos iface .tx) g =
      if max (c.ports .rx).length (c.ports .tx).length ≤ P.maxEthports then
        .ok (.ok, g.publish (forwardPath c.name c.wkType (c.portInfos iface .rx)
          (c.portInfos iface .tx)))
      else .error .undefined := by
  have hrx : (c.portInfos iface .rx).length = (c.ports .rx).length := List.length_map _
  have htx : (c.portInfos iface .tx).length = (c.ports .tx).length := List.length_map _
  have hone := h.2 hne
  have hfwd : ¬ (c.wkType = .fwd ∧ (c.portInfos iface .rx).length > 1) := by
    rintro ⟨hfwd, hmany⟩
    have hone' := h.1 (.inl hfwd)
    omega
  rw [updateForwarderIn, if_neg hfwd, if_neg (by omega), fillPorts_eq c.name c.wkType (by omega),
    hrx, htx]
  split
  · rw [← hrx, ← htx]
    rfl
  · rfl

/-! ## The components of a run -/

/-- The arrays of a component have a port in every place that counts. -/
def Dense (c : CompInfo) : Prop := ∀ dir, dir = .rx ∨ dir = .tx → none ∉ c.slots dir

theorem dense_of_slots_nil (h : ∀ dir, dir = .rx ∨ dir = .tx → c.slots dir = []) : Dense c := by
  intro dir hdir
  rw [h dir hdir]
  exact List.not_mem_nil

theorem slots_setPorts_opposite (c : CompInfo) {d' : PortDir} (h : d.Opposite d') (n : ℕ)
    (a : ℕ → Option PortRef) : (c.setPorts d n a).slots d' = c.slots d' := by
  rcases h with ⟨rfl, rfl⟩ | ⟨rfl, rfl⟩ <;> rfl

theorem Dense.addPort (h : Dense c) (hd : d = .rx ∨ d = .tx)
    (r : PortRef) : Dense (c.addPort d r) := by
  intro dir hdir
  rcases PortDir.eq_or_opposite hd hdir with rfl | hopp
  · rw [CompInfo.addPort, CompInfo.slots_setPorts, CountedArray.slice_update_succ]
    rw [List.mem_append, not_or]
    exact ⟨h dir hdir, by simp⟩
  · rw [CompInfo.addPort, slots_setPorts_opposite c hopp]
    exact h dir hdir

theorem Dense.delPort (h : Dense c) (hd : d = .rx ∨ d = .tx)
    (r : PortRef) : Dense (c.delPort d r) := by
  by_cases hr : r ∈ c.ports d
  · intro dir hdir
    rcases PortDir.eq_or_opposite hd hdir with rfl | hopp
    · obtain ⟨i, -, hslots⟩ := CompInfo.exists_slots_delPort hr
      rw [hslots]
      exact fun hmem => h dir hdir (List.mem_of_mem_eraseIdx hmem)
    unfold CompInfo.delPort
    split
    · rw [slots_setPorts_opposite c hopp]
      exact h dir hdir
    · exact h dir hdir
  · rwa [CompInfo.delPort_of_notMem hr]

/-- The places of a dense array are the ports in their order. -/
theorem Dense.slots_eq (h : Dense c) (hdir : dir = .rx ∨ dir = .tx) :
    c.slots dir = (c.ports dir).map some := by
  have hmap (l : List (Option PortRef)) (hl : none ∉ l) : l = l.reduceOption.map some := by
    induction l with
    | nil => rfl
    | cons o l ih =>
      rw [List.mem_cons, not_or] at hl
      cases o with
      | none => exact absurd rfl hl.1
      | some r => rw [List.reduceOption_cons_of_some, List.map_cons, ← ih hl.2]
  rw [c.ports_eq]
  exact hmap _ (h dir hdir)

/-- What holds of the components of `spp_vf` and their tables, whatever is requested. -/
structure Countable (s : State) : Prop where
  dense : ∀ id, Dense (s.mng.comp id)
  count : ∀ id, CountOk (s.mng.comp id)
  path : ∀ id, (s.path id).refIndex ≠ (s.path id).updIndex

theorem countable_startUp : Countable (startUp P) where
  dense _ := dense_of_slots_nil fun dir hdir => by rcases hdir with rfl | rfl <;> rfl
  count _ := countOk_of_ports_nil fun dir hdir => by rcases hdir with rfl | rfl <;> rfl
  path _ := (by decide : PathInfo.init.refIndex ≠ PathInfo.init.updIndex)

/-- The first step of a command keeps the arrays dense and the counts in bounds. -/
theorem dense_change (hvf : P.module = .vf) {m m' : MngData} {req : CString}
    (hparse : parseWkCmd P m req = .ok (.ok cmd)) (hc : Change P m cmd m')
    (h : ∀ id, Dense (m.comp id) ∧ CountOk (m.comp id)) (id : ℕ) :
    Dense (m'.comp id) ∧ CountOk (m'.comp id) := by
  have hnil {c : CompInfo} (hnone : ∀ dir, dir = .rx ∨ dir = .tx → c.slots dir = []) :
      Dense c ∧ CountOk c := by
    refine ⟨dense_of_slots_nil hnone, countOk_of_ports_nil fun dir hdir => ?_⟩
    rw [c.ports_eq, hnone dir hdir]
    rfl
  have hempty (dir : PortDir) (hdir : dir = .rx ∨ dir = .tx) : CompInfo.zero.slots dir = [] := by
    rcases hdir with rfl | rfl <;> rfl
  cases hc.slot id with
  | kept hcomp => exact hcomp ▸ h id
  | started _ _ _ hcomp =>
    rw [hcomp]
    exact hnil fun dir hdir => by rcases hdir with rfl | rfl <;> rfl
  | stopped _ _ _ hcomp =>
    rw [hcomp]
    exact hnil hempty
  | edited hcmd _ _ _ hports =>
    subst hcmd
    have hdir := (accepted_of_parse hparse).dir
    rcases hports with ⟨-, hcount, -, hcomp⟩ | hcomp
    · rw [hcomp]
      exact ⟨(h id).1.addPort hdir _, (h id).2.addPort hvf hdir hcount _⟩
    · rw [hcomp]
      exact ⟨(h id).1.delPort hdir _, (h id).2.delPort hdir _⟩

theorem publish_ne (g : PathInfo) (path : Path) :
    (g.publish path).refIndex ≠ (g.publish path).updIndex := side_add_one_ne _

theorem path_refreshComp (hvf : P.module = .vf) (E : Env) (c : CompInfo)
    (h : ∀ id, (s.path id).refIndex ≠ (s.path id).updIndex) (id : ℕ) :
    ((refreshComp P E s c).2.path id).refIndex ≠ ((refreshComp P E s c).2.path id).updIndex := by
  have hforward (g : PathInfo) (hg : g.refIndex ≠ g.updIndex) (name : CString)
      (wkType : WorkerType) (rx tx : List PortInfo) :
      (updateForwarder name wkType rx tx g).2.refIndex ≠
        (updateForwarder name wkType rx tx g).2.updIndex := by
    unfold updateForwarder
    split
    · exact hg
    · split
      · exact hg
      · exact publish_ne g _
  unfold refreshComp
  split
  · exact h id
  unfold refreshPath
  simp only [hvf]
  rcases eq_or_ne id c.compId with rfl | hne
  · rw [Function.update_self]
    exact hforward _ (h c.compId) c.name c.wkType _ _
  · rw [Function.update_of_ne hne]
    exact h id

theorem Countable.change (hvf : P.module = .vf) {m₁ : MngData}
    (hs : Countable s) (hparse : parseWkCmd P s.mng str = .ok (.ok cmd))
    (hc : Change P s.mng cmd m₁) : Countable { s with mng := m₁ } := by
  have hm₁ := dense_change hvf hparse hc fun id => ⟨hs.dense id, hs.count id⟩
  exact ⟨fun id => (hm₁ id).1, fun id => (hm₁ id).2, hs.path⟩

theorem Countable.step (hvf : P.module = .vf) {s' : State} {e : Request} (hs : Countable s)
    (h : handleRequest P s e = some s') : Countable s' := by
  rcases handleRequest_cases h with rfl | ⟨cmd, m₁, ret, hparse, -, hc, hflush⟩
  · exact hs
  refine flushCmd_induction (Q := Countable) ?_ ?_ (hs.change hvf hparse hc) hflush
  · intro s m hs _ hcomp
    exact ⟨fun id => by rw [hcomp]; exact hs.dense id, fun id => by rw [hcomp]; exact hs.count id,
      hs.path⟩
  intro s r cnt hs h₁
  have hm := updateOneComp_mng h₁
  refine ⟨fun id => by rw [hm]; exact hs.dense id, fun id => by rw [hm]; exact hs.count id, ?_⟩
  obtain ⟨cap, rfl⟩ := updateOneComp_eq_ok h₁
  exact path_refreshComp hvf e.env _ hs.path

theorem countable_of_run (hvf : P.module = .vf) {h : List (State × Request)}
    (hrun : Run (workerSystem P) h s) : Countable s :=
  hrun.invariant (G := fun _ _ => True) (fun _ h0 => h0 ▸ countable_startUp)
    (fun _ _ _ hs _ hstep => hs.step hvf hstep) fun _ _ => trivial

/-! ## Where packets go -/

/-- All that is sent goes to one port. -/
def SendsTo (tx : PortInfo) (w w' : DataPath) : Prop :=
  ∃ out : List Sent, w'.sent = w.sent ++ out ∧
    ∀ x ∈ out, x.portId = portId16 tx ∧ x.queueId = tx.queueNo

theorem SendsTo.of_eq {w' : DataPath} (h : w'.sent = w.sent) : SendsTo tx w w' :=
  ⟨[], by rw [h, List.append_nil], nofun⟩

theorem SendsTo.trans {w₁ w₂ : DataPath} (h₁ : SendsTo tx w w₁)
    (h₂ : SendsTo tx w₁ w₂) : SendsTo tx w w₂ := by
  obtain ⟨out₁, hsent₁, hout₁⟩ := h₁
  obtain ⟨out₂, hsent₂, hout₂⟩ := h₂
  refine ⟨out₁ ++ out₂, by rw [hsent₂, hsent₁, List.append_assoc], fun x hx => ?_⟩
  exact (List.mem_append.mp hx).elim (hout₁ x) (hout₂ x)

theorem sent_rxBurst (pc : PortCapability) (portId : ℕ) (w : DataPath) :
    (sppwkEthVlanRxBurst pc portId w).2.sent = w.sent := by
  obtain ⟨n, w₁, used, hop, -, hedits, -⟩ :=
    vlanOperation_edits pc portId .rx w.ethRxBurst.1 w.ethRxBurst.2
  unfold sppwkEthVlanRxBurst
  simp only
  split
  · rfl
  · rw [hop]
    exact hedits.sent

theorem sendsTo_txBurst (pc : PortCapability) (tx : PortInfo) (pkts : List ℕ) (w : DataPath) :
    SendsTo tx w (sppwkEthVlanTxBurst pc (portId16 tx) tx.queueNo pkts w).2 := by
  obtain ⟨n, m, w₁, used, txBurst, hsend, -, -, hedits, -⟩ :=
    sppwkEthVlanTxBurst_edits pc (portId16 tx) tx.queueNo pkts w
  rw [hsend]
  refine ⟨_, congrArg (· ++ _) hedits.sent, fun x hx => ?_⟩
  obtain ⟨y, -, rfl⟩ := List.mem_map.mp hx
  exact ⟨rfl, rfl⟩

/-- One round sends to the tx port that stands next to the rx port. -/
theorem sendsTo_forwardPort (pc : PortCapability) (s : ℕ × DataPath) (ports : Rxtx) :
    SendsTo ports.tx s.2 (forwardPort pc s ports).2 := by
  have hrx : SendsTo ports.tx s.2 (sppwkEthVlanRxBurst pc (portId16 ports.rx) s.2).2 :=
    .of_eq (sent_rxBurst ..)
  unfold forwardPort
  simp only
  split
  · exact hrx
  refine hrx.trans ?_
  split
  · exact sendsTo_txBurst pc ports.tx _ _
  · exact .of_eq rfl

/-- **An iteration** of a worker whose table has one tx port everywhere. -/
theorem sendsTo_forwardPackets (pc : PortCapability) {g : PathInfo} (w : DataPath)
    (hg : g.refIndex ≠ g.updIndex) (htx : ∀ i < g.ref.nofRx, (g.ref.ports i).tx = tx) :
    SendsTo tx w (forwardPackets ⟨pc, g, w⟩).data := by
  have hchange : changeForwardIndex ⟨pc, g, w⟩ = ⟨pc, g, w⟩ := if_neg hg
  have hrounds (l : List Rxtx) (hl : ∀ ports ∈ l, ports.tx = tx) (s : ℕ × DataPath) :
      SendsTo tx s.2 (l.foldl (forwardPort pc) s).2 := by
    induction l generalizing s with
    | nil => exact .of_eq rfl
    | cons ports l ih =>
      rw [List.forall_mem_cons] at hl
      exact (hl.1 ▸ sendsTo_forwardPort pc s ports).trans (ih hl.2 _)
  unfold forwardPackets
  rw [hchange]
  simp only
  split
  · refine hrounds _ (fun ports hports => ?_) (0, w)
    obtain ⟨i, hi, rfl⟩ := List.mem_map.mp hports
    exact htx i (List.mem_range.mp hi)
  · exact .of_eq rfl

/-! ## The theorem -/

/-- **The table fits and is complete.**  `update_forwarder` writes inside `ports` and
succeeds; and with one tx port and at least one rx port, the rx ports stand in the table in
their order, each with the tx port next to it, and the worker sends to that port alone. -/
def Complete (P : Platform) (iface : PortRef → PortInfo) (c : CompInfo) (g : PathInfo) : Prop :=
  ∃ g', updateForwarderIn P c.name c.wkType (c.portInfos iface .rx) (c.portInfos iface .tx) g =
      .ok (.ok, g') ∧
    (c.nofTx = 1 → 1 ≤ c.nofRx → ∃ t, c.txPorts 0 = some t ∧
      (∀ i < c.nofRx, ∃ r, c.rxPorts i = some r ∧ g'.ref.ports i = ⟨iface r, iface t⟩) ∧
      ∀ pc w, SendsTo (iface t) w (forwardPackets ⟨pc, g', w⟩).data)

theorem Dense.length_ports (h : Dense c)
    (hdir : dir = .rx ∨ dir = .tx) : (c.ports dir).length = c.nof dir := by
  rw [← List.length_map (f := some), ← h.slots_eq hdir]
  exact CountedArray.length_slice ..

/-- The ports of a dense array, place by place. -/
theorem Dense.getD_portInfos (h : Dense c) (iface : PortRef → PortInfo)
    (hdir : dir = .rx ∨ dir = .tx) {i : ℕ} (hi : i < c.nof dir) :
    ∃ r, c.array dir i = some r ∧ (c.portInfos iface dir).getD i zeroPort = iface r := by
  have hlt : i < (c.ports dir).length := by rwa [h.length_ports hdir]
  refine ⟨(c.ports dir)[i], ?_, ?_⟩
  · have hslot : (c.slots dir)[i]? = some (some (c.ports dir)[i]) := by
      rw [h.slots_eq hdir, List.getElem?_map, List.getElem?_eq_getElem hlt]
      rfl
    obtain ⟨hi', hval⟩ := List.getElem?_eq_some_iff.mp hslot
    exact (CountedArray.getElem_slice hi').symm.trans hval
  · rw [CompInfo.portInfos, List.getD_eq_getElem _ _ (by rwa [List.length_map]), List.getElem_map]

/-- **The table of a component with one tx port**, in the terms of the component's arrays. -/
theorem ports_forwardPath (hdense : Dense c) (iface : PortRef → PortInfo)
    (htx : c.nofTx = 1) (hrx : 1 ≤ c.nofRx) :
    ∃ t, c.txPorts 0 = some t ∧ ∀ i < c.nofRx, ∃ r, c.rxPorts i = some r ∧
      (forwardPath c.name c.wkType (c.portInfos iface .rx) (c.portInfos iface .tx)).ports i =
        ⟨iface r, iface t⟩ := by
  have hlenRx : (c.portInfos iface .rx).length = c.nofRx :=
    (List.length_map _).trans (hdense.length_ports (.inl rfl))
  have hlenTx : (c.portInfos iface .tx).length = 1 :=
    ((List.length_map _).trans (hdense.length_ports (.inr rfl))).trans htx
  obtain ⟨t, ht, htPort⟩ := hdense.getD_portInfos iface (.inr rfl) (show 0 < c.nofTx by omega)
  refine ⟨t, ht, fun i hi => ?_⟩
  obtain ⟨r, hr, hrPort⟩ := hdense.getD_portInfos iface (.inl rfl) hi
  refine ⟨r, hr, ?_⟩
  -- with one tx port the product is the number of rx ports, and so is the other branch
  have hplaces : i < if (c.portInfos iface .rx).length > (c.portInfos iface .tx).length then
      (c.portInfos iface .rx).length * (c.portInfos iface .tx).length
      else (c.portInfos iface .tx).length := by
    rw [hlenRx, hlenTx]
    split <;> omega
  show Rxtx.mk _ (if i < _ then _ else _) = _
  rw [if_pos hplaces, hrPort, htPort]

/-- The state in which the flush of a request starts: the request is parsed, and the first
step of its command has succeeded. -/
def firstStep (P : Platform) (s : State) (str : CString) : Option State :=
  match parseWkCmd P s.mng str with
  | .ok (.ok cmd) =>
    match changeMng P s cmd with
    | .ok (.ok, s₁) => some s₁
    | _ => none
  | _ => none

theorem firstStep_eq_some (h : firstStep P s str = some s₁) :
    ∃ cmd, parseWkCmd P s.mng str = .ok (.ok cmd) ∧ changeMng P s cmd = .ok (.ok, s₁) := by
  unfold firstStep at h
  split at h
  · rename_i cmd hparse
    split at h
    · rename_i s₂ hchange
      cases h
      exact ⟨cmd, hparse, hchange⟩
    · cases h
  · cases h

theorem Countable.firstStep (hvf : P.module = .vf)
    (hs : Countable s) (h : firstStep P s str = some s₁) : Countable s₁ := by
  obtain ⟨cmd, hparse, hchange⟩ := firstStep_eq_some h
  by_cases hhand : handled P.module cmd
  · rcases changeMng_cases (accepted_of_parse hparse) hhand hchange with
      ⟨hret, -⟩ | ⟨-, m₁, rfl, hc⟩
    · cases hret
    · exact hs.change hvf hparse hc
  obtain rfl : s = s₁ := by
    cases cmd with
    | clsMac | clsVlan => exact absurd (decide_eq_true hvf) hhand
    | worker | port => exact absurd rfl hhand
    | _ =>
      cases hchange
      rfl
  exact hs

/-- **`update_forwarder` on the component of a command.**  `s₁` is the state in which the flush
of an accepted command starts.  Whatever the command, and whatever the ports have become, the
table of a forwarder or merger fits and is complete exactly if its ports are not more than the
places. -/
theorem complete_iff (P : Platform) (hvf : P.module = .vf) {h : List (State × Request)}
    {s s₁ : State} (hrun : Run (workerSystem P) h s) {str : CString}
    (hstep : firstStep P s str = some s₁) (iface : PortRef → PortInfo) {id : ℕ}
    (htype : (s₁.mng.comp id).wkType = .fwd ∨ (s₁.mng.comp id).wkType = .mrg) :
    Complete P iface (s₁.mng.comp id) (s₁.path (s₁.mng.comp id).compId) ↔
      max (s₁.mng.comp id).nofRx (s₁.mng.comp id).nofTx ≤ P.maxEthports := by
  have hs := (countable_of_run hvf hrun).firstStep hvf hstep
  have hdense := hs.dense id
  have hcount := hs.count id
  have hsides := hs.path (s₁.mng.comp id).compId
  generalize s₁.mng.comp id = c at *
  have hne : c.wkType ≠ .cls := by
    rcases htype with htype | htype
    · rw [htype]; decide
    · rw [htype]; decide
  have hrx : (c.ports .rx).length = c.nofRx := hdense.length_ports (.inl rfl)
  have htx : (c.ports .tx).length = c.nofTx := hdense.length_ports (.inr rfl)
  rw [Complete, updateForwarderIn_eq hcount hne, hrx, htx]
  constructor
  · rintro ⟨g', hg', -⟩
    by_contra hmax
    rw [if_neg hmax] at hg'
    cases hg'
  · intro hmax
    refine ⟨_, if_pos hmax, fun hone hmany => ?_⟩
    obtain ⟨t, ht, htable⟩ := ports_forwardPath hdense iface hone hmany
    obtain ⟨href, hsides'⟩ := ref_publish hsides
      (forwardPath c.name c.wkType (c.portInfos iface .rx) (c.portInfos iface .tx))
    refine ⟨t, ht, ?_, fun pc w => sendsTo_forwardPackets pc w hsides' fun i hi => ?_⟩
    · rwa [href]
    · have hi' : i < c.nofRx := by
        rw [href] at hi
        rw [← hrx]
        exact hi.trans_eq (List.length_map _)
      obtain ⟨r, -, hplace⟩ := htable i hi'
      rw [href, hplace]

/-- A forwarder that gets its second port: the table is complete. -/
theorem complete_second_port : ∃ h s s₁, Run (workerSystem (.sample .vf)) h s ∧
    h.map Prod.snd = [.plain "port add phy:0 rx f", .plain "component start f 2 forward"] ∧
    firstStep (.sample .vf) s "port add phy:1nq0 tx f" = some s₁ ∧
    (s₁.mng.comp 0).nofRx = 1 ∧ (s₁.mng.comp 0).nofTx = 1 ∧
    Complete (.sample .vf) s₁.mng.iface (s₁.mng.comp 0) (s₁.path (s₁.mng.comp 0).compId) := by
  obtain ⟨h, s, hrun, hmap, hs⟩ := exists_run_of_requests (.sample .vf)
    [.plain "component start f 2 forward", .plain "port add phy:0 rx f"]
    (fun s => (firstStep (.sample .vf) s "port add phy:1nq0 tx f").any fun s₁ =>
      (s₁.mng.comp 0).wkType = .fwd ∧ (s₁.mng.comp 0).nofRx = 1 ∧ (s₁.mng.comp 0).nofTx = 1)
    (by decide +kernel)
  obtain ⟨s₁, hstep, hs₁⟩ := (Option.any_eq_true _ _).mp hs
  obtain ⟨htype, hrx, htx⟩ := of_decide_eq_true hs₁
  refine ⟨h, s, s₁, hrun, hmap, hstep, hrx, htx, ?_⟩
  refine (complete_iff (.sample .vf) rfl hrun hstep s₁.mng.iface (.inl htype)).mpr ?_
  rw [hrx, htx]
  decide

/-- A default build with physical ports of 64 queues. -/
def manyQueues : Platform := { Platform.sample .vf with queueInfo := fun _ => ⟨64, 64⟩ }

/-- A request during which no vhost device can be created. -/
def withoutVhost (str : String) : Request :=
  { Request.plain str with
    env := { (Request.plain str).env with pmd := ⟨fun _ => -1, fun n => n + 16⟩ } }

/-- A merger is started, and gets a vhost port whose device cannot be created and queues of
one physical port as rx ports.  A flush stops at the vhost port, before it comes to the
components, and the port that was asked for stays. -/
def mergeQueues (n : ℕ) : List Request :=
  .plain "component start m 2 merge" :: withoutVhost "port add vhost:0 rx m" ::
    (List.range n).map fun q =>
      withoutVhost ("port add phy:1nq" ++ toString q ++ " rx m")

/-- **A merger with 33 rx ports.**  No flush has come to it since its start.  The command is
accepted, and `update_forwarder` writes to `ports[32]`.  With the device of the vhost port the
flush gets past the ports, and `sppwk_update_port_dir`, which has as many places, is the first
to leave its array. -/
theorem not_complete_merge : ∃ h s s₁, Run (workerSystem manyQueues) h s ∧
    h.map Prod.snd = (mergeQueues 31).reverse ∧
    firstStep manyQueues s "port add phy:1nq31 rx m" = some s₁ ∧
    updateForwarderIn manyQueues (s₁.mng.comp 0).name (s₁.mng.comp 0).wkType
      ((s₁.mng.comp 0).portInfos s₁.mng.iface .rx) ((s₁.mng.comp 0).portInfos s₁.mng.iface .tx)
      (s₁.path (s₁.mng.comp 0).compId) = .error .undefined ∧
    ¬ Complete manyQueues s₁.mng.iface (s₁.mng.comp 0) (s₁.path (s₁.mng.comp 0).compId) ∧
    handleRequest manyQueues s (.plain "port add phy:1nq31 rx m") = none := by
  obtain ⟨h, s, hrun, hmap, hs⟩ := exists_run_of_requests manyQueues (mergeQueues 31)
    (fun s => (firstStep manyQueues s "port add phy:1nq31 rx m").any (fun s₁ =>
      (s₁.mng.comp 0).wkType = .mrg ∧ ((s₁.mng.comp 0).ports .rx).length = 33) ∧
      (handleRequest manyQueues s (.plain "port add phy:1nq31 rx m")).isNone)
    (by decide +kernel)
  obtain ⟨hs, hundef⟩ := hs
  obtain ⟨s₁, hstep, hs₁⟩ := (Option.any_eq_true _ _).mp hs
  obtain ⟨htype, hrx⟩ := of_decide_eq_true hs₁
  have hne : (s₁.mng.comp 0).wkType ≠ .cls := by rw [htype]; decide
  have hover : updateForwarderIn manyQueues (s₁.mng.comp 0).name (s₁.mng.comp 0).wkType
      ((s₁.mng.comp 0).portInfos s₁.mng.iface .rx) ((s₁.mng.comp 0).portInfos s₁.mng.iface .tx)
      (s₁.path (s₁.mng.comp 0).compId) = .error .undefined := by
    have hmany : ¬ max ((s₁.mng.comp 0).ports .rx).length ((s₁.mng.comp 0).ports .tx).length ≤
        manyQueues.maxEthports := by
      rw [hrx]
      exact not_le_of_gt (lt_max_of_lt_left (by decide))
    rw [updateForwarderIn_eq (((countable_of_run rfl hrun).firstStep rfl hstep).count 0) hne,
      if_neg hmany]
  refine ⟨h, s, s₁, hrun, hmap, hstep, hover, ?_, Option.isNone_iff_eq_none.mp hundef⟩
  rintro ⟨g', hg', -⟩
  rw [hover] at hg'
  cases hg'

end SoftPatchPanel.Vf
