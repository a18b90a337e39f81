import SoftPatchPanel.Worker.CmdUtils
import SoftPatchPanel.Worker.PortCapability

/-!
# When the port attributes are safe and exact

The life of the capability tables is a sequence of flushes: the command thread
calls `sppwk_update_port_dir` for a component and some worker then swaps, at least
once.  Between flushes every ethdev is *settled*, its two indices differ, and a
further swap changes nothing (`swapRef_mng_of_settled`).  That much holds
whatever the components are, because a swap moves every `ref_index` away from its
`upd_index` no matter how the entry came to be pending.

What does depend on the component is the flush itself.  The first write to an
ethdev goes to the free side and makes the indices equal; a second write to the
same ethdev in the same flush therefore goes to the side that is being read, and
the swap then brings back the first.  And every flush lengthens the pending lists
for good.
-/

namespace SoftPatchPanel.Worker

open Transition
open PortCapability (swapRef swapLoop swapUpd getPortAttrs)

variable {d d' : PortDir} {pc pc' : PortCapability}

/-! ## One write -/

@[simp] theorem PortMngInfo.mng_setMng (p : PortMngInfo) (dir : PortDir)
    (c : PortCapablMngInfo) : (p.setMng dir c).mng dir = c := by
  cases dir <;> rfl

theorem updatePortAttrs_mng (dir : PortDir) (pc : PortCapability) (port : PortInfo) (id : ℕ) :
    (updatePortAttrs dir pc port).mng id dir =
      if id = port.ethdev then
        { refIndex := (pc.mng id dir).refIndex
          updIndex := (pc.mng id dir).refIndex
          portAttrs := Function.update (pc.mng id dir).portAttrs (pc.mng id dir).updIndex
            (port.attrsOf dir) }
      else pc.mng id dir := by
  by_cases h : id = port.ethdev
  · subst h
    cases dir <;> simp [updatePortAttrs, swapUpd, PortCapability.mng,
      PortMngInfo.mng, PortMngInfo.setMng]
  · cases dir <;> simp [updatePortAttrs, swapUpd, PortCapability.mng, h]

theorem PortMngInfo.mng_setMng_opposite (p : PortMngInfo) (c : PortCapablMngInfo)
    (h : d.Opposite d') : (p.setMng d c).mng d' = p.mng d' := by
  rcases h with ⟨rfl, rfl⟩ | ⟨rfl, rfl⟩ <;> rfl

theorem updatePortAttrs_mng_opposite (h : d.Opposite d') (pc : PortCapability) (port : PortInfo)
    (id : ℕ) : (updatePortAttrs d pc port).mng id d' = pc.mng id d' := by
  by_cases hid : id = port.ethdev
  · subst hid
    rcases h with ⟨rfl, rfl⟩ | ⟨rfl, rfl⟩ <;> simp [updatePortAttrs, swapUpd,
      PortCapability.mng, PortMngInfo.mng, PortMngInfo.setMng]
  · rcases h with ⟨rfl, rfl⟩ | ⟨rfl, rfl⟩ <;> simp [updatePortAttrs, swapUpd,
      PortCapability.mng, hid]

@[simp] theorem updatePortAttrs_pending (dir : PortDir) (pc : PortCapability) (port : PortInfo) :
    (updatePortAttrs dir pc port).pending dir = pc.pending dir ++ [port.ethdev] := by
  cases dir <;> rfl

/-! ## The writes of one direction -/

/-- The writes of one direction, from the first to the last. -/
def writePorts (dir : PortDir) (ports : List PortInfo) (pc : PortCapability) : PortCapability :=
  ports.foldl (updatePortAttrs dir) pc

/-- No write of the direction goes to the side that is being read. -/
def WritesUnread (dir : PortDir) : List PortInfo → PortCapability → Prop
  | [], _ => True
  | port :: rest, pc =>
    (pc.mng port.ethdev dir).updIndex ≠ (pc.mng port.ethdev dir).refIndex ∧
      WritesUnread dir rest (updatePortAttrs dir pc port)

theorem writePorts_pending (dir : PortDir) (ports : List PortInfo) (pc : PortCapability) :
    (writePorts dir ports pc).pending dir = pc.pending dir ++ ports.map PortInfo.ethdev := by
  induction ports generalizing pc with
  | nil => simp [writePorts]
  | cons port ports ih =>
    have h := ih (updatePortAttrs dir pc port)
    rw [updatePortAttrs_pending] at h
    simpa [writePorts] using h

variable {dir : PortDir}

/-- The writes of a direction read nothing of the other. -/
theorem writePorts_mng_congr (ports : List PortInfo)
    (h : ∀ id, pc.mng id dir = pc'.mng id dir) (id : ℕ) :
    (writePorts dir ports pc).mng id dir = (writePorts dir ports pc').mng id dir := by
  induction ports generalizing pc pc' with
  | nil => exact h id
  | cons port ports ih =>
    refine ih (fun i => ?_)
    rw [updatePortAttrs_mng, updatePortAttrs_mng, h]

theorem writePorts_mng_opposite (h : d.Opposite d') (ports : List PortInfo) (pc : PortCapability)
    (id : ℕ) : (writePorts d ports pc).mng id d' = pc.mng id d' := by
  induction ports generalizing pc with
  | nil => rfl
  | cons port ports ih =>
    exact (ih (updatePortAttrs d pc port)).trans (updatePortAttrs_mng_opposite h pc port id)

theorem writePorts_pending_opposite (h : d.Opposite d') (ports : List PortInfo)
    (pc : PortCapability) : (writePorts d ports pc).pending d' = pc.pending d' := by
  induction ports generalizing pc with
  | nil => rfl
  | cons port ports ih =>
    refine (ih (updatePortAttrs d pc port)).trans ?_
    rcases h with ⟨rfl, rfl⟩ | ⟨rfl, rfl⟩ <;> rfl

/-- An ethdev that is not written keeps its data. -/
theorem writePorts_mng_of_notMem (dir : PortDir) {ports : List PortInfo} (pc : PortCapability)
    {id : ℕ} (h : id ∉ ports.map PortInfo.ethdev) :
    (writePorts dir ports pc).mng id dir = pc.mng id dir := by
  induction ports generalizing pc with
  | nil => rfl
  | cons port ports ih =>
    rw [List.map_cons, List.mem_cons, not_or] at h
    have hih := ih (updatePortAttrs dir pc port) h.2
    rwa [updatePortAttrs_mng, if_neg h.1] at hih

/-- An ethdev that is written once has the new attributes on the side that was
free, and waits for the swap. -/
theorem writePorts_mng_of_nodup (dir : PortDir) {ports : List PortInfo} (pc : PortCapability)
    (hnd : (ports.map PortInfo.ethdev).Nodup) {port : PortInfo} (hmem : port ∈ ports) :
    (writePorts dir ports pc).mng port.ethdev dir =
      { refIndex := (pc.mng port.ethdev dir).refIndex
        updIndex := (pc.mng port.ethdev dir).refIndex
        portAttrs := Function.update (pc.mng port.ethdev dir).portAttrs
          (pc.mng port.ethdev dir).updIndex (port.attrsOf dir) } := by
  induction ports generalizing pc with
  | nil => exact absurd hmem (by simp)
  | cons first ports ih =>
    rw [List.map_cons, List.nodup_cons] at hnd
    rcases List.mem_cons.mp hmem with rfl | hmem
    · have h := writePorts_mng_of_notMem dir (updatePortAttrs dir pc port) hnd.1
      rwa [updatePortAttrs_mng, if_pos rfl] at h
    have hne : port.ethdev ≠ first.ethdev := by
      intro heq
      exact hnd.1 (heq ▸ List.mem_map_of_mem hmem)
    have h := ih (updatePortAttrs dir pc first) hnd.2 hmem
    rwa [updatePortAttrs_mng, if_neg hne] at h

/-- **The writes of a direction avoid the side being read exactly when they go to
different ethdevs.** -/
theorem writesUnread_iff (dir : PortDir) (ports : List PortInfo) (pc : PortCapability) :
    WritesUnread dir ports pc ↔ (ports.map PortInfo.ethdev).Nodup ∧
      ∀ port ∈ ports, (pc.mng port.ethdev dir).updIndex ≠ (pc.mng port.ethdev dir).refIndex := by
  induction ports generalizing pc with
  | nil => simp [WritesUnread]
  | cons first ports ih =>
    rw [WritesUnread, ih, List.map_cons, List.nodup_cons, List.forall_mem_cons]
    -- the write to `first` makes its indices equal and leaves the others alone
    have hstep : (∀ port ∈ ports,
        ((updatePortAttrs dir pc first).mng port.ethdev dir).updIndex ≠
          ((updatePortAttrs dir pc first).mng port.ethdev dir).refIndex) ↔
        first.ethdev ∉ ports.map PortInfo.ethdev ∧
          ∀ port ∈ ports, (pc.mng port.ethdev dir).updIndex ≠ (pc.mng port.ethdev dir).refIndex := by
      constructor
      · intro h
        constructor
        · intro hin
          obtain ⟨port, hport, heq⟩ := List.mem_map.mp hin
          have hp := h port hport
          rw [updatePortAttrs_mng, if_pos heq] at hp
          exact hp rfl
        intro port hport
        have hp := h port hport
        rw [updatePortAttrs_mng] at hp
        split at hp
        · exact absurd rfl hp
        · exact hp
      · rintro ⟨hnotin, h⟩ port hport
        rw [updatePortAttrs_mng, if_neg]
        · exact h port hport
        · intro heq
          exact hnotin (heq ▸ List.mem_map_of_mem hport)
    rw [hstep]
    tauto

/-! ## The swap -/

theorem swapLoop_mng (dir : PortDir) (list : List ℕ) (info : ℕ → PortMngInfo) (id : ℕ) :
    (swapLoop dir list info id).mng dir =
      if id ∈ list then ((info id).mng dir).swap else (info id).mng dir := by
  induction list generalizing info with
  | nil => simp [swapLoop]
  | cons first list ih =>
    have h := ih (Function.update info first ((info first).setMng dir ((info first).mng dir).swap))
    rw [show swapLoop dir (first :: list) info = swapLoop dir list
      (Function.update info first ((info first).setMng dir ((info first).mng dir).swap)) from rfl, h]
    by_cases heq : id = first
    · subst heq
      simp [PortCapablMngInfo.swap]
    · simp [heq]

theorem swapLoop_opposite (h : d.Opposite d') (list : List ℕ) (info : ℕ → PortMngInfo) (id : ℕ) :
    (swapLoop d list info id).mng d' = (info id).mng d' := by
  induction list generalizing info with
  | nil => rfl
  | cons first list ih =>
    refine (ih _).trans ?_
    by_cases heq : id = first
    · subst heq
      simp [PortMngInfo.mng_setMng_opposite _ _ h]
    · simp [heq]

/-- A swap reaches exactly the ethdevs on the pending list. -/
theorem swapRef_mng (pc : PortCapability) (id : ℕ) (dir : PortDir) (hdir : dir = .rx ∨ dir = .tx) :
    pc.swapRef.mng id dir =
      if id ∈ pc.pending dir then (pc.mng id dir).swap else pc.mng id dir := by
  rcases hdir with rfl | rfl
  · have h := swapLoop_mng .rx pc.rxList pc.info id
    exact (swapLoop_opposite (.inr ⟨rfl, rfl⟩) pc.txList _ id).trans h
  have h := swapLoop_mng .tx pc.txList (swapLoop .rx pc.rxList pc.info) id
  have htx : (swapLoop .rx pc.rxList pc.info id).mng .tx = pc.mng id .tx :=
    swapLoop_opposite (.inl ⟨rfl, rfl⟩) pc.rxList pc.info id
  rwa [htx] at h

/-! ## Flushes -/

/-- The two indices of every ethdev differ: nothing waits for a swap. -/
def PortCapability.Settled (pc : PortCapability) : Prop :=
  ∀ id dir, dir = .rx ∨ dir = .tx → (pc.mng id dir).refIndex ≠ (pc.mng id dir).updIndex

/-- `sppwk_update_port_dir` for a component, and how many swaps beyond the first
follow it. -/
structure Flush where
  iface : PortRef → PortInfo
  comp : CompInfo
  more : ℕ

/-- The ports that a flush writes in a direction. -/
def Flush.ports (e : Flush) (dir : PortDir) : List PortInfo := e.comp.portInfos e.iface dir

/-- One flush.  The lists are let grow: whether they stay inside their arrays is a part of
what is to be shown here. -/
def flushStep (P : Platform) (pc : PortCapability) (e : Flush) : Option PortCapability :=
  if ethdevsInRange P e.iface e.comp then
    some (PortCapability.swapRef^[e.more + 1] (updatePortDir e.iface e.comp pc))
  else none

/-- The capability tables from `sppwk_port_capability_init` on. -/
def capabilitySystem (P : Platform) : System PortCapability Flush :=
  ofStep PortCapability.init (flushStep P)

variable {P : Platform} {e : Flush}

theorem flushStep_eq_some (h : flushStep P pc e = some pc') :
    pc' = swapRef^[e.more + 1] (updatePortDir e.iface e.comp pc) := by
  unfold flushStep at h
  split at h
  · cases h
    rfl
  · cases h

theorem updatePortDir_eq (e : Flush) (pc : PortCapability) :
    updatePortDir e.iface e.comp pc =
      writePorts .tx (e.ports .tx) (writePorts .rx (e.ports .rx) pc) := rfl

/-- Each direction sees only its own writes. -/
theorem updatePortDir_mng (e : Flush) (pc : PortCapability) (id : ℕ) (dir : PortDir)
    (hdir : dir = .rx ∨ dir = .tx) :
    (updatePortDir e.iface e.comp pc).mng id dir = (writePorts dir (e.ports dir) pc).mng id dir := by
  rcases hdir with rfl | rfl
  · rw [updatePortDir_eq, writePorts_mng_opposite (.inr ⟨rfl, rfl⟩)]
  · exact writePorts_mng_congr _ (writePorts_mng_opposite (.inl ⟨rfl, rfl⟩) _ pc) id

theorem updatePortDir_pending (e : Flush) (pc : PortCapability) (dir : PortDir)
    (hdir : dir = .rx ∨ dir = .tx) :
    (updatePortDir e.iface e.comp pc).pending dir =
      pc.pending dir ++ (e.ports dir).map PortInfo.ethdev := by
  rcases hdir with rfl | rfl
  · rw [updatePortDir_eq, writePorts_pending_opposite (.inr ⟨rfl, rfl⟩)]
    exact writePorts_pending .rx (e.ports .rx) pc
  · have h := writePorts_pending .tx (e.ports .tx) (writePorts .rx (e.ports .rx) pc)
    rwa [writePorts_pending_opposite (.inl ⟨rfl, rfl⟩)] at h

theorem length_pending_updatePortDir (iface : PortRef → PortInfo) (comp : CompInfo)
    (pc : PortCapability) {dir : PortDir} (hdir : dir = .rx ∨ dir = .tx) :
    ((updatePortDir iface comp pc).pending dir).length =
      (pc.pending dir).length + (comp.ports dir).length := by
  rw [updatePortDir_pending ⟨iface, comp, 0⟩ pc dir hdir, List.length_append, List.length_map]
  exact congrArg _ (List.length_map _)

/-- **What `sppwk_update_port_dir` needs**: ethdev ids in range, and a place in the list of
its direction for every port. -/
theorem sppwkUpdatePortDir_eq_ok {iface : PortRef → PortInfo} {comp : CompInfo} :
    sppwkUpdatePortDir P iface comp pc = .ok pc' ↔
      (ethdevsInRange P iface comp = true ∧ ∀ dir, dir = .rx ∨ dir = .tx →
        (pc.pending dir).length + (comp.ports dir).length ≤ P.maxEthports) ∧
      pc' = updatePortDir iface comp pc := by
  have hlen {dir : PortDir} (hdir : dir = .rx ∨ dir = .tx) :=
    length_pending_updatePortDir iface comp pc hdir
  have hfit : (updatePortDir iface comp pc).listsFit P = true ↔ ∀ dir, dir = .rx ∨ dir = .tx →
      (pc.pending dir).length + (comp.ports dir).length ≤ P.maxEthports := by
    rw [PortCapability.listsFit, decide_eq_true_eq]
    constructor
    · rintro ⟨hrx, htx⟩ dir (rfl | rfl)
      · exact hlen (.inl rfl) ▸ hrx
      · exact hlen (.inr rfl) ▸ htx
    · exact fun h => ⟨(hlen (.inl rfl)).trans_le (h .rx (.inl rfl)),
        (hlen (.inr rfl)).trans_le (h .tx (.inr rfl))⟩
  rw [← hfit, sppwkUpdatePortDir]
  split
  · rename_i h
    exact ⟨fun heq => ⟨h, (Except.ok.inj heq).symm⟩, fun heq => congrArg Except.ok heq.2.symm⟩
  · rename_i h
    exact ⟨nofun, fun heq => absurd heq.1 h⟩

/-- The first swap after the writes settles every ethdev. -/
theorem settled_swapRef (hpc : pc.Settled) : (updatePortDir e.iface e.comp pc).swapRef.Settled := by
  intro id dir hdir
  have hsucc : ∀ s : Side, s + 1 ≠ s := by decide
  rw [swapRef_mng _ id dir hdir]
  split
  · exact hsucc _
  rename_i hnot
  rw [updatePortDir_pending e pc dir hdir, List.mem_append, not_or] at hnot
  rw [updatePortDir_mng e pc id dir hdir, writePorts_mng_of_notMem dir pc hnot.2]
  exact hpc id dir hdir

/-- Once everything is settled, further swaps change nothing that is read. -/
theorem swapRef_mng_of_settled (hpc : pc.Settled) (id : ℕ) (dir : PortDir)
    (hdir : dir = .rx ∨ dir = .tx) : pc.swapRef.mng id dir = pc.mng id dir := by
  rw [swapRef_mng pc id dir hdir]
  split
  · have hne : ∀ r u : Side, r ≠ u → u + 1 = r := by decide
    rw [PortCapablMngInfo.swap, hne _ _ (hpc id dir hdir)]
  · rfl

theorem iterate_swapRef_mng (hpc : pc.Settled) (n : ℕ) :
    (swapRef^[n] pc).Settled ∧ ∀ id dir, dir = .rx ∨ dir = .tx →
      (swapRef^[n] pc).mng id dir = pc.mng id dir := by
  induction n with
  | zero => exact ⟨hpc, fun _ _ _ => rfl⟩
  | succ n ih =>
    rw [Function.iterate_succ_apply']
    have heq := fun id dir hdir =>
      (swapRef_mng_of_settled ih.1 id dir hdir).trans (ih.2 id dir hdir)
    refine ⟨fun id dir hdir => ?_, heq⟩
    rw [heq id dir hdir]
    exact hpc id dir hdir

theorem iterate_swapRef_length (pc : PortCapability) (n : ℕ) :
    (swapRef^[n] pc).rxList.length = pc.rxList.length ∧
      (swapRef^[n] pc).txList.length = pc.txList.length := by
  induction n with
  | zero => exact ⟨rfl, rfl⟩
  | succ n ih =>
    rw [Function.iterate_succ_apply']
    simpa [swapRef] using ih

/-- A flush of settled tables, as one swap. -/
theorem flushStep_mng (hpc : pc.Settled)
    (h : flushStep P pc e = some pc') (id : ℕ) (dir : PortDir) (hdir : dir = .rx ∨ dir = .tx) :
    pc'.mng id dir = (updatePortDir e.iface e.comp pc).swapRef.mng id dir := by
  rw [flushStep_eq_some h, Function.iterate_succ_apply]
  exact (iterate_swapRef_mng (settled_swapRef hpc) e.more).2 id dir hdir

/-- A step keeps the tables settled. -/
theorem settled_flushStep (hpc : pc.Settled) (h : flushStep P pc e = some pc') : pc'.Settled := by
  intro id dir hdir
  rw [flushStep_mng hpc h id dir hdir]
  exact settled_swapRef hpc id dir hdir

/-- Every run leaves the tables settled. -/
theorem settled_of_run {h : List (PortCapability × Flush)}
    (hrun : Run (capabilitySystem P) h pc) : pc.Settled := by
  refine hrun.invariant (G := fun _ _ => True) ?_ ?_ (fun _ _ => trivial)
  · rintro _ rfl id dir (rfl | rfl) <;> exact (by decide : (0 : Side) ≠ 1)
  · intro s e s' hs _ hstep
    exact settled_flushStep hs hstep

/-! ## Safety and exactness -/

/-- The port written last to an ethdev in a direction. -/
def Flush.lastWritten (e : Flush) (dir : PortDir) (id : ℕ) : Option PortInfo :=
  (e.ports dir).reverse.find? (·.ethdev = id)

/-- What a flush is meant to do. -/
structure FlushSound (P : Platform) (pc : PortCapability) (e : Flush) (pc' : PortCapability) :
    Prop where
  /-- No write goes to the side that is being read. -/
  unread : WritesUnread .rx (e.ports .rx) pc ∧
    WritesUnread .tx (e.ports .tx) (writePorts .rx (e.ports .rx) pc)
  /-- The pending lists stay inside their arrays. -/
  room : pc'.rxList.length ≤ P.maxEthports ∧ pc'.txList.length ≤ P.maxEthports
  /-- What has been written last is read, and everything else is as before. -/
  current : ∀ id dir, dir = .rx ∨ dir = .tx → pc'.getPortAttrs id dir =
    match e.lastWritten dir id with
    | some port => port.attrsOf dir
    | none => pc.getPortAttrs id dir

/-- The component's ports are on different ethdevs in each direction, and the
pending lists have room for them. -/
structure FlushFits (P : Platform) (pc : PortCapability) (e : Flush) : Prop where
  rx_nodup : ((e.ports .rx).map PortInfo.ethdev).Nodup
  tx_nodup : ((e.ports .tx).map PortInfo.ethdev).Nodup
  rx_room : pc.rxList.length + (e.ports .rx).length ≤ P.maxEthports
  tx_room : pc.txList.length + (e.ports .tx).length ≤ P.maxEthports

theorem flushStep_length (h : flushStep P pc e = some pc') :
    pc'.rxList.length = pc.rxList.length + (e.ports .rx).length ∧
      pc'.txList.length = pc.txList.length + (e.ports .tx).length := by
  have hlen := iterate_swapRef_length (updatePortDir e.iface e.comp pc) (e.more + 1)
  rw [← flushStep_eq_some h] at hlen
  have hrx := congrArg List.length (updatePortDir_pending e pc .rx (.inl rfl))
  have htx := congrArg List.length (updatePortDir_pending e pc .tx (.inr rfl))
  rw [List.length_append, List.length_map] at hrx htx
  exact ⟨hlen.1.trans hrx, hlen.2.trans htx⟩

/-- With different ethdevs, what a flush writes is what is read afterwards. -/
theorem getPortAttrs_flushStep (hpc : pc.Settled) (h : flushStep P pc e = some pc')
    (hdir : dir = .rx ∨ dir = .tx) (hnd : ((e.ports dir).map PortInfo.ethdev).Nodup) (id : ℕ) :
    pc'.getPortAttrs id dir =
      match e.lastWritten dir id with
      | some port => port.attrsOf dir
      | none => pc.getPortAttrs id dir := by
  have hmng := flushStep_mng hpc h id dir hdir
  rw [swapRef_mng _ id dir hdir, updatePortDir_pending e pc dir hdir,
    updatePortDir_mng e pc id dir hdir] at hmng
  split
  · rename_i port hport
    have hmem : port ∈ e.ports dir := List.mem_reverse.mp (List.mem_of_find?_eq_some hport)
    have hid : port.ethdev = id := by simpa using List.find?_some hport
    subst hid
    rw [if_pos (List.mem_append_right _ (List.mem_map_of_mem hmem)),
      writePorts_mng_of_nodup dir pc hnd hmem] at hmng
    have hne : ∀ r u : Side, r ≠ u → r + 1 = u := by decide
    rw [getPortAttrs, hmng]
    simp only [PortCapablMngInfo.swap]
    rw [hne _ _ (hpc port.ethdev dir hdir), Function.update_self]
  rename_i hnone
  have hnot : id ∉ (e.ports dir).map PortInfo.ethdev := by
    intro hin
    obtain ⟨port, hport, heq⟩ := List.mem_map.mp hin
    have hall := List.find?_eq_none.mp hnone port (List.mem_reverse.mpr hport)
    exact hall (by simpa using heq)
  rw [writePorts_mng_of_notMem dir pc hnot] at hmng
  have hsame : pc'.mng id dir = pc.mng id dir := by
    rw [hmng]
    split
    · -- a stale entry of the list: the ethdev is settled, so the swap is void
      have hne : ∀ r u : Side, r ≠ u → u + 1 = r := by decide
      rw [PortCapablMngInfo.swap, hne _ _ (hpc id dir hdir)]
    · rfl
  rw [getPortAttrs, getPortAttrs, hsame]

/-- **When the port attributes are safe and exact.**  In every state that flushes
lead to, a flush is sound exactly when it fits. -/
theorem flush_sound_iff (P : Platform) {h : List (PortCapability × Flush)}
    {pc pc' : PortCapability} {e : Flush} (hrun : Run (capabilitySystem P) h pc)
    (hstep : flushStep P pc e = some pc') : FlushSound P pc e pc' ↔ FlushFits P pc e := by
  have hpc := settled_of_run hrun
  obtain ⟨hrx, htx⟩ := flushStep_length hstep
  constructor
  · intro hs
    have hunrx := (writesUnread_iff _ _ _).mp hs.unread.1
    have huntx := (writesUnread_iff _ _ _).mp hs.unread.2
    have hroom := hs.room
    exact ⟨hunrx.1, huntx.1, hrx ▸ hroom.1, htx ▸ hroom.2⟩
  · intro hf
    refine ⟨⟨?_, ?_⟩, ⟨hrx ▸ hf.rx_room, htx ▸ hf.tx_room⟩, ?_⟩
    · rw [writesUnread_iff]
      exact ⟨hf.rx_nodup, fun port _ => (hpc port.ethdev .rx (.inl rfl)).symm⟩
    · rw [writesUnread_iff]
      refine ⟨hf.tx_nodup, fun port _ => ?_⟩
      rw [writePorts_mng_opposite (.inl ⟨rfl, rfl⟩)]
      exact (hpc port.ethdev .tx (.inr rfl)).symm
    · rintro id dir (rfl | rfl)
      · exact getPortAttrs_flushStep hpc hstep (.inl rfl) hf.rx_nodup id
      · exact getPortAttrs_flushStep hpc hstep (.inr rfl) hf.tx_nodup id

/-- A merger that reads the given queues of physical port 1, as the port is found at
start-up. -/
def readQueues (queues : List ℕ) : Flush where
  iface := initHostPortInfo (.sample .vf) initPortInfo
  comp := { CompInfo.zero with
    name := "mrg"
    wkType := .mrg
    nofRx := queues.length
    rxPorts := fun i => queues[i]?.map (PortRef.phy 1) }
  more := 0

theorem flush_sound_iff_readQueues :
    ∃ pc', flushStep (.sample .vf) PortCapability.init (readQueues [0]) = some pc' ∧
      (FlushSound (.sample .vf) PortCapability.init (readQueues [0]) pc' ↔
        FlushFits (.sample .vf) PortCapability.init (readQueues [0])) :=
  ⟨_, rfl, flush_sound_iff (.sample .vf) (.start rfl) rfl⟩

/-- A component with one port can be flushed any number of times, and every flush
makes the pending list longer. -/
theorem exists_run_rxList_length (n : ℕ) :
    ∃ h pc, Run (capabilitySystem (.sample .vf)) h pc ∧ pc.rxList.length = n := by
  induction n with
  | zero => exact ⟨[], PortCapability.init, .start rfl, rfl⟩
  | succ n ih =>
    obtain ⟨h, pc, hrun, hlen⟩ := ih
    have hstep : flushStep (.sample .vf) pc (readQueues [0]) =
        some (updatePortDir (readQueues [0]).iface (readQueues [0]).comp pc).swapRef := rfl
    refine ⟨_, _, hrun.snoc hstep, ?_⟩
    rw [(flushStep_length hstep).1, hlen]
    rfl

/-- **Neither condition is ensured.**  Two queues of one physical port in one
component: the second write goes to the side being read.  One port, flushed once
more than there are ethdevs: the pending list outgrows its array. -/
theorem flush_not_sound :
    (∃ pc', flushStep (.sample .vf) PortCapability.init (readQueues [0, 1]) = some pc' ∧
      ¬ WritesUnread .rx ((readQueues [0, 1]).ports .rx) PortCapability.init ∧
      ¬ FlushSound (.sample .vf) PortCapability.init (readQueues [0, 1]) pc') ∧
    ∃ h pc pc', Run (capabilitySystem (.sample .vf)) h pc ∧
      flushStep (.sample .vf) pc (readQueues [0]) = some pc' ∧
      (Platform.sample .vf).maxEthports < pc'.rxList.length ∧
      ¬ FlushSound (.sample .vf) pc (readQueues [0]) pc' := by
  constructor
  · have hread : ¬ WritesUnread .rx ((readQueues [0, 1]).ports .rx) PortCapability.init := by
      rw [writesUnread_iff]
      rintro ⟨hnd, -⟩
      exact absurd hnd (by decide)
    exact ⟨_, rfl, hread, fun hs => hread hs.unread.1⟩
  · obtain ⟨h, pc, hrun, hlen⟩ := exists_run_rxList_length 32
    have hstep : flushStep (.sample .vf) pc (readQueues [0]) =
        some (updatePortDir (readQueues [0]).iface (readQueues [0]).comp pc).swapRef := rfl
    have hover : (Platform.sample .vf).maxEthports <
        (updatePortDir (readQueues [0]).iface (readQueues [0]).comp pc).swapRef.rxList.length := by
      rw [(flushStep_length hstep).1, hlen]
      decide
    exact ⟨h, pc, _, hrun, hstep, hover, fun hs => absurd hs.room.1 (by omega)⟩

end SoftPatchPanel.Worker
