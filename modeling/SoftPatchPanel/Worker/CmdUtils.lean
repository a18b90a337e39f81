import Mathlib.Data.List.ReduceOption
import SoftPatchPanel.Worker.DataTypes

/-!
# `cmd_utils.c`: the management data and the loops over it

The lookups by name, by type and by port; the two deletions that close gaps in
arrays; the start-up of the tables; and the two halves of a flush that work on
the management data alone, `update_port_info` and `update_lcore_info`.

`update_lcore_info` hands a changed lcore over to its worker: it asks for the swap
by making `upd_index` equal to `ref_index`, waits for the worker to move
`ref_index` away, and copies the new reference side back.  The worker's half of
that exchange is the index test at the head of `slave_main`'s loop.  Here the
exchange is taken as completed for every lcore that has a worker; a changed lcore
without one is a wait without end, `Fault.blocked`.
-/

namespace SoftPatchPanel.Worker

open CountedArray
open Function (update update_self update_of_ne)

variable (P : Platform) {m : MngData} {i : ℕ} {port r : PortRef} {dir : PortDir}

/-! ## Places in the interface table -/

/-- `get_sppwk_port`.  A type without a table gives the null pointer; an index
outside its table is outside the language. -/
def getSppwkPort (ifaceType : PortType) (ifaceNo queueNo : ℤ) : Except Fault (Option PortRef) :=
  match ifaceType with
  | .phy =>
    if (0 ≤ ifaceNo ∧ ifaceNo < P.maxEthports) ∧ 0 ≤ queueNo ∧ queueNo < P.maxQueuesPerPort then
      .ok (some (.phy ifaceNo.toNat queueNo.toNat))
    else .error .undefined
  | .vhost =>
    if 0 ≤ ifaceNo ∧ ifaceNo < P.maxEthports then .ok (some (.vhost ifaceNo.toNat))
    else .error .undefined
  | .ring =>
    if 0 ≤ ifaceNo ∧ ifaceNo < P.maxEthports then .ok (some (.ring ifaceNo.toNat))
    else .error .undefined
  | _ => .ok none

/-- `get_port_max_queues`.  `none` is `SPPWK_RET_NG`.  The bound is tested with
`>`, so the number just past the end of `queue_info` gets through to it. -/
def getPortMaxQueues (ifaceType : PortType) (ifaceNo : ℤ) : Except Fault (Option ℕ) :=
  if ifaceNo > P.maxEthports ∨ ifaceNo < 0 then .ok none
  else if ifaceType ≠ .phy then .ok (some 1)
  else if ifaceNo < P.maxEthports then
    let q := P.queueInfo ifaceNo.toNat
    .ok (some (if q.rxq > q.txq then q.rxq else q.txq))
  else .error .undefined

/-! ## Lookups in the component table -/

/-- `sppwk_get_lcore_id`: the first slot with the name.  The empty name is
nobody's. -/
def sppwkGetLcoreId (m : MngData) (compName : CString) : Option ℕ :=
  if compName = [] then none
  else (List.range P.maxLcore).find? fun cnt => (m.comp cnt).name = compName

/-- `get_free_lcore_id`: the first slot whose type is none. -/
def getFreeLcoreId (m : MngData) : Option ℕ :=
  (List.range P.maxLcore).find? fun cnt => (m.comp cnt).wkType = .none

/-- The array that `sppwk_check_used_port` scans; it scans nothing for a
direction that is neither `rx` nor `tx`. -/
def CompInfo.scanned (c : CompInfo) (dir : PortDir) : List PortRef :=
  match dir with
  | .rx => c.ports .rx
  | .tx => c.ports .tx
  | _ => []

/-- The component, of those with a type, that lists the port in the direction. -/
def usedBy (m : MngData) (port : PortRef) (dir : PortDir) : Option ℕ :=
  (List.range P.maxLcore).find? fun cnt =>
    (m.comp cnt).wkType ≠ .none ∧ port ∈ (m.comp cnt).scanned dir

/-- `sppwk_check_used_port`. -/
def sppwkCheckUsedPort (m : MngData) (ifaceType : PortType) (ifaceNo queueNo : ℤ)
    (dir : PortDir) : Except Fault (Option ℕ) := do
  match ← getSppwkPort P ifaceType ifaceNo queueNo with
  | none => return none
  | some port => return usedBy P m port dir

/-- `set_component_change_port`, for one direction: flag the component that uses
the port. -/
def setComponentChangePort (m : MngData) (port : PortInfo) (dir : PortDir) :
    Except Fault MngData := do
  match ← sppwkCheckUsedPort P m port.ifaceType port.ifaceNo port.queueNo dir with
  | none => return m
  | some id => return { m with changeComp := Function.update m.changeComp id true }

theorem sppwkGetLcoreId_eq_some {name : CString} (h : sppwkGetLcoreId P m name = some i) :
    i < P.maxLcore ∧ (m.comp i).name = name ∧ name ≠ [] := by
  unfold sppwkGetLcoreId at h
  split at h
  · exact absurd h (by simp)
  rename_i hne
  have hmem := List.mem_of_find?_eq_some h
  have hname := List.find?_some h
  exact ⟨List.mem_range.mp hmem, by simpa using hname, hne⟩

theorem getFreeLcoreId_eq_some (h : getFreeLcoreId P m = some i) :
    i < P.maxLcore ∧ (m.comp i).wkType = .none := by
  have hmem := List.mem_of_find?_eq_some h
  have htype := List.find?_some h
  exact ⟨List.mem_range.mp hmem, by simpa using htype⟩

theorem usedBy_eq_none_iff :
    usedBy P m port dir = none ↔
      ∀ i < P.maxLcore, (m.comp i).wkType ≠ .none → port ∉ (m.comp i).scanned dir := by
  simp [usedBy]

theorem usedBy_eq_some (h : usedBy P m port dir = some i) :
    i < P.maxLcore ∧ (m.comp i).wkType ≠ .none ∧ port ∈ (m.comp i).scanned dir := by
  have hmem := List.mem_of_find?_eq_some h
  have hp := List.find?_some h
  rw [decide_eq_true_eq] at hp
  exact ⟨List.mem_range.mp hmem, hp.1, hp.2⟩

/-! ## Deletion -/

/-- `get_idx_port_info`. -/
def getIdxPortInfo (pInfo : PortRef) (nofPorts : ℕ) (ary : ℕ → Option PortRef) : Option ℕ :=
  lastIdx (some pInfo) nofPorts ary

/-- `delete_port_info`. -/
def deletePortInfo (pInfo : PortRef) (nofPorts : ℕ) (ary : ℕ → Option PortRef) :
    Ret × (ℕ → Option PortRef) :=
  match getIdxPortInfo pInfo nofPorts ary with
  | none => (.ng, ary)
  | some targetIdx =>
    (.ok, Function.update (shiftDown ary targetIdx (nofPorts - 1)) (nofPorts - 1) none)

/-- `del_comp_info`.  The index starts at 0 and not at an invalid value, so an id
that is not there deletes the first entry; it never fails. -/
def delCompInfo (lcoreId : ℕ) (nofComps : ℤ) (compAry : ℕ → ℕ) : Ret × (ℕ → ℕ) :=
  let idx := (lastIdx lcoreId nofComps.toNat compAry).getD 0
  (.ok, Function.update (shiftDown compAry idx (nofComps - 1).toNat)
    (max idx (nofComps - 1).toNat) 0)

/-! ### What a deletion writes -/

section Deletion

variable {α : Type} {before : ℕ → α}

/-- A deletion from an array: what is returned, the array, and the places that are written. -/
structure Deletion (before : ℕ → α) where
  ret : Ret
  ary : ℕ → α
  written : List ℕ
  kept : ∀ j ∉ written, ary j = before j

theorem closeGap_kept (before : ℕ → α) (idx last : ℕ) (zero : α) :
    ∀ j ∉ List.range' idx (last - idx) ++ [max idx last],
      update (shiftDown before idx last) (max idx last) zero j = before j := by
  intro j hj
  rw [List.mem_append, List.mem_range'_1, List.mem_singleton, not_or] at hj
  rw [update_of_ne hj.2, shiftDown_apply, if_neg (by omega)]

/-- The end of both functions: the entries behind the place move up, and the last one, or the
place itself, is cleared. -/
def closeGap (before : ℕ → α) (idx last : ℕ) (zero : α) : Deletion before :=
  ⟨.ok, _, _, closeGap_kept before idx last zero⟩

variable [DecidableEq α]

/-- `del_comp_info`, for entries of any type. -/
def delCompInfoOn (zero lcoreId : α) (nofComps : ℕ) (compAry : ℕ → α) : Deletion compAry :=
  closeGap compAry ((lastIdx lcoreId nofComps compAry).getD 0) (nofComps - 1) zero

/-- `delete_port_info`, for pointers of any type. -/
def deletePortInfoOn (null pInfo : α) (nofPorts : ℕ) (ary : ℕ → α) : Deletion ary :=
  match lastIdx pInfo nofPorts ary with
  | none => ⟨.ng, ary, [], fun _ _ => rfl⟩
  | some targetIdx => closeGap ary targetIdx (nofPorts - 1) null

theorem delCompInfo_eq (lcoreId : ℕ) (nofComps : ℤ) (compAry : ℕ → ℕ) :
    delCompInfo lcoreId nofComps compAry =
      (.ok, (delCompInfoOn 0 lcoreId nofComps.toNat compAry).ary) := by
  have hlast : (nofComps - 1).toNat = nofComps.toNat - 1 := by omega
  rw [delCompInfo, hlast]
  rfl

theorem deletePortInfo_eq (pInfo : PortRef) (nofPorts : ℕ) (ary : ℕ → Option PortRef) :
    deletePortInfo pInfo nofPorts ary =
      ((deletePortInfoOn none (some pInfo) nofPorts ary).ret,
        (deletePortInfoOn none (some pInfo) nofPorts ary).ary) := by
  unfold deletePortInfo deletePortInfoOn getIdxPortInfo
  cases hidx : lastIdx (some pInfo) nofPorts ary with
  | none => rfl
  | some i =>
    have hlt := (lastIdx_eq_some hidx).1
    have hmax : max i (nofPorts - 1) = nofPorts - 1 := by omega
    simp only [closeGap, hmax]

/-- **An exact deletion**: an entry that is there is taken out and the last place is cleared,
without one nothing changes, and no place behind the entries is written. -/
structure Deletion.Exact (d : Deletion before) (zero t : α) (n : ℕ) : Prop where
  present : t ∈ slice n before →
    d.ret = .ok ∧ slice (n - 1) d.ary = (slice n before).erase t ∧ d.ary (n - 1) = zero
  absent : t ∉ slice n before → d.ret = .ng ∧ d.ary = before
  inside : ∀ j ∈ d.written, j < n

theorem exact_closeGap {t : α} {n i : ℕ} (zero : α) (hnd : (slice n before).Nodup)
    (hi : lastIdx t n before = some i) : (closeGap before i (n - 1) zero).Exact zero t n := by
  obtain ⟨hlt, hval, -⟩ := lastIdx_eq_some hi
  obtain ⟨k, rfl⟩ : ∃ k, n = k + 1 := ⟨n - 1, by omega⟩
  have hmax : max i k = k := by omega
  refine ⟨fun _ => ⟨rfl, ?_, ?_⟩, fun h => absurd (mem_slice.mpr ⟨i, hlt, hval⟩) h, fun j hj => ?_⟩
  · show slice k (update (shiftDown before i k) (max i k) zero) = _
    rw [hmax]
    exact slice_delete_of_nodup hnd hi zero
  · show update (shiftDown before i k) (max i k) zero k = zero
    rw [hmax, update_self]
  · have hj : j ∈ List.range' i (k - i) ++ [max i k] := hj
    rw [List.mem_append, List.mem_range'_1, List.mem_singleton] at hj
    omega

/-- **The deletions.**  `delete_port_info` is exact; `del_comp_info` is exact if and only if the
id is there. -/
theorem deletions_exact_iff (lcoreId : ℤ) (nofComps : ℕ) (compAry : ℕ → ℤ)
    (hids : (slice nofComps compAry).Nodup) (pInfo : Option PortRef) (nofPorts : ℕ)
    (ary : ℕ → Option PortRef) (hports : (slice nofPorts ary).Nodup) :
    ((delCompInfoOn 0 lcoreId nofComps compAry).Exact 0 lcoreId nofComps ↔
      lcoreId ∈ slice nofComps compAry) ∧
    (deletePortInfoOn none pInfo nofPorts ary).Exact none pInfo nofPorts := by
  constructor
  · constructor
    · intro h
      by_contra habsent
      cases (h.absent habsent).1
    · intro hmem
      obtain ⟨i, hi⟩ := exists_lastIdx_of_mem hmem
      rw [delCompInfoOn, hi]
      exact exact_closeGap 0 hids hi
  · unfold deletePortInfoOn
    split
    · rename_i hnone
      exact ⟨fun h => absurd h (lastIdx_eq_none_iff.mp hnone), fun _ => ⟨rfl, rfl⟩, nofun⟩
    · rename_i i hi
      exact exact_closeGap none hports hi

theorem deletions_exact_iff_two :
    (delCompInfoOn 0 4 2 fun j => (j : ℤ) + 4).Exact 0 4 2 :=
  (deletions_exact_iff 4 2 (fun j => (j : ℤ) + 4) (by decide) none 0 (fun _ => none)
    (by decide)).1.mpr (by decide)

/-- **An id that is not there.**  The first entry is deleted instead, and of an empty array the
first place is cleared. -/
theorem not_exact_absent :
    (delCompInfoOn 0 9 2 fun j => (j : ℤ) + 4).ret = .ok ∧
    slice 2 (delCompInfoOn 0 9 2 fun j => (j : ℤ) + 4).ary = [5, 0] ∧
    ¬ (delCompInfoOn 0 9 2 fun j => (j : ℤ) + 4).Exact 0 9 2 ∧
    (delCompInfoOn 0 9 0 fun j => (j : ℤ) + 4).written = [0] := by
  refine ⟨rfl, by decide, fun h => ?_, rfl⟩
  cases (h.absent (by decide)).1

end Deletion

/-! ## MAC addresses -/

/-- The loop of `sppwk_convert_mac_str_to_int64` over the tokens that are left.
A token that is no hexadecimal numeral ends the loop with what has been read so
far; a seventh token is `SPPWK_RET_NG`. -/
def convertMacTokens : List CString → ℕ → BitVec 64 → BitVec 64
  | [], _, retMac => retMac
  | tok :: rest, tokenCnt, retMac =>
    if 6 ≤ tokenCnt then -1#64
    else match CString.strtol 16 tok with
      | some (val, []) =>
        convertMacTokens rest (tokenCnt + 1)
          (retMac ||| (BitVec.ofInt 64 (CString.intOfLong val) <<< (tokenCnt * 8)))
      | _ => retMac

/-- `sppwk_convert_mac_str_to_int64`. -/
def sppwkConvertMacStrToInt64 (macaddr : CString) : Except Fault (BitVec 64) :=
  if strLenShort ≤ macaddr.length then .error .undefined
  else .ok (convertMacTokens (CString.tokens ':' macaddr) 0 0#64)

example : sppwkConvertMacStrToInt64 clsDummyAddrStr = .ok clsDummyAddr := by decide

/-! ## Start-up -/

/-- `init_iface_info`, one entry. -/
def initPortInfo (r : PortRef) : PortInfo :=
  let zero : PortInfo :=
    ⟨.undef, 0, -1, defaultQueueId, ⟨0#64, [], ⟨ethVlanIdMax, 0, 0⟩⟩, fun _ => .zero⟩
  match r with
  | .phy no q => { zero with ifaceNo := no, queueNo := q }
  | .vhost no => { zero with ifaceNo := no }
  | .ring no => { zero with ifaceNo := no }

/-- One round of `init_host_port_info`: the number of physical ports seen so far
and the table. -/
def initHostPort (acc : ℕ × (PortRef → PortInfo)) (i : ℕ) : ℕ × (PortRef → PortInfo) :=
  match P.hostDev i with
  | some (.phy, _) =>
    -- physical ports are numbered in the order in which they are found, and that
    -- number is also what is stored as the ethdev id
    (acc.1 + 1, fun r =>
      match r with
      | .phy no q =>
        if no = acc.1 ∧ q < P.maxQueuesPerPort then
          { acc.2 r with ifaceType := .phy, ethdevPortId := acc.1 }
        else acc.2 r
      | _ => acc.2 r)
  | some (.ring, id) =>
    (acc.1, Function.update acc.2 (.ring id)
      { acc.2 (.ring id) with ifaceType := .ring, ethdevPortId := id })
  | _ => acc

/-- `init_host_port_info`. -/
def initHostPortInfo (iface : PortRef → PortInfo) : PortRef → PortInfo :=
  ((List.range P.maxEthports).foldl (initHostPort P) (0, iface)).2

/-- The type of the ports in a part of the interface table. -/
def PortRef.portType : PortRef → PortType
  | .phy _ _ => .phy
  | .vhost _ => .vhost
  | .ring _ => .ring

/-- How a place in the interface table is called in requests and replies. -/
def PortRef.portIdx : PortRef → PortIdx
  | .phy no q => ⟨.phy, no, q⟩
  | .vhost no => ⟨.vhost, no, defaultQueueId⟩
  | .ring no => ⟨.ring, no, defaultQueueId⟩

/-- The place of a port tells what it was looked up by. -/
theorem getSppwkPort_eq_some {P : Platform} {t : PortType} {no q : ℤ}
    (h : getSppwkPort P t no q = .ok (some r)) :
    t = r.portIdx.ifaceType ∧ no = r.portIdx.ifaceNo ∧ (t = .phy → q = r.portIdx.queueNo) ∧
      (0 ≤ no ∧ no < P.maxEthports) ∧ (t = .phy → 0 ≤ q ∧ q < P.maxQueuesPerPort) := by
  unfold getSppwkPort at h
  split at h
  all_goals try split at h
  all_goals cases h
  · rename_i hb
    exact ⟨rfl, (Int.toNat_of_nonneg hb.1.1).symm, fun _ => (Int.toNat_of_nonneg hb.2.1).symm,
      hb.1, fun _ => hb.2⟩
  all_goals
    rename_i hb
    exact ⟨rfl, (Int.toNat_of_nonneg hb.1).symm, nofun, hb, nofun⟩

/-- An entry with nothing but its type, which is that of its part of the table, and
its ethdev id changed. -/
def PortInfo.TypedFrom (r : PortRef) (p q : PortInfo) : Prop :=
  ∃ t id, q = { p with ifaceType := t, ethdevPortId := id } ∧ (t = p.ifaceType ∨ t = r.portType)

theorem PortInfo.TypedFrom.trans {p q q' : PortInfo} (h : TypedFrom r p q)
    (h' : TypedFrom r q q') : TypedFrom r p q' := by
  obtain ⟨t, id, rfl, ht⟩ := h
  obtain ⟨t', id', rfl, ht'⟩ := h'
  refine ⟨t', id', rfl, ?_⟩
  rcases ht' with rfl | rfl
  · exact ht
  · exact .inr rfl

theorem initHostPort_typedFrom (acc : ℕ × (PortRef → PortInfo)) (i : ℕ) (r : PortRef) :
    PortInfo.TypedFrom r (acc.2 r) ((initHostPort P acc i).2 r) := by
  have hrefl : PortInfo.TypedFrom r (acc.2 r) (acc.2 r) := ⟨_, _, rfl, .inl rfl⟩
  unfold initHostPort
  split
  · cases r with
    | phy no q =>
      simp only
      split
      · exact ⟨.phy, acc.1, rfl, .inr rfl⟩
      · exact hrefl
    | vhost | ring => exact hrefl
  · rename_i id _
    show PortInfo.TypedFrom r (acc.2 r) (update acc.2 (.ring id) _ r)
    rcases eq_or_ne r (.ring id) with rfl | hne
    · rw [update_self]
      exact ⟨.ring, id, rfl, .inr rfl⟩
    · rwa [update_of_ne hne]
  · exact hrefl

/-- **The search for host ports** gives entries types and ethdev ids, and nothing
else. -/
theorem initHostPortInfo_typedFrom (iface : PortRef → PortInfo) (r : PortRef) :
    PortInfo.TypedFrom r (iface r) (initHostPortInfo P iface r) := by
  have hfold (l : List ℕ) (acc : ℕ × (PortRef → PortInfo)) :
      PortInfo.TypedFrom r (acc.2 r) ((l.foldl (initHostPort P) acc).2 r) := by
    induction l generalizing acc with
    | nil => exact ⟨_, _, rfl, .inl rfl⟩
    | cons i l ih => exact (initHostPort_typedFrom P acc i r).trans (ih _)
  exact hfold (List.range P.maxEthports) (0, iface)

/-- `init_core_info`, one lcore. -/
def initCoreInfo (lcoreId : ℕ) : CoreMngInfo where
  status := if P.slave lcoreId then .stopped else .unused
  refIndex := 0
  updIndex := 1
  core := fun _ => ⟨0, fun _ => 0⟩

/-- `init_mng_data`. -/
def initMngData : MngData where
  iface := initHostPortInfo P initPortInfo
  comp := fun cnt => { CompInfo.zero with compId := cnt }
  core := initCoreInfo P
  changeCore := fun _ => false
  changeComp := fun _ => false

/-! ## The flush of ports -/

/-- What the poll mode drivers answer during one flush: the ethdev id of the new
device, or a negative number. -/
structure PmdEnv where
  addVhostPmd : ℕ → ℤ
  addRingPmd : ℕ → ℤ

/-- A port that has been given to a component and has no device yet. -/
def PortInfo.pending (p : PortInfo) : Bool :=
  p.ifaceType ≠ .undef ∧ p.ethdevPortId < 0

/-- One of the two loops of `update_port_info`, over the entries still to do. -/
def initAddedPorts (place : ℕ → PortRef) (add : ℕ → ℤ) :
    List ℕ → (PortRef → PortInfo) → Ret × (PortRef → PortInfo)
  | [], iface => (.ok, iface)
  | cnt :: rest, iface =>
    if (iface (place cnt)).pending then
      if add (iface (place cnt)).ifaceNo.toNat < 0 then (.ng, iface)
      else initAddedPorts place add rest
        (Function.update iface (place cnt)
          { iface (place cnt) with ethdevPortId := add (iface (place cnt)).ifaceNo.toNat })
    else initAddedPorts place add rest iface

/-- `update_port_info`. -/
def updatePortInfo (E : PmdEnv) (m : MngData) : Ret × MngData :=
  match initAddedPorts .vhost E.addVhostPmd (List.range P.maxEthports) m.iface with
  | (.ng, iface) => (.ng, { m with iface := iface })
  | (.ok, iface) =>
    let r := initAddedPorts .ring E.addRingPmd (List.range P.maxEthports) iface
    (r.1, { m with iface := r.2 })

/-- Two interface tables that agree on everything but the ethdev ids. -/
def SameButEthdev (f g : PortRef → PortInfo) : Prop :=
  ∀ r, g r = { f r with ethdevPortId := (g r).ethdevPortId }

theorem sameButEthdev_refl (f : PortRef → PortInfo) : SameButEthdev f f := fun _ => rfl

theorem SameButEthdev.trans {f g h : PortRef → PortInfo} (h₁ : SameButEthdev f g)
    (h₂ : SameButEthdev g h) : SameButEthdev f h := by
  intro r
  rw [h₂ r, h₁ r]

theorem initAddedPorts_sameButEthdev (place : ℕ → PortRef) (add : ℕ → ℤ) (l : List ℕ)
    (iface : PortRef → PortInfo) :
    SameButEthdev iface (initAddedPorts place add l iface).2 := by
  induction l generalizing iface with
  | nil => exact sameButEthdev_refl iface
  | cons cnt rest ih =>
    unfold initAddedPorts
    split
    · split
      · exact sameButEthdev_refl iface
      refine SameButEthdev.trans ?_ (ih _)
      intro r
      rcases eq_or_ne r (place cnt) with rfl | hr
      · rw [update_self]
      · rw [update_of_ne hr]
    · exact ih iface

/-- **The flush of ports touches nothing but ethdev ids.** -/
theorem updatePortInfo_spec (E : PmdEnv) (m : MngData) :
    ∃ iface, SameButEthdev m.iface iface ∧ (updatePortInfo P E m).2 = { m with iface := iface } := by
  unfold updatePortInfo
  have hv := initAddedPorts_sameButEthdev .vhost E.addVhostPmd (List.range P.maxEthports) m.iface
  split
  · rename_i iface heq
    rw [heq] at hv
    exact ⟨iface, hv, rfl⟩
  · rename_i iface heq
    rw [heq] at hv
    exact ⟨_, hv.trans (initAddedPorts_sameButEthdev .ring E.addRingPmd _ iface), rfl⟩

variable {E : PmdEnv} {m' : MngData}

/-- A flush that gets past the ports has created every device asked for. -/
theorem updatePortInfo_eq_ok {P : Platform} (h : updatePortInfo P E m = (.ok, m')) : ∃ iface,
      initAddedPorts .vhost E.addVhostPmd (List.range P.maxEthports) m.iface = (.ok, iface) ∧
      initAddedPorts .ring E.addRingPmd (List.range P.maxEthports) iface = (.ok, m'.iface) := by
  unfold updatePortInfo at h
  split at h
  · cases h
  · rename_i iface hv
    obtain ⟨hret, rfl⟩ := Prod.mk.injEq .. ▸ h
    exact ⟨iface, hv, Prod.ext hret rfl⟩

/-- Whether the flush gets past the ports depends on the interface table only. -/
theorem updatePortInfo_congr {P : Platform} (h : m'.iface = m.iface) :
    (updatePortInfo P E m').1 = (updatePortInfo P E m).1 := by
  unfold updatePortInfo
  rw [h]
  split <;> rfl

/-! ## The flush of lcores -/

/-- The command thread asks for a swap. -/
def CoreMngInfo.requestSwap (c : CoreMngInfo) : CoreMngInfo :=
  { c with updIndex := c.refIndex }

/-- The index test at the head of the loop of `slave_main`. -/
def CoreMngInfo.workerSwap (c : CoreMngInfo) : CoreMngInfo :=
  if c.refIndex = c.updIndex then { c with refIndex := c.updIndex + 1 } else c

/-- The command thread brings its side up to date. -/
def CoreMngInfo.copySides (c : CoreMngInfo) : CoreMngInfo :=
  { c with core := Function.update c.core c.updIndex (c.core c.refIndex) }

/-- A changed lcore on which no worker runs. -/
def unanswered (m : MngData) : Bool :=
  (List.range P.maxLcore).any fun l => m.changeCore l && !P.slave l

/-- `update_lcore_info`, with the swaps of the workers completed. -/
def updateLcoreInfo (m : MngData) : Except Fault MngData :=
  if unanswered P m then .error .blocked
  else
    let core := fun l =>
      if m.changeCore l ∧ l < P.maxLcore then (m.core l).requestSwap.workerSwap.copySides
      else m.core l
    .ok { m with core := core }

/-- After the exchange the worker runs what the command thread had prepared, and
both sides hold it. -/
theorem CoreMngInfo.swap_spec (c : CoreMngInfo) (h : c.refIndex ≠ c.updIndex) :
    let c' := (c.requestSwap.workerSwap).copySides
    c'.refIndex ≠ c'.updIndex ∧ c'.status = c.status ∧
      ∀ s, c'.core s = c.core c.updIndex := by
  obtain ⟨st, r, u, core⟩ := c
  have hne : ∀ r u : Side, r ≠ u → r + 1 = u := by decide
  have hsucc : ∀ r : Side, r + 1 ≠ r := by decide
  have hru : r + 1 = u := hne r u h
  refine ⟨?_, ?_, ?_⟩
  · simp [requestSwap, workerSwap, copySides]
  · simp [requestSwap, workerSwap, copySides]
  intro s
  simp only [requestSwap, workerSwap, copySides, if_true]
  rcases eq_or_ne s r with rfl | hs
  · rw [update_self, hru]
  · rw [update_of_ne hs, ← hne r s hs.symm, hru]

/-- `backup_mng_info`: what it does to the management data. -/
def backupMngInfo (m : MngData) : MngData :=
  { m with changeCore := fun _ => false, changeComp := fun _ => false }

end SoftPatchPanel.Worker
