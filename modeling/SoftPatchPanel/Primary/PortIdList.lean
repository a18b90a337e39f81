import Mathlib.Data.List.Find
import SoftPatchPanel.Primary.FailedPorts

/-!
# The list of ports of `spp_primary` and the ethdevs

`del_port` looks a port up in `port_id_list` and takes the index it finds for the id of
an ethdev.  `add_port` on the other hand enters a port at the first free index, and the
ethdev is the one DPDK has chosen: the device of the port if there is one already, and
the lowest free ethdev otherwise.  So the list is right as long as its free entries are
the free ethdevs, and every new port gets a new device.

Here the commands of a `spp_primary` run one after the other, each of them with success,
and the free entries and the free ethdevs are kept together as an invariant.  Three
kinds of commands do not keep it, and all of them succeed: adding a port that is in the
list already, which gets a second entry; deleting a ring, which is stopped and closed
but stays an ethdev; and deleting something that is no type of a port at all, which
clears the first entry.
-/

namespace SoftPatchPanel.Primary

open Shared
open Worker (PortType Fault Ret)
open Transition (System Run Guarded guarded_cons guarded_nil bind_eq_ok)
open Function (update update_self update_of_ne)

variable {L : Limits} {s s' arrays : State L} {d cnt : ℕ} {pId : ℤ} {type : PortType}
  {pType : CString} {rings : Option CString × Option CString} {host : Host L}

/-! ## Commands and ethdevs -/

/-- The commands, with the tokens they are made of. -/
inductive ListCmd where
  | add (pType : CString) (pId : ℤ) (rings : Option CString × Option CString)
  | del (pType : CString) (pId : ℤ)

/-- The three arrays, and the ethdevs with the ports they are the devices of. -/
structure DevState (L : Limits) where
  arrays : State L
  dev : ℕ → Option (PortType × ℤ)

/-- The ethdev that a port is given: the one that is its device, or the lowest free
one. -/
def DevState.Assigns (s : DevState L) (n : PortType × ℤ) (d : ℕ) : Prop :=
  d < L.maxEthports ∧
    (s.dev d = some n ∨
      (∀ k, s.dev k ≠ some n) ∧ s.dev d = none ∧ ∀ k < d, s.dev k ≠ none)

/-- The ethdevs after a deletion: a ring is only stopped and closed. -/
def DevState.detach (s : DevState L) (type : PortType) (pId : ℤ) : ℕ → Option (PortType × ℤ) :=
  if type = .ring then s.dev
  else Function.update s.dev (findEthdevId s.arrays pId type) none

/-- A command that succeeds. -/
inductive ListStep : DevState L → ListCmd → DevState L → Prop where
  | add {s : DevState L} {pType : CString} {pId : ℤ} {rings : Option CString × Option CString}
      {type : PortType} {d : ℕ} {arrays : State L}
      (hsup : supported pType = some type) (hpmd : s.Assigns (type, pId) d)
      (hadd : addPort s.arrays d pType pId rings = .ok (.ok, arrays)) :
      ListStep s (.add pType pId rings) ⟨arrays, Function.update s.dev d (some (type, pId))⟩
  | addOther {s : DevState L} {pType : CString} {pId : ℤ}
      {rings : Option CString × Option CString} {arrays : State L}
      (hsup : supported pType = none)
      (hadd : addPort s.arrays 0 pType pId rings = .ok (.ok, arrays)) :
      ListStep s (.add pType pId rings) ⟨arrays, s.dev⟩
  | del {s : DevState L} {pType : CString} {pId : ℤ} {type : PortType} {arrays : State L}
      (hsup : supported pType = some type)
      (hdel : delPort s.arrays pType pId = .ok (.ok, arrays)) :
      ListStep s (.del pType pId) ⟨arrays, s.detach type pId⟩
  | delOther {s : DevState L} {pType : CString} {pId : ℤ} {arrays : State L}
      (hsup : supported pType = none)
      (hdel : delPort s.arrays pType pId = .ok (.ok, arrays)) :
      ListStep s (.del pType pId) ⟨arrays, s.dev⟩

/-- The command is one that keeps list and ethdevs together. -/
def InStep (s : DevState L) : ListCmd → Prop
  | .add pType pId _ =>
    ∃ type, supported pType = some type ∧ pId ≠ portReset ∧ ¬ s.arrays.Listed type pId
  | .del pType _ => ∃ type, supported pType = some type ∧ type ≠ .ring

/-! ## What the list is for -/

/-- An entry of the list names a port exactly if the ethdev of its index is the device of
the port, no port is named twice, and a deletion detaches the device of the port and
clears its entry of `port_map` and no other. -/
structure Agrees (s : DevState L) : Prop where
  names : ∀ d < L.maxEthports, ∀ type id, type ≠ .undef →
    ((s.arrays.portIdList d).type = type ∧ (s.arrays.portIdList d).portId = id ↔
      s.dev d = some (type, id))
  once : ∀ d < L.maxEthports, ∀ k < L.maxEthports, (s.arrays.portIdList d).type ≠ .undef →
    (s.arrays.portIdList d).type = (s.arrays.portIdList k).type →
    (s.arrays.portIdList d).portId = (s.arrays.portIdList k).portId → d = k
  deletes : ∀ pType pId type arrays, supported pType = some type →
    delPort s.arrays pType pId = .ok (.ok, arrays) →
    ∃ d < L.maxEthports, findEthdevId s.arrays pId type = d ∧
      (∀ k, s.dev k = some (type, pId) ↔ k = d) ∧
      (s.arrays.tables.portMap d).portType = type ∧ (s.arrays.tables.portMap d).id = pId ∧
      arrays.tables.portMap = Function.update s.arrays.tables.portMap d PortMap.reset

/-- The invariant: an index is free in the list exactly if it is no ethdev, and otherwise
the list has the port of the ethdev; and ports that were added are in `port_map` under
their name. -/
structure Aligned (s : DevState L) : Prop where
  entry : ∀ d < L.maxEthports,
    (s.arrays.portIdList d).portId = portReset ∧ (s.arrays.portIdList d).type = .undef ∧
        s.dev d = none ∨
      (s.arrays.portIdList d).portId ≠ portReset ∧ (s.arrays.portIdList d).type ≠ .undef ∧
        s.dev d = some ((s.arrays.portIdList d).type, (s.arrays.portIdList d).portId)
  dev_lt : ∀ d n, s.dev d = some n → d < L.maxEthports
  dev_inj : DistinctDevices s.dev
  portMap : ∀ d < L.maxEthports, (s.arrays.portIdList d).type ≠ .undef →
    (s.arrays.portIdList d).type ≠ .phy →
    (s.arrays.tables.portMap d).portType = (s.arrays.portIdList d).type ∧
      (s.arrays.tables.portMap d).id = (s.arrays.portIdList d).portId

namespace Aligned

variable {s : DevState L} {id : ℤ}

theorem names (h : Aligned s) {d : ℕ} (hd : d < L.maxEthports) {type : PortType}
    (htype : type ≠ .undef) :
    (s.arrays.portIdList d).type = type ∧ (s.arrays.portIdList d).portId = id ↔
      s.dev d = some (type, id) := by
  rcases h.entry d hd with ⟨-, hundef, hdev⟩ | ⟨-, -, hdev⟩
  · rw [hdev]
    refine iff_of_false ?_ fun h => by cases h
    rintro ⟨heq, -⟩
    exact htype (heq ▸ hundef)
  · rw [hdev, Option.some.injEq, Prod.mk.injEq]

/-- A port is in the list exactly if it has a device. -/
theorem listed_iff (h : Aligned s) {type : PortType} (htype : type ≠ .undef) :
    s.arrays.Listed type id ↔ ∃ d, s.dev d = some (type, id) := by
  constructor
  · rintro ⟨d, hd, hid, heq⟩
    exact ⟨d, (h.names hd htype).mp ⟨heq, hid⟩⟩
  rintro ⟨d, hdev⟩
  have hd := h.dev_lt d _ hdev
  obtain ⟨heq, hid⟩ := (h.names hd htype).mpr hdev
  exact ⟨d, hd, hid, heq⟩

/-- The first free entry is the lowest free ethdev. -/
theorem firstFree_eq (h : Aligned s) {d : ℕ} (hd : d < L.maxEthports) (hfree : s.dev d = none)
    (hlow : ∀ k < d, s.dev k ≠ none) : s.arrays.firstFree = d := by
  have hiff : ∀ k < L.maxEthports, (s.arrays.portIdList k).portId = portReset ↔
      s.dev k = none := by
    intro k hk
    rcases h.entry k hk with ⟨hid, -, hdev⟩ | ⟨hid, -, hdev⟩
    · exact iff_of_true hid hdev
    · refine iff_of_false hid ?_
      rw [hdev]
      exact fun h => by cases h
  have hfind : (List.range L.maxEthports).find?
      (fun d => decide ((s.arrays.portIdList d).portId = portReset)) = some d := by
    rw [List.find?_range_eq_some]
    refine ⟨decide_eq_true ((hiff d hd).mpr hfree), List.mem_range.mpr hd, fun k hk => ?_⟩
    have hne := mt (hiff k (hk.trans hd)).mp (hlow k hk)
    simpa using hne
  rw [State.firstFree, hfind]
  rfl

end Aligned

/-! ## A successful `add` -/

theorem finishAdd_eq_ok (hd : d < L.maxEthports) (h : finishAdd s cnt d pId = .ok (.ok, s')) :
    s'.portIdList = s.portIdList ∧
      (s'.tables.portMap d).portType = (s.portIdList cnt).type ∧
      (s'.tables.portMap d).id = pId ∧
      ∀ k, k ≠ d → s'.tables.portMap k = s.tables.portMap k := by
  unfold finishAdd at h
  rw [if_neg (by omega), uint16OfLong_of_lt (hd.trans (L.maxEthports_lt.trans (by decide)))] at h
  split at h
  · have hs' := (Prod.mk.inj (Except.ok.inj h)).2
    subst hs'
    refine ⟨rfl, ?_, ?_, fun k hk => ?_⟩
    · rw [Tables.setFwd_portMap, Tables.setPort_portMap_self]
    · rw [Tables.setFwd_portMap, Tables.setPort_portMap_self]
    · rw [Tables.setFwd_portMap, Tables.setPort_portMap_of_ne _ _ hk]
  · cases h

theorem record_eq_ok (h : record s cnt type pId = .ok s') :
    s'.tables = s.tables ∧ (s'.portIdList cnt).type = type ∧ (s'.portIdList cnt).portId = pId ∧
      ∀ k, k ≠ cnt → s'.portIdList k = s.portIdList k := by
  unfold record at h
  split at h
  · have hs' := Except.ok.inj h
    subst hs'
    refine ⟨rfl, ?_, ?_, fun k hk => State.setList_portIdList_of_ne _ _ hk⟩
    all_goals rw [State.setList_portIdList_self]
  · cases h

/-- The rings of a pipe go to two fields that nobody looks up. -/
theorem storeRings_eq_ok (h : storeRings s cnt rings = .ok s') :
    s'.tables = s.tables ∧ (s'.portIdList cnt).type = (s.portIdList cnt).type ∧
      (s'.portIdList cnt).portId = (s.portIdList cnt).portId ∧
      ∀ k, k ≠ cnt → s'.portIdList k = s.portIdList k := by
  unfold storeRings at h
  obtain ⟨rx, -, h⟩ := bind_eq_ok.mp h
  obtain ⟨tx, -, h⟩ := bind_eq_ok.mp h
  have hs' := Except.ok.inj h
  subst hs'
  refine ⟨rfl, ?_, ?_, fun k hk => ?_⟩
  · simp only [State.setList_portIdList_self]
  · simp only [State.setList_portIdList_self]
  · rw [State.setList_portIdList_of_ne _ _ hk, State.setList_portIdList_of_ne _ _ hk]

/-- **A successful `add`** enters the port at the first free index of the list and at the
ethdev in `port_map`. -/
theorem addPort_eq_ok (hd : d < L.maxEthports)
    (hsup : supported pType = some type) (h : addPort s d pType pId rings = .ok (.ok, s')) :
    ((s'.portIdList s.firstFree).type = type ∧ (s'.portIdList s.firstFree).portId = pId ∧
      ∀ k, k ≠ s.firstFree → s'.portIdList k = s.portIdList k) ∧
    (s'.tables.portMap d).portType = type ∧ (s'.tables.portMap d).id = pId ∧
      ∀ k, k ≠ d → s'.tables.portMap k = s.tables.portMap k := by
  simp only [addPort] at h
  cases hlookup : recordedTypes.lookup pType with
  | some type' =>
    obtain rfl : type' = type := by
      rw [supported, List.lookup_append, hlookup] at hsup
      exact Option.some.inj hsup
    rw [hlookup] at h
    obtain ⟨s₁, hrec, hfin⟩ := bind_eq_ok.mp h
    obtain ⟨htab, htype, hid, hother⟩ := record_eq_ok hrec
    obtain ⟨hlist, hmtype, hmid, hmother⟩ := finishAdd_eq_ok hd hfin
    rw [hlist, hmtype, htype, hmid, hid]
    refine ⟨⟨rfl, rfl, hother⟩, rfl, rfl, fun k hk => ?_⟩
    rw [hmother k hk, htab]
  | none =>
    have hpipe : pType = pipeName := by
      by_contra hne
      rw [supported_eq_none_iff.mpr ⟨hlookup, hne⟩] at hsup
      cases hsup
    obtain rfl : type = .pipe := by
      rw [hpipe] at hsup
      exact (Option.some.inj hsup).symm
    rw [hlookup] at h
    simp only [if_pos hpipe] at h
    obtain ⟨res, hres, h⟩ := bind_eq_ok.mp h
    obtain ⟨-, rfl⟩ := addPipePmd_eq_ok_iff.mp hres
    rw [if_neg (by omega)] at h
    obtain ⟨s₁, hrec, h⟩ := bind_eq_ok.mp h
    obtain ⟨s₂, hrings, hfin⟩ := bind_eq_ok.mp h
    obtain ⟨htab, htype, hid, hother⟩ := record_eq_ok hrec
    obtain ⟨htab₂, htype₂, hid₂, hother₂⟩ := storeRings_eq_ok hrings
    obtain ⟨hlist, hmtype, hmid, hmother⟩ := finishAdd_eq_ok hd hfin
    rw [hlist, hmtype, htype₂, htype, hmid, hid₂, hid]
    refine ⟨⟨rfl, rfl, fun k hk => ?_⟩, rfl, rfl, fun k hk => ?_⟩
    · rw [hother₂ k hk, hother k hk]
    · rw [hmother k hk, htab₂, htab]

theorem supported_ne (h : supported pType = some type) : type ≠ .undef ∧ type ≠ .phy := by
  obtain ⟨l₁, l₂, heq, -⟩ := List.lookup_eq_some_iff.mp h
  have hmem : (pType, type) ∈ recordedTypes ++ [(pipeName, PortType.pipe)] := by
    rw [heq]
    exact List.mem_append_right _ List.mem_cons_self
  have hall : ∀ e ∈ recordedTypes ++ [(pipeName, PortType.pipe)], e.2 ≠ .undef ∧ e.2 ≠ .phy := by
    decide
  exact hall _ hmem

theorem Aligned.add {s : DevState L}
    (h : Aligned s) (hsup : supported pType = some type) (hpmd : s.Assigns (type, pId) d)
    (hadd : addPort s.arrays d pType pId rings = .ok (.ok, arrays))
    (hid : pId ≠ portReset) (hnew : ¬ s.arrays.Listed type pId) :
    Aligned ⟨arrays, update s.dev d (some (type, pId))⟩ := by
  obtain ⟨hundef, hphy⟩ := supported_ne hsup
  obtain ⟨hd, hassign⟩ := hpmd
  have hnone : ∀ k, s.dev k ≠ some (type, pId) := by
    intro k hk
    exact hnew ((h.listed_iff hundef).mpr ⟨k, hk⟩)
  obtain ⟨-, hfree, hlow⟩ := hassign.resolve_left (hnone d)
  obtain ⟨⟨hltype, hlid, hlother⟩, hmtype, hmid, hmother⟩ := addPort_eq_ok hd hsup hadd
  rw [h.firstFree_eq hd hfree hlow] at hltype hlid hlother
  refine ⟨?_, ?_, ?_, ?_⟩
  · intro k hk
    dsimp only
    by_cases hkd : k = d
    · subst hkd
      rw [hltype, hlid, update_self]
      exact Or.inr ⟨hid, hundef, rfl⟩
    · rw [hlother k hkd, update_of_ne hkd]
      exact h.entry k hk
  · intro k n hk
    dsimp only at hk
    by_cases hkd : k = d
    · exact hkd ▸ hd
    · rw [update_of_ne hkd] at hk
      exact h.dev_lt k n hk
  · exact h.dev_inj.update_some fun k _ => hnone k
  intro k hk htype hnphy
  dsimp only at htype hnphy ⊢
  by_cases hkd : k = d
  · subst hkd
    rw [hltype, hlid, hmtype, hmid]
    exact ⟨rfl, rfl⟩
  · rw [hlother k hkd] at htype hnphy ⊢
    rw [hmother k hkd]
    exact h.portMap k hk htype hnphy

/-! ## A successful `del` -/

theorem clearPort_eq_ok (h : clearPort s d = .ok s') :
    d < L.maxEthports ∧
      (s'.portIdList d).portId = portReset ∧ (s'.portIdList d).type = .undef ∧
      (∀ k, k ≠ d → s'.portIdList k = s.portIdList k) ∧
      s'.tables.portMap = update s.tables.portMap d PortMap.reset := by
  unfold clearPort at h
  split at h
  · rename_i hd
    obtain ⟨t₁, hrem, h⟩ := bind_eq_ok.mp h
    obtain ⟨t₂, hmap, h⟩ := bind_eq_ok.mp h
    have hs' := Except.ok.inj h
    subst hs'
    unfold Tables.portMapInitOne at hmap
    rw [if_pos hd] at hmap
    have ht₂ := Except.ok.inj hmap
    subst ht₂
    refine ⟨hd, ?_, ?_, fun k hk => State.setList_portIdList_of_ne _ _ hk, ?_⟩
    · show ((s.setList d _).portIdList d).portId = portReset
      rw [State.setList_portIdList_self]
    · show ((s.setList d _).portIdList d).type = .undef
      rw [State.setList_portIdList_self]
    · show update t₁.portMap d PortMap.reset = _
      rw [Tables.forwardArrayRemove_portMap hrem]
      rfl
  · cases h

/-- A deletion that succeeds has found the port in the list. -/
theorem delPort_eq_ok
    (hsup : supported pType = some type) (h : delPort s pType pId = .ok (.ok, s')) :
    s.Listed type pId ∧ clearPort s (findEthdevId s pId type) = .ok s' := by
  simp only [delPort, hsup] at h
  by_cases hlist : s.Listed type pId
  · rw [if_neg (mt findEthdevId_eq_portReset_iff.mp (not_not_intro hlist))] at h
    refine ⟨hlist, ?_⟩
    cases hclear : clearPort s (findEthdevId s pId type) with
    | error e =>
      rw [hclear] at h
      cases h
    | ok s₁ =>
      rw [hclear] at h
      cases h
      rfl
  · rw [if_pos (findEthdevId_eq_portReset_iff.mpr hlist)] at h
    cases h

theorem findEthdevId_of_listed (h : s.Listed type pId) :
    findEthdevId s pId type < L.maxEthports ∧
      (s.portIdList (findEthdevId s pId type)).portId = pId ∧
      (s.portIdList (findEthdevId s pId type)).type = type := L.find_spec h

/-- In step, the index that is found is the ethdev of the port. -/
theorem Aligned.dev_findEthdevId {s : DevState L} (h : Aligned s)
    (htype : type ≠ .undef) (hlist : s.arrays.Listed type pId) :
    s.dev (findEthdevId s.arrays pId type) = some (type, pId) := by
  obtain ⟨hd, hid, heq⟩ := findEthdevId_of_listed hlist
  exact (h.names hd htype).mp ⟨heq, hid⟩

theorem Aligned.del {s : DevState L} (h : Aligned s) (hsup : supported pType = some type)
    (hdel : delPort s.arrays pType pId = .ok (.ok, arrays)) (hring : type ≠ .ring) :
    Aligned ⟨arrays, s.detach type pId⟩ := by
  obtain ⟨hlist, hclear⟩ := delPort_eq_ok hsup hdel
  obtain ⟨-, hid, htype, hother, hmap⟩ := clearPort_eq_ok hclear
  have hdetach : s.detach type pId =
      update s.dev (findEthdevId s.arrays pId type) none := if_neg hring
  rw [hdetach]
  refine ⟨?_, ?_, h.dev_inj.update_none _, ?_⟩
  · intro k hk
    dsimp only
    by_cases hkd : k = findEthdevId s.arrays pId type
    · rw [hkd, hid, htype, update_self]
      exact Or.inl ⟨rfl, rfl, rfl⟩
    · rw [hother k hkd, update_of_ne hkd]
      exact h.entry k hk
  · intro k n hk
    exact h.dev_lt k n (eq_some_of_update_none hk).2
  intro k hk hundef hphy
  dsimp only at hundef hphy ⊢
  by_cases hkd : k = findEthdevId s.arrays pId type
  · rw [hkd, htype] at hundef
    exact absurd rfl hundef
  · rw [hother k hkd] at hundef hphy ⊢
    rw [hmap, update_of_ne hkd]
    exact h.portMap k hk hundef hphy

/-- **What the list is for**, from the invariant. -/
theorem Aligned.agrees {s : DevState L} (h : Aligned s) : Agrees s where
  names d hd type id htype := h.names hd htype
  once d hd k hk htype heq hid := by
    have hdev := (h.names hd htype).mp ⟨rfl, rfl⟩
    rw [heq] at htype
    have hdev' := (h.names hk htype).mp ⟨rfl, rfl⟩
    rw [heq, hid] at hdev
    exact h.dev_inj d k _ hdev hdev'
  deletes pType pId type arrays hsup hdel := by
    obtain ⟨hundef, hphy⟩ := supported_ne hsup
    obtain ⟨hlist, hclear⟩ := delPort_eq_ok hsup hdel
    obtain ⟨hd, hid, htype⟩ := findEthdevId_of_listed hlist
    have hdev := h.dev_findEthdevId hundef hlist
    have hmap := h.portMap _ hd (by rw [htype]; exact hundef) (by rw [htype]; exact hphy)
    rw [htype, hid] at hmap
    refine ⟨_, hd, rfl, fun k => ?_, hmap.1, hmap.2, (clearPort_eq_ok hclear).2.2.2.2⟩
    constructor
    · exact fun hk => h.dev_inj k _ _ hk hdev
    · rintro rfl
      exact hdev

/-! ## Runs -/

/-- The process when it starts to read commands. -/
def startState (host : Host L) (forwarding : Bool) : DevState L :=
  ⟨startUp host forwarding, deviceOf host⟩

/-- `spp_primary` on a machine, taking one command after the other. -/
def listSystem (host : Host L) (forwarding : Bool) : System (DevState L) ListCmd where
  init s := s = startState host forwarding
  step := ListStep

/-- The ethdevs at start-up are physical ports, and there are no gaps between them. -/
def PhyOnly (host : Host L) : Prop :=
  ∀ d n, deviceOf host d = some n → n = (.phy, (d : ℤ))

theorem PhyOnly.aligned (h : PhyOnly host) (forwarding : Bool) :
    Aligned (startState host forwarding) := by
  have hfree : ∀ d, deviceOf host d = none →
      (startUp host forwarding).portIdList d = ⟨portReset, .undef, 0, 0⟩ := by
    intro d hd
    refine if_neg fun hc => ?_
    rw [deviceOf, Option.map_eq_none_iff] at hd
    rw [hd] at hc
    exact Bool.false_ne_true hc.2
  have hused : ∀ d n, deviceOf host d = some n → d < L.maxEthports ∧
      (startUp host forwarding).portIdList d = ⟨d, .phy, 0, 0⟩ := by
    intro d n hd
    have hsome : (host.dev d).isSome := by
      rw [deviceOf, Option.map_eq_some_iff] at hd
      obtain ⟨m, hm, -⟩ := hd
      rw [hm]
      rfl
    exact ⟨host.dev_lt d hsome, if_pos ⟨host.dev_lt d hsome, hsome⟩⟩
  refine ⟨fun d hd => ?_, fun d n hn => (hused d n hn).1, fun d k n hd hk => ?_,
    fun d hd hundef hphy => ?_⟩
  · show ((startUp host forwarding).portIdList d).portId = portReset ∧
        ((startUp host forwarding).portIdList d).type = .undef ∧ deviceOf host d = none ∨ _
    cases hdev : deviceOf host d with
    | none =>
      rw [hfree d hdev]
      exact Or.inl ⟨rfl, rfl, rfl⟩
    | some n =>
      refine Or.inr ?_
      show ((startUp host forwarding).portIdList d).portId ≠ portReset ∧
        ((startUp host forwarding).portIdList d).type ≠ .undef ∧
        deviceOf host d = some (((startUp host forwarding).portIdList d).type,
          ((startUp host forwarding).portIdList d).portId)
      rw [(hused d n hdev).2, hdev, h d n hdev]
      have := L.maxEthports_lt
      refine ⟨?_, ?_, rfl⟩
      · show (d : ℤ) ≠ portReset
        omega
      · exact fun h => by cases h
  · have hn := h d n hd
    rw [h k n hk, Prod.mk.injEq] at hn
    omega
  have hundef : ((startUp host forwarding).portIdList d).type ≠ .undef := hundef
  have hphy : ((startUp host forwarding).portIdList d).type ≠ .phy := hphy
  cases hdev : deviceOf host d with
  | none =>
    rw [hfree d hdev] at hundef
    exact absurd rfl hundef
  | some n =>
    rw [(hused d n hdev).2] at hphy
    exact absurd rfl hphy

theorem phyOnly_empty (L : Limits) : PhyOnly (Host.empty L) := by
  intro d n h
  cases h

/-- A run goes on with a port that has no device yet. -/
theorem run_add_new {forwarding : Bool} {hist : List (DevState L × ListCmd)}
    {s : DevState L} (hrun : Run (listSystem host forwarding) hist s) (pType : CString) (pId : ℤ)
    (d : ℕ) (hd : d < L.maxEthports)
    (hsup : supported pType = some type) (hnew : ∀ k, s.dev k ≠ some (type, pId))
    (hfree : s.dev d = none) (hlow : ∀ k < d, s.dev k ≠ none)
    (hadd : addPort s.arrays d pType pId (none, none) = .ok (.ok, arrays)) :
    Run (listSystem host forwarding) ((s, .add pType pId (none, none)) :: hist)
      ⟨arrays, update s.dev d (some (type, pId))⟩ :=
  hrun.snoc (ListStep.add hsup ⟨hd, Or.inr ⟨hnew, hfree, hlow⟩⟩ hadd)

end SoftPatchPanel.Primary
