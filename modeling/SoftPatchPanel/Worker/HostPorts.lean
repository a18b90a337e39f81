import SoftPatchPanel.Shared.DevName
import SoftPatchPanel.Vf.ComponentPorts

/-!
# The ports a worker finds at start-up

`init_host_port_info` walks through the ethdevs, asks for the name of each, and enters
the physical ports and the rings in the interface table.  Three numberings meet here: the
ethdev id, the number in the name, and the rank among the physical devices.  What the loop
stores as the ethdev id of an entry is the rank, for a physical port, and the number read
from the name, for a ring; it is never the ethdev id.

So the table is right only when the numberings happen to agree (`identified_iff`): the
physical devices come first, without a gap; and a ring device, which is always taken for
that of ring 0, is the device of ring 0 and has the ethdev id 0.  A pcap device, which is
taken for a physical one, must not be there at all.
-/

namespace SoftPatchPanel
namespace Worker

open Shared Vf

/-! ## Devices -/

/-- The name of a physical device, such as `0000:00:08.0`. -/
structure PhyName where
  name : CString
  not_vdev : ∀ p ∈ vdevPrefixes, p.1.isPrefixOf name = false

/-- A device of the host. -/
inductive HostDevice where
  /-- A network card. -/
  | phy (name : PhyName)
  /-- A device that `add` has made. -/
  | vdev (type : VdevType) (id : ℤ)

/-- The name of the ethdev. -/
def HostDevice.name : HostDevice → CString
  | .phy n => n.name
  | .vdev type id => devName type id

/-- The ethdevs that are there when a process starts; no two have the same name.  What
`parse_dev_name` reads off these names is all that `Shared.Host` has of them. -/
structure HostNames where
  dev : ℕ → Option HostDevice
  unique : ∀ i j d d', dev i = some d → dev j = some d' → d.name = d'.name → i = j

/-- The ethdev is a network card. -/
def HostNames.isPhy (H : HostNames) (i : ℕ) : Bool :=
  match H.dev i with
  | some (.phy _) => true
  | _ => false

/-- The number of network cards with a smaller id. -/
def HostNames.rank (H : HostNames) : ℕ → ℕ := Nat.count fun i => H.isPhy i = true

/-- Type and number that `parse_dev_name` reads in the name of an ethdev. -/
def HostNames.parsed (H : HostNames) (i : ℕ) : Option (PortType × ℕ) :=
  match H.dev i with
  | none => none
  | some d =>
    match parseDevName d.name with
    | .ok (type, id) => some (type, id.toNat)
    | .error _ => none

/-- The platform with these devices. -/
def Platform.withHost (P : Platform) (H : HostNames) : Platform := { P with hostDev := H.parsed }

/-- What the loop makes of a device. -/
inductive Taken (H : HostNames) (i : ℕ) : Option (PortType × ℕ) → Prop where
  | none (hdev : H.dev i = none) : Taken H i none
  | phy {n : PhyName} (hdev : H.dev i = some (.phy n)) : Taken H i (some (.phy, 0))
  | pcap {id : ℤ} (hdev : H.dev i = some (.vdev .pcap id)) : Taken H i (some (.phy, 0))
  | ring {id : ℤ} (hdev : H.dev i = some (.vdev .ring id)) : Taken H i (some (.ring, 0))
  | other {type : VdevType} {id : ℤ} {x : PortType × ℕ} (hdev : H.dev i = some (.vdev type id))
      (hpcap : type ≠ .pcap) (hring : type ≠ .ring) (htype : x.1 = type.portType) :
      Taken H i (some x)

theorem HostNames.taken (H : HostNames) (i : ℕ) : Taken H i (H.parsed i) := by
  unfold HostNames.parsed
  cases hdev : H.dev i with
  | none => exact .none hdev
  | some d =>
    cases d with
    | phy n =>
      have hparse : parseDevName n.name = .ok (.phy, 0) := by
        have hfind : vdevPrefixes.find? (fun p => p.1.isPrefixOf n.name) = none := by
          rw [List.find?_eq_none]
          intro p hp
          rw [n.not_vdev p hp]
          exact Bool.false_ne_true
        rw [parseDevName, hfind]
      show Taken H i (match parseDevName n.name with
        | .ok (type, id) => some (type, id.toNat)
        | .error _ => none)
      rw [hparse]
      exact .phy hdev
    | vdev type id =>
      obtain ⟨v, hv, hname, -⟩ := devName_spec type id
      show Taken H i (match parseDevName (devName type id) with
        | .ok (type, id) => some (type, id.toNat)
        | .error _ => none)
      rw [hname, parseDevName_word]
      cases type with
      | ring =>
        dsimp only
        rw [parsePid_ring hv]
        exact .ring hdev
      | pcap => exact .pcap hdev
      | vhost | memif | nullpmd | pipe =>
        dsimp only
        rw [parsePid_uintText hv]
        exact .other hdev (by decide) (by decide) rfl

/-! ## The loop -/

variable (P : Platform) {n : ℕ}

/-- The table after the first `n` ethdevs. -/
structure Entered (n : ℕ) (acc : ℕ × (PortRef → PortInfo)) : Prop where
  count : acc.1 = phyCount P n
  phy : ∀ no q, acc.2 (.phy no q) =
    if no < phyCount P n ∧ q < P.maxQueuesPerPort then
      { initPortInfo (.phy no q) with ifaceType := .phy, ethdevPortId := no }
    else initPortInfo (.phy no q)
  ring : ∀ no, acc.2 (.ring no) =
    if ∃ i < n, P.hostDev i = some (.ring, no) then
      { initPortInfo (.ring no) with ifaceType := .ring, ethdevPortId := no }
    else initPortInfo (.ring no)

variable {P}

/-- Whether a ring has been found, after one more ethdev. -/
theorem exists_ring_succ {no : ℕ} : (∃ i < n + 1, P.hostDev i = some (.ring, no)) ↔
    (∃ i < n, P.hostDev i = some (.ring, no)) ∨ P.hostDev n = some (.ring, no) := by
  constructor
  · rintro ⟨i, hi, hdev⟩
    rcases Nat.lt_succ_iff_lt_or_eq.mp hi with hlt | rfl
    · exact .inl ⟨i, hlt, hdev⟩
    · exact .inr hdev
  · rintro (⟨i, hi, hdev⟩ | hdev)
    · exact ⟨i, Nat.lt_succ_of_lt hi, hdev⟩
    · exact ⟨n, Nat.lt_succ_self n, hdev⟩

theorem Entered.step {acc : ℕ × (PortRef → PortInfo)} (h : Entered P n acc) :
    Entered P (n + 1) (initHostPort P acc n) := by
  have hcount := h.count
  unfold initHostPort
  split
  · rename_i k hdev
    have hsucc : phyCount P (n + 1) = phyCount P n + 1 := by
      rw [phyCount_succ, hdev]
      rfl
    refine ⟨by rw [hsucc, hcount], fun no q => ?_, fun no => ?_⟩
    · show (if no = acc.1 ∧ q < P.maxQueuesPerPort then _ else acc.2 (.phy no q)) = _
      rw [h.phy no q, hcount, hsucc]
      by_cases hq : q < P.maxQueuesPerPort
      · rcases Nat.lt_trichotomy no (phyCount P n) with hlt | rfl | hgt
        · rw [if_neg (by omega), if_pos ⟨hlt, hq⟩, if_pos ⟨by omega, hq⟩]
        · rw [if_pos ⟨rfl, hq⟩, if_neg (by omega), if_pos ⟨by omega, hq⟩]
        · rw [if_neg (by omega), if_neg (by omega), if_neg (by omega)]
      · rw [if_neg fun hboth => hq hboth.2, if_neg fun hboth => hq hboth.2,
          if_neg fun hboth => hq hboth.2]
    · show acc.2 (.ring no) = _
      rw [h.ring no]
      refine if_congr (Iff.symm (exists_ring_succ.trans (or_iff_left ?_))) rfl rfl
      rw [hdev]
      exact fun heq => by cases heq
  · rename_i id hdev
    have hsame : phyCount P (n + 1) = phyCount P n := by
      rw [phyCount_succ, hdev]
      rfl
    refine ⟨hcount.trans hsame.symm, fun no q => ?_, fun no => ?_⟩
    · show Function.update acc.2 (.ring id) { acc.2 (.ring id) with
        ifaceType := .ring, ethdevPortId := id } (.phy no q) = _
      rw [Function.update_of_ne (fun heq => by cases heq), h.phy no q, hsame]
    show Function.update acc.2 (.ring id) { acc.2 (.ring id) with
      ifaceType := .ring, ethdevPortId := id } (.ring no) = _
    rcases eq_or_ne no id with rfl | hne
    · rw [Function.update_self, if_pos (exists_ring_succ.mpr (.inr hdev)), h.ring no]
      split <;> rfl
    rw [Function.update_of_ne (fun heq => hne (PortRef.ring.inj heq)), h.ring no]
    refine if_congr (Iff.symm (exists_ring_succ.trans (or_iff_left ?_))) rfl rfl
    rw [hdev]
    exact fun heq => hne (Prod.mk.inj (Option.some.inj heq)).2.symm
  · rename_i hnophy hnoring
    have hsame : phyCount P (n + 1) = phyCount P n := by
      rw [phyCount_succ, if_neg, Nat.add_zero]
      intro hany
      obtain ⟨⟨type, k⟩, hdev, htype⟩ := Option.any_eq_true _ _ |>.mp hany
      have htype : type = .phy := of_decide_eq_true htype
      subst htype
      exact hnophy k hdev
    refine ⟨hcount.trans hsame.symm, fun no q => ?_, fun no => ?_⟩
    · rw [h.phy no q, hsame]
    · rw [h.ring no]
      exact if_congr (Iff.symm (exists_ring_succ.trans (or_iff_left (hnoring no)))) rfl rfl

theorem entered_range (n : ℕ) :
    Entered P n ((List.range n).foldl (initHostPort P) (0, initPortInfo)) := by
  induction n with
  | zero =>
    refine ⟨rfl, fun no q => ?_, fun no => ?_⟩
    · rw [if_neg fun hlt => Nat.not_lt_zero _ hlt.1]
      rfl
    · rw [if_neg fun ⟨i, hi, _⟩ => Nat.not_lt_zero _ hi]
      rfl
  | succ n ih =>
    rw [List.range_succ, List.foldl_append]
    exact ih.step

/-- The entry of a physical port after the loop. -/
theorem initHostPortInfo_phy (no q : ℕ) : initHostPortInfo P initPortInfo (.phy no q) =
    if no < phyCount P P.maxEthports ∧ q < P.maxQueuesPerPort then
      { initPortInfo (.phy no q) with ifaceType := .phy, ethdevPortId := no }
    else initPortInfo (.phy no q) :=
  (entered_range P.maxEthports).phy no q

/-- The entry of a ring after the loop. -/
theorem initHostPortInfo_ring (no : ℕ) : initHostPortInfo P initPortInfo (.ring no) =
    if ∃ i < P.maxEthports, P.hostDev i = some (.ring, no) then
      { initPortInfo (.ring no) with ifaceType := .ring, ethdevPortId := no }
    else initPortInfo (.ring no) :=
  (entered_range P.maxEthports).ring no

end Worker

namespace Pcap

open Worker

/-- `init_host_port_info` of `spp_pcap`.  The loop is the one of the worker threads; the
branches for vhosts and pipes, which do nothing there, are missing here, and the default
branch only writes to the log. -/
def initHostPortInfo (P : Platform) : (PortRef → PortInfo) → PortRef → PortInfo :=
  Worker.initHostPortInfo P

end Pcap

namespace Worker

open Shared Vf

/-! ## Which port is which -/

/-- The ethdev is the device of an entry: `phy:n` is the n-th network card in the order
of the ids, and `ring:n` is the device made from ring n. -/
def HostNames.IsDevice (H : HostNames) (r : PortRef) (i : ℕ) : Prop :=
  match r with
  | .phy no _ => H.isPhy i = true ∧ H.rank i = no
  | .ring no => H.dev i = some (.vdev .ring no)
  | .vhost _ => False

/-- The entry is in one of the arrays for physical ports and rings. -/
def Tabled (P : Platform) : PortRef → Prop
  | .phy no q => no < P.maxEthports ∧ q < P.maxQueuesPerPort
  | .ring no => no < P.maxEthports
  | .vhost _ => False

/-- **Ports are identified.**  An entry whose device is there has a type and the ethdev id
of that device; an entry without a device has neither. -/
def Identified (P : Platform) (H : HostNames) (iface : PortRef → PortInfo) : Prop :=
  ∀ r, Tabled P r →
    (∀ i < P.maxEthports, H.IsDevice r i →
      (iface r).ifaceType ≠ .undef ∧ (iface r).ethdevPortId = i) ∧
    ((∀ i < P.maxEthports, ¬ H.IsDevice r i) →
      (iface r).ifaceType = .undef ∧ (iface r).ethdevPortId = -1)

/-- The numberings agree. -/
structure HostNames.InOrder (P : Platform) (H : HostNames) : Prop where
  /-- No pcap device is there. -/
  pcap : ∀ i < P.maxEthports, ∀ id, H.dev i ≠ some (.vdev .pcap id)
  /-- If there are rings, the first ethdev is ring 0, and no other ring has an entry. -/
  ring : ∀ i < P.maxEthports, ∀ id, H.dev i = some (.vdev .ring id) →
    H.dev 0 = some (.vdev .ring 0) ∧ (0 ≤ id ∧ id < P.maxEthports → id = 0)
  /-- The network cards come first. -/
  phy : ∀ i < P.maxEthports, H.isPhy i = true → ∀ j < i, H.isPhy j = true

variable {P : Platform} {H : HostNames} {i n no : ℕ}

/-- The ethdev is a pcap device. -/
def HostNames.isPcap (H : HostNames) (i : ℕ) : Bool :=
  match H.dev i with
  | some (.vdev .pcap _) => true
  | _ => false

theorem HostNames.parsed_phy (H : HostNames) (i : ℕ) :
    (if (H.parsed i).any (·.1 = .phy) then 1 else 0) =
      (if H.isPhy i then 1 else 0) + if H.isPcap i then 1 else 0 := by
  have htaken := H.taken i
  revert htaken
  generalize H.parsed i = x
  intro htaken
  cases htaken with
  | none hdev | phy hdev | pcap hdev | ring hdev => simp [HostNames.isPhy, HostNames.isPcap, hdev]
  | @other type id x hdev hpcap hring htype =>
    cases type with
    | pcap => exact absurd rfl hpcap
    | ring => exact absurd rfl hring
    | vhost | memif | nullpmd | pipe =>
      simp [HostNames.isPhy, HostNames.isPcap, hdev, htype, VdevType.portType]

/-- The loop counts network cards and pcap devices. -/
theorem phyCount_withHost (H : HostNames) (n : ℕ) :
    phyCount (P.withHost H) n = H.rank n + (List.range n).countP H.isPcap := by
  induction n with
  | zero => rfl
  | succ n ih =>
    have hparsed := H.parsed_phy n
    rw [phyCount_succ, ih, HostNames.rank, Nat.count_succ, List.range_succ, List.countP_append, List.countP_singleton]
    show _ + (if (H.parsed n).any (·.1 = .phy) then 1 else 0) = _
    omega

theorem parsed_ring_iff :
    H.parsed i = some (.ring, no) ↔ no = 0 ∧ ∃ id, H.dev i = some (.vdev .ring id) := by
  have htaken := H.taken i
  constructor
  · intro heq
    rw [heq] at htaken
    cases htaken with
    | ring hdev => exact ⟨rfl, _, hdev⟩
    | @other type id x hdev hpcap hring htype =>
      cases type with
      | ring => exact absurd rfl hring
      | pcap | vhost | memif | nullpmd | pipe => cases htype
  rintro ⟨rfl, id, hdev⟩
  revert htaken
  generalize H.parsed i = x
  intro htaken
  cases htaken with
  | none h | phy h | pcap h =>
    rw [hdev] at h
    cases h
  | ring h => rfl
  | other h _ hring _ =>
    rw [hdev] at h
    cases h
    exact absurd rfl hring

theorem exists_parsed_ring_iff : (∃ i < n, H.parsed i = some (.ring, no)) ↔
    no = 0 ∧ ∃ i < n, ∃ id, H.dev i = some (.vdev .ring id) := by
  constructor
  · rintro ⟨i, hi, hdev⟩
    obtain ⟨hno, hring⟩ := parsed_ring_iff.mp hdev
    exact ⟨hno, i, hi, hring⟩
  · rintro ⟨hno, i, hi, hring⟩
    exact ⟨i, hi, parsed_ring_iff.mpr ⟨hno, hring⟩⟩

/-- In order, a network card is where its rank says. -/
theorem HostNames.InOrder.rank_eq (h : H.InOrder P) (hi : i < P.maxEthports)
    (hphy : H.isPhy i = true) : H.rank i = i :=
  Nat.count_iff_forall.mpr (h.phy i hi hphy)

/-- In order, the network cards have the first ids. -/
theorem HostNames.InOrder.isPhy_of_lt (h : H.InOrder P) (hn : n ≤ P.maxEthports)
    (hno : no < H.rank n) : H.isPhy no = true := by
  induction n with
  | zero => exact absurd hno (Nat.not_lt_zero _)
  | succ n ih =>
    rw [HostNames.rank, Nat.count_succ, ← HostNames.rank] at hno
    rcases Nat.lt_or_ge no (H.rank n) with hlt | hge
    · exact ih (Nat.le_of_succ_le hn) hlt
    by_cases hphy : H.isPhy n = true
    · rw [if_pos hphy, h.rank_eq hn hphy] at hno
      rw [h.rank_eq hn hphy] at hge
      obtain rfl : no = n := by omega
      exact hphy
    · rw [if_neg hphy] at hno
      omega

theorem phyEntry (P : Platform) (H : HostNames) (no q : ℕ) :
    let e := initHostPortInfo (P.withHost H) initPortInfo (.phy no q)
    (no < phyCount (P.withHost H) P.maxEthports ∧ q < P.maxQueuesPerPort ∧
      e.ifaceType = .phy ∧ e.ethdevPortId = no) ∨
    (¬(no < phyCount (P.withHost H) P.maxEthports ∧ q < P.maxQueuesPerPort) ∧
      e.ifaceType = .undef ∧ e.ethdevPortId = -1) := by
  intro e
  have hentry : e = _ := initHostPortInfo_phy (P := P.withHost H) no q
  split at hentry
  · rename_i hlt
    rw [hentry]
    exact .inl ⟨hlt.1, hlt.2, rfl, rfl⟩
  · rename_i hge
    rw [hentry]
    exact .inr ⟨hge, rfl, rfl⟩

theorem ringEntry (P : Platform) (H : HostNames) (no : ℕ) :
    let e := initHostPortInfo (P.withHost H) initPortInfo (.ring no)
    (no = 0 ∧ (∃ i < P.maxEthports, ∃ id, H.dev i = some (.vdev .ring id)) ∧
      e.ifaceType = .ring ∧ e.ethdevPortId = 0) ∨
    (¬(no = 0 ∧ ∃ i < P.maxEthports, ∃ id, H.dev i = some (.vdev .ring id)) ∧
      e.ifaceType = .undef ∧ e.ethdevPortId = -1) := by
  intro e
  have hentry : e = _ := initHostPortInfo_ring (P := P.withHost H) no
  split at hentry
  · rename_i hex
    obtain ⟨rfl, hring⟩ := exists_parsed_ring_iff.mp hex
    rw [hentry]
    exact .inl ⟨rfl, hring, rfl, rfl⟩
  · rename_i hno
    rw [hentry]
    exact .inr ⟨fun hex => hno (exists_parsed_ring_iff.mpr hex), rfl, rfl⟩

theorem identified_of_inOrder (h : H.InOrder P) :
    Identified P H (initHostPortInfo (P.withHost H) initPortInfo) := by
  have hcount : phyCount (P.withHost H) P.maxEthports = H.rank P.maxEthports := by
    rw [phyCount_withHost, Nat.add_eq_left, List.countP_eq_zero]
    intro i hi hpcap
    unfold HostNames.isPcap at hpcap
    split at hpcap
    · rename_i id hdev
      exact h.pcap i (List.mem_range.mp hi) id hdev
    · cases hpcap
  intro r hr
  cases r with
  | vhost no => exact hr.elim
  | phy no q =>
    obtain ⟨hno, hq⟩ := hr
    rcases phyEntry P H no q with ⟨hlt, -, htype, hid⟩ | ⟨hge, htype, hid⟩
    · rw [hcount] at hlt
      have hphy := h.isPhy_of_lt le_rfl hlt
      refine ⟨fun i hi hdev => ?_, fun hnone => ?_⟩
      · have hi : i = no := (h.rank_eq hi hdev.1).symm.trans hdev.2
        rw [htype, hid, hi]
        exact ⟨by decide, rfl⟩
      · exact absurd ⟨hphy, h.rank_eq hno hphy⟩ (hnone no hno)
    · refine ⟨fun i hi hdev => ?_, fun _ => ⟨htype, hid⟩⟩
      have hlt : H.rank i < H.rank P.maxEthports := Nat.count_strict_mono hdev.1 hi
      rw [hdev.2, ← hcount] at hlt
      exact absurd ⟨hlt, hq⟩ hge
  | ring no =>
    have hno : no < P.maxEthports := hr
    rcases ringEntry P H no with ⟨rfl, ⟨j, hj, id, hring⟩, htype, hid⟩ | ⟨hnot, htype, hid⟩
    · have hzero := (h.ring j hj id hring).1
      refine ⟨fun i hi hdev => ?_, fun hnone => absurd hzero (hnone 0 hno)⟩
      have hi : i = 0 := H.unique i 0 _ _ hdev hzero rfl
      rw [htype, hid, hi]
      exact ⟨by decide, rfl⟩
    · refine ⟨fun i hi hdev => ?_, fun _ => ⟨htype, hid⟩⟩
      have hno0 := (h.ring i hi no hdev).2 ⟨by omega, by omega⟩
      exact absurd ⟨Int.ofNat_eq_zero.mp hno0, i, hi, no, hdev⟩ hnot

theorem inOrder_of_identified (hq : 0 < P.maxQueuesPerPort)
    (h : Identified P H (initHostPortInfo (P.withHost H) initPortInfo)) : H.InOrder P := by
  refine ⟨fun i hi id hdev => ?_, fun i hi id hdev => ?_, fun i hi hcard => ?_⟩
  · -- the entry behind those of the network cards has a type and no device
    have hpcap : H.isPcap i = true := by
      unfold HostNames.isPcap
      rw [hdev]
    have hpos : 0 < (List.range P.maxEthports).countP H.isPcap :=
      List.countP_pos_iff.mpr ⟨i, List.mem_range.mpr hi, hpcap⟩
    have hcount := phyCount_withHost (P := P) H P.maxEthports
    have hle := phyCount_le (P.withHost H) P.maxEthports
    have hnone := (h (.phy (H.rank P.maxEthports) 0) ⟨by omega, hq⟩).2 fun j hj hj' =>
      absurd hj'.2 (Nat.ne_of_lt (Nat.count_strict_mono hj'.1 hj))
    rcases phyEntry P H (H.rank P.maxEthports) 0 with ⟨-, -, htype, -⟩ | ⟨hge, -⟩
    · rw [htype] at hnone
      exact absurd hnone.1 (by decide)
    · exact hge ⟨by omega, hq⟩
  · obtain ⟨hfound, habsent⟩ := h (.ring 0) (Nat.zero_lt_of_lt hi)
    rcases ringEntry P H 0 with ⟨-, -, htype, hid⟩ | ⟨hnot, -⟩
    · rw [htype, hid] at hfound habsent
      refine ⟨?_, fun hid => ?_⟩
      · by_contra hno
        refine absurd (habsent fun j hj hdev' => ?_).1 (by decide)
        obtain rfl : j = 0 := by
          have hj0 := (hfound j hj hdev').2
          omega
        exact hno hdev'
      · obtain ⟨no, rfl⟩ := Int.eq_ofNat_of_zero_le hid.1
        have htyped := ((h (.ring no) (Int.ofNat_lt.mp hid.2)).1 i hi hdev).1
        rcases ringEntry P H no with ⟨rfl, -⟩ | ⟨-, htype, -⟩
        · rfl
        · exact absurd htype htyped
    · exact absurd ⟨rfl, i, hi, id, hdev⟩ hnot
  · have hle : H.rank i ≤ i := Nat.count_le _
    obtain ⟨htyped, hi'⟩ := (h (.phy (H.rank i) 0) ⟨by omega, hq⟩).1 i hi ⟨hcard, rfl⟩
    rcases phyEntry P H (H.rank i) 0 with ⟨-, -, -, hid⟩ | ⟨-, htype, -⟩
    · rw [hid] at hi'
      exact Nat.count_iff_forall.mp (Int.ofNat.inj hi')
    · exact absurd htype htyped

/-- **Port identity at start-up**: the tables that `spp_vf`, `spp_mirror` and `spp_pcap`
build at start-up name the right devices if and only if the numberings agree. -/
theorem identified_iff (P : Platform) (hq : 0 < P.maxQueuesPerPort) (H : HostNames) :
    (Identified P H (initHostPortInfo (P.withHost H) initPortInfo) ∧
      Identified P H (Pcap.initHostPortInfo (P.withHost H) initPortInfo)) ↔ H.InOrder P := by
  constructor
  · rintro ⟨h, -⟩
    exact inOrder_of_identified hq h
  · intro h
    exact ⟨identified_of_inOrder h, identified_of_inOrder h⟩

/-- A network card. -/
def sampleCard : PhyName := ⟨"0000:00:08.0", by decide⟩

/-- The host with these devices, from the id 0 on. -/
def HostNames.ofList (l : List HostDevice) (h : (l.map HostDevice.name).Nodup) : HostNames where
  dev i := l[i]?
  unique i j d d' hi hj hname := by
    have hi' : (l.map HostDevice.name)[i]? = some d.name := by rw [List.getElem?_map, hi]; rfl
    have hj' : (l.map HostDevice.name)[j]? = some d'.name := by rw [List.getElem?_map, hj]; rfl
    have hlt : i < (l.map HostDevice.name).length := (List.getElem?_eq_some_iff.mp hi').1
    exact (List.getElem?_inj hlt h).mp (hi'.trans (hname ▸ hj'.symm))

/-- A host with two network cards, and with a vhost behind them. -/
def twoCards : HostNames :=
  .ofList [.phy sampleCard, .phy ⟨"0000:00:09.0", by decide⟩, .vdev .vhost 0] (by decide)

/-- With the network cards in front, all entries are right. -/
theorem identified_iff_twoCards :
    Identified (.sample .vf) twoCards
        (initHostPortInfo ((Platform.sample .vf).withHost twoCards) initPortInfo) ∧
      Identified (.sample .vf) twoCards
        (Pcap.initHostPortInfo ((Platform.sample .vf).withHost twoCards) initPortInfo) := by
  have hvhost {i : ℕ} {type : VdevType} {id : ℤ} (h : twoCards.dev i = some (.vdev type id)) :
      type = .vhost := by
    have hmem := List.mem_of_getElem? h
    simp only [List.mem_cons, reduceCtorEq, HostDevice.vdev.injEq, List.not_mem_nil, or_false,
      false_or] at hmem
    exact hmem.1
  refine (identified_iff (.sample .vf) (by decide) twoCards).mpr
    ⟨fun i _ id h => ?_, fun i _ id h => ?_, by decide⟩
  · cases hvhost h
  · cases hvhost h

/-- A host on which a vhost was there before the network card, and ring 1 after it. -/
def mixedHost : HostNames :=
  .ofList [.vdev .vhost 0, .phy sampleCard, .vdev .ring 1] (by decide)

/-- **Wrong devices.**  The network card with the ethdev id 1 is entered with the id 0,
which is the vhost's; and the device of ring 1 is entered as ring 0, with the same id. -/
theorem not_identified_mixedHost :
    ¬ Identified (.sample .vf) mixedHost
        (initHostPortInfo ((Platform.sample .vf).withHost mixedHost) initPortInfo) ∧
      ¬ Identified (.sample .vf) mixedHost
        (Pcap.initHostPortInfo ((Platform.sample .vf).withHost mixedHost) initPortInfo) := by
  have hcard : mixedHost.IsDevice (.phy 0 0) 1 := ⟨rfl, rfl⟩
  have hentry : (initHostPortInfo ((Platform.sample .vf).withHost mixedHost) initPortInfo
      (.phy 0 0)).ethdevPortId = 0 := by decide +kernel
  have hwrong (h : Identified (.sample .vf) mixedHost
      (initHostPortInfo ((Platform.sample .vf).withHost mixedHost) initPortInfo)) : False := by
    have hid := ((h (.phy 0 0) ⟨by decide, by decide⟩).1 1 (by decide) hcard).2
    rw [hentry] at hid
    exact absurd hid (by decide)
  exact ⟨hwrong, hwrong⟩

end Worker
end SoftPatchPanel
